import NodeAgent.Listener.Build

/-!
Texts as bytes. No two texts have the same bytes, and no two lists of bytes the same Base64.
-/

namespace NodeAgent

namespace Text

theorem toList_loop_eq (b : ByteArray) (i : Nat) (r : List UInt8) :
    ByteArray.toList.loop b i r = r.reverse ++ b.data.toList.drop i := by
  fun_induction ByteArray.toList.loop b i r with
  | case1 i r hlt ih =>
    have hi : i < b.data.toList.length := hlt
    have hget : b.get! i = b.data.toList[i] := getElem!_pos b.data i hlt
    rw [ih, List.drop_eq_getElem_cons hi, hget, List.reverse_cons, List.append_assoc,
      List.singleton_append]
  | case2 i r hle =>
    have hi : b.data.toList.length ≤ i := Nat.not_lt.1 hle
    rw [List.drop_eq_nil_of_le hi, List.append_nil]

theorem toList_toUTF8 (s : String) :
    s.toUTF8.toList = s.toList.flatMap String.utf8EncodeChar := by
  rw [ByteArray.toList, toList_loop_eq, List.reverse_nil, List.nil_append, List.drop_zero,
    String.toUTF8_eq_toByteArray, ← String.utf8Encode_toList, List.utf8Encode,
    List.data_toByteArray, List.toList_toArray]

theorem toUTF8_toList_inj {s t : String} : s.toUTF8.toList = t.toUTF8.toList ↔ s = t := by
  refine ⟨fun h => ?_, fun h => by rw [h]⟩
  rw [toList_toUTF8, toList_toUTF8] at h
  have hbytes : s.toByteArray = t.toByteArray := by
    rw [← String.utf8Encode_toList, ← String.utf8Encode_toList, List.utf8Encode, h,
      List.utf8Encode]
  exact String.toByteArray_inj.1 hbytes

namespace Base64

theorem value?_digit {n : Nat} (h : n < 64) : value? (digit n) = some n := by
  have hall : ∀ m : Fin 64, value? (digit m) = some m.val := by decide
  exact hall ⟨n, h⟩

theorem digit_ne_pad {n : Nat} (h : n < 64) : digit n ≠ '=' := by
  have hall : ∀ m : Fin 64, digit m ≠ '=' := by decide
  exact hall ⟨n, h⟩

theorem decodeGroup_one (a : UInt8) :
    let n := a.toNat * 16
    decodeGroup (digit (n / 64)) (digit (n % 64)) '=' '=' = some [a] := by
  intro n
  have ha := a.toNat_lt
  have hn : n / 64 * 64 + n % 64 = n := by omega
  have hzero : n % 16 = 0 := by omega
  have hbyte : n / 16 = a.toNat := by omega
  simp [decodeGroup, value?_digit (n := n / 64) (by omega), value?_digit (n := n % 64) (by omega),
    hn, hzero, hbyte]

theorem decodeGroup_two (a b : UInt8) :
    let n := (a.toNat * 256 + b.toNat) * 4
    decodeGroup (digit (n / 4096)) (digit (n / 64 % 64)) (digit (n % 64)) '=' = some [a, b] := by
  intro n
  have ha := a.toNat_lt
  have hb := b.toNat_lt
  have hn : (n / 4096 * 64 + n / 64 % 64) * 64 + n % 64 = n := by omega
  have hzero : n % 4 = 0 := by omega
  have hfirst : n / 1024 = a.toNat := by omega
  have hsecond : n / 4 % 256 = b.toNat := by omega
  simp [decodeGroup, value?_digit (n := n / 4096) (by omega),
    value?_digit (n := n / 64 % 64) (by omega), value?_digit (n := n % 64) (by omega),
    digit_ne_pad (n := n % 64) (by omega), hn, hzero, hfirst, hsecond]

theorem decodeGroup_three (a b c : UInt8) :
    let n := (a.toNat * 256 + b.toNat) * 256 + c.toNat
    decodeGroup (digit (n / 262144)) (digit (n / 4096 % 64)) (digit (n / 64 % 64))
      (digit (n % 64)) = some [a, b, c] := by
  intro n
  have ha := a.toNat_lt
  have hb := b.toNat_lt
  have hc := c.toNat_lt
  have hn : ((n / 262144 * 64 + n / 4096 % 64) * 64 + n / 64 % 64) * 64 + n % 64 = n := by omega
  have hfirst : n / 65536 = a.toNat := by omega
  have hsecond : n / 256 % 256 = b.toNat := by omega
  have hthird : n % 256 = c.toNat := by omega
  simp [decodeGroup, value?_digit (n := n / 262144) (by omega),
    value?_digit (n := n / 4096 % 64) (by omega), value?_digit (n := n / 64 % 64) (by omega),
    value?_digit (n := n % 64) (by omega), digit_ne_pad (n := n / 64 % 64) (by omega),
    digit_ne_pad (n := n % 64) (by omega), hn, hfirst, hsecond, hthird]

theorem decode_encode (l : List UInt8) : decode (encode l) = some l := by
  fun_induction encode l with
  | case1 => rfl
  | case2 a n =>
    rw [decode, decodeGroup_one]
    rfl
  | case3 a b n =>
    rw [decode, decodeGroup_two]
    rfl
  | case4 a b c r n ih =>
    rw [decode, decodeGroup_three, ih]
    rfl

theorem encodeText_inj {s t : String} : encodeText s = encodeText t ↔ s = t := by
  refine ⟨fun h => ?_, fun h => by rw [h]⟩
  have hencode := String.ofList_injective h
  have hbytes : some s.toUTF8.toList = some t.toUTF8.toList := by
    rw [← decode_encode, ← decode_encode, hencode]
  exact toUTF8_toList_inj.1 (Option.some.inj hbytes)

end Base64

end Text

end NodeAgent
