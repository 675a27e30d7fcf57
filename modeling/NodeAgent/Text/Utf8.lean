/-!
UTF-8 read from bytes. `decode?` takes well-formed text only; `decodeLossy` takes anything, and puts
U+FFFD for each longest part that could have begun a character.
-/

namespace NodeAgent.Text.Utf8

def decode? (s : List UInt8) : Option String := String.fromUTF8? ⟨s.toArray⟩

/-- What the first byte of a character of several bytes says about the others. -/
structure Lead where
  bits : Nat
  more : Nat
  low : UInt8 := 0x80
  high : UInt8 := 0xbf

def lead? (b : UInt8) : Option Lead :=
  if 0xc2 ≤ b ∧ b ≤ 0xdf then some { bits := b.toNat - 0xc0, more := 1 }
  else if b = 0xe0 then some { bits := 0, more := 2, low := 0xa0 }
  else if b = 0xed then some { bits := 0xd, more := 2, high := 0x9f }
  else if 0xe1 ≤ b ∧ b ≤ 0xef then some { bits := b.toNat - 0xe0, more := 2 }
  else if b = 0xf0 then some { bits := 0, more := 3, low := 0x90 }
  else if b = 0xf4 then some { bits := 4, more := 3, high := 0x8f }
  else if 0xf1 ≤ b ∧ b ≤ 0xf3 then some { bits := b.toNat - 0xf0, more := 3 }
  else none

/-- A character, or the end of what could have been one, and the bytes after it. -/
def finish : Lead → List UInt8 → Char × List UInt8
  | ⟨bits, 0, _, _⟩, s => (Char.ofNat bits, s)
  | ⟨_, _ + 1, _, _⟩, [] => ('\ufffd', [])
  | ⟨bits, more + 1, low, high⟩, b :: r =>
    if low ≤ b ∧ b ≤ high then finish { bits := bits * 64 + (b.toNat - 0x80), more } r
    else ('\ufffd', b :: r)

theorem length_finish_le (l : Lead) (s : List UInt8) : (finish l s).2.length ≤ s.length := by
  induction s generalizing l with
  | nil =>
    obtain ⟨bits, more, low, high⟩ := l
    cases more <;> simp [finish]
  | cons b r ih =>
    obtain ⟨bits, more, low, high⟩ := l
    cases more with
    | zero => simp [finish]
    | succ n =>
      unfold finish
      split
      · exact Nat.le_succ_of_le (ih _)
      · exact Nat.le_refl _

def decodeLossy : List UInt8 → List Char
  | [] => []
  | b :: r =>
    if b < 0x80 then Char.ofNat b.toNat :: decodeLossy r
    else
      match lead? b with
      | none => '\ufffd' :: decodeLossy r
      | some l => (finish l r).1 :: decodeLossy (finish l r).2
  termination_by s => s.length
  decreasing_by
    all_goals simp only [List.length_cons]
    · omega
    · omega
    · have := length_finish_le l r
      omega

end NodeAgent.Text.Utf8
