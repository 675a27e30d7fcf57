import Mathlib.Data.List.Nodup
import NodeAgent.Proofs.Bytes
import NodeAgent.Proofs.Diff

/-!
Whom the engine takes a client for. A client shows a secret, and the secret is made of the user's
UUID: of the whole of it, or of as many bytes as a key of the cipher has. Users whose UUIDs begin with
the same bytes have the same key, and the engine cannot tell them apart.
-/

namespace NodeAgent

namespace Credential

def HasKeys (n : NodeInfo) : Prop :=
  n.kind = .shadowsocks ∧ Listener.is2022 n.endpoint.cipher = true

instance (n : NodeInfo) : Decidable (HasKeys n) := instDecidableAnd

def keyBytes (n : NodeInfo) (uuid : String) : List UInt8 :=
  uuid.toUTF8.toList.take (keyLength2022 n.endpoint.cipher)

theorem takeBytes_utf8 {n : Nat} {s key : List Char} (h : takeBytes n s = some key) :
    key.flatMap String.utf8EncodeChar = (s.flatMap String.utf8EncodeChar).take n := by
  fun_induction takeBytes n s generalizing key with
  | case1 s =>
    cases h
    rfl
  | case2 n => cases h
  | case3 n c r hfits ih =>
    obtain ⟨key, hkey, rfl⟩ := Option.map_eq_some_iff.1 h
    have hlength := String.length_utf8EncodeChar c
    have hwhole : (String.utf8EncodeChar c).length ≤ n + 1 := hlength ▸ hfits
    rw [List.flatMap_cons, List.flatMap_cons, ih hkey, List.take_append, hlength,
      List.take_of_length_le hwhole]
  | case4 n c r hlong => cases h

variable {n : NodeInfo} {u v : User} {c d : Credential}

theorem secret_of_password (hn : ¬HasKeys n) (h : ofUser n u = .ok c) : c.secret = u.uuid := by
  unfold ofUser at h
  cases hk : n.kind with
  | shadowsocks =>
    have hcipher : Listener.is2022 n.endpoint.cipher ≠ true := fun h => hn ⟨hk, h⟩
    simp only [hk, if_neg hcipher] at h
    cases h
    rfl
  | _ =>
    simp only [hk] at h
    cases h
    rfl

theorem secret_of_key (hn : HasKeys n) (h : ofUser n u = .ok c) :
    ∃ key, c.secret = Text.Base64.encodeText key ∧ key.toUTF8.toList = keyBytes n u.uuid := by
  obtain ⟨hk, hcipher⟩ := hn
  simp only [ofUser, hk, if_pos hcipher] at h
  split at h
  next key hkey =>
    cases h
    refine ⟨String.ofList key, rfl, ?_⟩
    rw [Text.toList_toUTF8, String.toList_ofList, takeBytes_utf8 hkey, keyBytes,
      Text.toList_toUTF8]
  · cases h

theorem secret_eq_iff_of_password (hn : ¬HasKeys n) (hc : ofUser n u = .ok c)
    (hd : ofUser n v = .ok d) : c.secret = d.secret ↔ u.uuid = v.uuid := by
  rw [secret_of_password hn hc, secret_of_password hn hd]

theorem secret_eq_iff_of_key (hn : HasKeys n) (hc : ofUser n u = .ok c)
    (hd : ofUser n v = .ok d) : c.secret = d.secret ↔ keyBytes n u.uuid = keyBytes n v.uuid := by
  obtain ⟨key, hsecret, hkey⟩ := secret_of_key hn hc
  obtain ⟨key', hsecret', hkey'⟩ := secret_of_key hn hd
  rw [hsecret, hsecret', Text.Base64.encodeText_inj, ← hkey, ← hkey', Text.toUTF8_toList_inj]

end Credential

namespace LocalEngine

variable {e e' : LocalEngine} {tag : String} {bs : List Binding}

theorem mem_values_addUsers {k : Nat} (h : e.addUsers tag bs = (e', .ok k))
    (alone : e.usersOf tag = ∅) (tags : (bs.map (·.userTag)).Nodup) {b : Binding} :
    b ∈ (e'.usersOf tag).values ↔ b ∈ bs := by
  obtain ⟨husers, -, -⟩ := addUsers_ok h
  have hkeys : ((bs.map fun b => (b.userTag, b)).map Prod.fst).Nodup := by
    rwa [List.map_map]
  rw [husers, alone, Table.mem_values_iff]
  simp only [Table.find?_insertMany_empty hkeys, List.mem_map, Prod.mk.injEq]
  constructor
  · rintro ⟨t, b', hb', -, rfl⟩
    exact hb'
  · intro hb
    exact ⟨b.userTag, b, hb, rfl, rfl⟩

theorem authenticate_of_mem {b : Binding} (h : b ∈ (e.usersOf tag).values) :
    ∃ b' ∈ (e.usersOf tag).values, b'.credential.secret = b.credential.secret ∧
      e.authenticate tag b.credential.secret = some b'.userTag := by
  have hfound : ((e.usersOf tag).values.find?
      fun b' => b'.credential.secret == b.credential.secret).isSome :=
    List.find?_isSome.2 ⟨b, h, beq_self_eq_true _⟩
  obtain ⟨b', hb'⟩ := Option.isSome_iff_exists.1 hfound
  have hsecret := List.find?_some hb'
  refine ⟨b', List.mem_of_find?_eq_some hb', eq_of_beq hsecret, ?_⟩
  rw [authenticate, hb', Option.map_some]

variable {n : NodeInfo} {users : List User}

/-- One who shows this user's secret is taken for this user. -/
def Knows (e : LocalEngine) (n : NodeInfo) (tag : String) (u : User) : Prop :=
  ∃ c, Credential.ofUser n u = .ok c ∧
    e.authenticate tag c.secret = some (userTag tag u.uuid)

theorem authenticate_of_user {k : Nat} (h : e.addUsers tag bs = (e', .ok k))
    (alone : e.usersOf tag = ∅) (distinct : Distinct users)
    (built : Binding.ofUsers n tag users = .ok bs) {u : User} (hu : u ∈ users) :
    ∃ c, Credential.ofUser n u = .ok c ∧ ∃ v ∈ users, ∃ d, Credential.ofUser n v = .ok d ∧
      d.secret = c.secret ∧ e'.authenticate tag c.secret = some (userTag tag v.uuid) := by
  have htags : (bs.map (·.userTag)).Nodup := by
    rw [Binding.userTags_ofUsers built]
    exact Limiter.nodup_userTags distinct
  have hmem {b : Binding} : b ∈ (e'.usersOf tag).values ↔ b ∈ bs :=
    mem_values_addUsers h alone htags
  obtain ⟨b, hb, hbinding⟩ := exists_of_mapM_ok built hu
  obtain ⟨c, hc, rfl⟩ := Binding.ofUser_eq_ok.1 hbinding
  obtain ⟨b', hb', hsecret, hauth⟩ := authenticate_of_mem (hmem.2 hb)
  obtain ⟨v, hv, hbinding'⟩ := exists_of_mem_mapM_ok built (hmem.1 hb')
  obtain ⟨d, hd, rfl⟩ := Binding.ofUser_eq_ok.1 hbinding'
  exact ⟨c, hc, v, hv, d, hd, hsecret, hauth⟩

theorem eq_of_knows {u v : User} {c d : Credential} (hc : Credential.ofUser n u = .ok c)
    (hd : Credential.ofUser n v = .ok d) (hsecret : c.secret = d.secret)
    (hu : e.Knows n tag u) (hv : e.Knows n tag v) : u.uuid = v.uuid := by
  obtain ⟨c', hc', hauth⟩ := hu
  obtain ⟨d', hd', hauth'⟩ := hv
  obtain rfl : c = c' := Except.ok.inj (hc.symm.trans hc')
  obtain rfl : d = d' := Except.ok.inj (hd.symm.trans hd')
  rw [hsecret, hauth'] at hauth
  exact (userTag_inj.1 (Option.some.inj hauth)).symm

/--
Each user's secret is found with the user or with one whose key is made of the same bytes. All users
are known by their secrets just if no two have a key in common.
-/
theorem knows_iff_keys_differ (serves : e.Serves tag) (alone : e.usersOf tag = ∅)
    (distinct : Distinct users) (built : Binding.ofUsers n tag users = .ok bs) :
    ∃ e', e.addUsers tag bs = (e', .ok bs.length) ∧
      (∀ u ∈ users, ∃ c, Credential.ofUser n u = .ok c ∧ ∃ v ∈ users,
        e'.authenticate tag c.secret = some (userTag tag v.uuid) ∧
          (v = u ∨ Credential.HasKeys n ∧
            Credential.keyBytes n v.uuid = Credential.keyBytes n u.uuid)) ∧
      ((∀ u ∈ users, e'.Knows n tag u) ↔
        (Credential.HasKeys n → (users.map fun u => Credential.keyBytes n u.uuid).Nodup)) := by
  have hadded : e.addUsers tag bs = ((e.addUsers tag bs).1, .ok bs.length) :=
    Prod.ext rfl (addUsers_of_serves serves bs)
  have hfound {u : User} (hu : u ∈ users) : ∃ c, Credential.ofUser n u = .ok c ∧ ∃ v ∈ users,
      (e.addUsers tag bs).1.authenticate tag c.secret = some (userTag tag v.uuid) ∧
        (v = u ∨ Credential.HasKeys n ∧
          Credential.keyBytes n v.uuid = Credential.keyBytes n u.uuid) := by
    obtain ⟨c, hc, v, hv, d, hd, hsecret, hauth⟩ :=
      authenticate_of_user hadded alone distinct built hu
    refine ⟨c, hc, v, hv, hauth, ?_⟩
    by_cases hn : Credential.HasKeys n
    · exact .inr ⟨hn, (Credential.secret_eq_iff_of_key hn hd hc).1 hsecret⟩
    · have huuid := (Credential.secret_eq_iff_of_password hn hd hc).1 hsecret
      exact .inl (eq_of_uuid_eq distinct hv hu huuid)
  refine ⟨_, hadded, fun u hu => hfound hu, fun hknown hn => ?_, fun hkeys u hu => ?_⟩
  · -- two users of one key have one secret, and it is taken for only one of them
    refine List.Nodup.map_on (fun u hu v hv hkey => ?_) distinct.of_map
    obtain ⟨c, hc, -⟩ := hfound hu
    obtain ⟨d, hd, -⟩ := hfound hv
    have hsecret : c.secret = d.secret := (Credential.secret_eq_iff_of_key hn hc hd).2 hkey
    exact eq_of_uuid_eq distinct hu hv
      (eq_of_knows hc hd hsecret (hknown u hu) (hknown v hv))
  · obtain ⟨c, hc, v, hv, hauth, rfl | ⟨hn, hkey⟩⟩ := hfound hu
    · exact ⟨c, hc, hauth⟩
    · have hsame : v = u := List.inj_on_of_nodup_map (hkeys hn) hv hu hkey
      exact ⟨c, hc, hsame ▸ hauth⟩

section SharedKey

def shadowsocksNode : NodeInfo where
  id := 1
  kind := .shadowsocks
  endpoint := { cipher := "2022-blake3-aes-128-gcm" }

def listening (n : NodeInfo) (tag : String) : LocalEngine :=
  match Listener.build n tag "" with
  | .ok l => (({} : LocalEngine).addListener l).1
  | .error _ => {}

/-- The first two have the first sixteen bytes in common. -/
def threeUsers : List User :=
  [⟨1, "0123456789abcdef-alice", 0, 0⟩, ⟨2, "0123456789abcdef-bob", 0, 0⟩,
    ⟨3, "fedcba9876543210-carol", 0, 0⟩]

def threeBindings : List Binding :=
  [⟨"node|0123456789abcdef-alice", 1, .shadowsocks2022 "MDEyMzQ1Njc4OWFiY2RlZg=="⟩,
    ⟨"node|0123456789abcdef-bob", 2, .shadowsocks2022 "MDEyMzQ1Njc4OWFiY2RlZg=="⟩,
    ⟨"node|fedcba9876543210-carol", 3, .shadowsocks2022 "ZmVkY2JhOTg3NjU0MzIxMA=="⟩]

theorem confused_by_shared_key :
    let e := listening shadowsocksNode "node"
    e.Serves "node" ∧ e.usersOf "node" = ∅ ∧ Distinct threeUsers ∧
      Binding.ofUsers shadowsocksNode "node" threeUsers = .ok threeBindings ∧
      ¬∀ u ∈ threeUsers, (e.addUsers "node" threeBindings).1.Knows shadowsocksNode "node" u := by
  intro e
  refine ⟨⟨by decide +kernel, by decide +kernel⟩, Table.ext (by decide +kernel),
    by decide +kernel, by decide +kernel, fun hknown => ?_⟩
  have halice := hknown ⟨1, "0123456789abcdef-alice", 0, 0⟩ (by decide)
  have hbob := hknown ⟨2, "0123456789abcdef-bob", 0, 0⟩ (by decide)
  have hsame := eq_of_knows (c := .shadowsocks2022 "MDEyMzQ1Njc4OWFiY2RlZg==")
    (d := .shadowsocks2022 "MDEyMzQ1Njc4OWFiY2RlZg==") (by decide +kernel) (by decide +kernel) rfl
    halice hbob
  exact absurd hsame (by decide)

theorem three_users_found :
    let e := listening shadowsocksNode "node"
    ∃ e', e.addUsers "node" threeBindings = (e', .ok 3) ∧
      (∀ u ∈ threeUsers, ∃ c, Credential.ofUser shadowsocksNode u = .ok c ∧ ∃ v ∈ threeUsers,
        e'.authenticate "node" c.secret = some (userTag "node" v.uuid) ∧
          (v = u ∨ Credential.HasKeys shadowsocksNode ∧
            Credential.keyBytes shadowsocksNode v.uuid =
              Credential.keyBytes shadowsocksNode u.uuid)) ∧
      ((∀ u ∈ threeUsers, e'.Knows shadowsocksNode "node" u) ↔
        (Credential.HasKeys shadowsocksNode →
          (threeUsers.map fun u => Credential.keyBytes shadowsocksNode u.uuid).Nodup)) := by
  intro e
  have hserves : e.Serves "node" := ⟨by decide +kernel, by decide +kernel⟩
  have halone : e.usersOf "node" = ∅ := Table.ext (by decide +kernel)
  have hdistinct : Distinct threeUsers := by decide +kernel
  have hbuilt : Binding.ofUsers shadowsocksNode "node" threeUsers = .ok threeBindings := by
    decide +kernel
  exact knows_iff_keys_differ hserves halone hdistinct hbuilt

end SharedKey

end LocalEngine

end NodeAgent
