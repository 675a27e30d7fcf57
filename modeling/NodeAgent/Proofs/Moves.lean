import NodeAgent.Proofs.Counters
import NodeAgent.Proofs.Except
import NodeAgent.Proofs.Registry
import NodeAgent.Proofs.Tags

/-!
Users who leave a node and users who come in. The engine's registry, the ids and the traffic
counters are keyed by user tag, and are changed together.
-/

namespace NodeAgent

def userTags (node : String) (users : List User) : List String :=
  users.map fun u => userTag node u.uuid

theorem mem_userTags {node t : String} {users : List User} :
    t ∈ userTags node users ↔ ∃ u ∈ users, userTag node u.uuid = t := List.mem_map

theorem userTag_mem_userTags {node uuid : String} {users : List User} :
    userTag node uuid ∈ userTags node users ↔ ∃ u ∈ users, u.uuid = uuid := by
  simp only [mem_userTags, userTag_inj]

namespace Binding

theorem ofUser_eq_ok {n : NodeInfo} {tag : String} {u : User} {b : Binding} :
    ofUser n tag u = .ok b ↔
      ∃ c, Credential.ofUser n u = .ok c ∧ b = ⟨NodeAgent.userTag tag u.uuid, u.id, c⟩ := by
  unfold ofUser
  cases Credential.ofUser n u with
  | error e => simp [bind, Except.bind]
  | ok c => simp [bind, Except.bind, pure, Except.pure, eq_comm]

theorem ofUser_ok {n : NodeInfo} {tag : String} {u : User} {b : Binding}
    (h : ofUser n tag u = .ok b) : b.userTag = NodeAgent.userTag tag u.uuid ∧ b.uid = u.id := by
  obtain ⟨c, -, rfl⟩ := ofUser_eq_ok.1 h
  exact ⟨rfl, rfl⟩

theorem userTags_ofUsers {n : NodeInfo} {tag : String} {users : List User}
    {bindings : List Binding} (h : ofUsers n tag users = .ok bindings) :
    bindings.map (·.userTag) = userTags tag users :=
  map_eq_of_mapM_ok (fun _ _ hu => (ofUser_ok hu).1) h

theorem keys_ofUsers {β : Type} (f : Binding → β) {n : NodeInfo} {tag : String}
    {users : List User} {bindings : List Binding} (h : ofUsers n tag users = .ok bindings) :
    (bindings.map fun b => (b.userTag, f b)).map Prod.fst = userTags tag users := by
  rw [← userTags_ofUsers h, List.map_map]
  rfl

end Binding

namespace Core

section CallEngine

variable {ε α : Type} {c c' : Core ε} {a : Activity} {call : EngineCall}
  {act : ε → ε × Except EngineError α}

theorem callEngine_ok {r : α} (h : c.callEngine a call act = (c', .ok r)) :
    act c.engine = (c'.engine, .ok r) ∧
      c' = { c with engine := c'.engine, journal := c'.journal } := by
  unfold callEngine at h
  rcases hact : act c.engine with ⟨e, err | r'⟩
  · simp [hact, mapError_error] at h
  · simp only [hact, mapError_ok, Prod.mk.injEq, Except.ok.injEq] at h
    obtain ⟨rfl, rfl⟩ := h
    exact ⟨rfl, rfl⟩

theorem callEngine_error {f : Failure} (h : c.callEngine a call act = (c', .error f)) :
    (∃ err, act c.engine = (c'.engine, .error err)) ∧
      c' = { c with engine := c'.engine, journal := c'.journal } := by
  unfold callEngine at h
  rcases hact : act c.engine with ⟨e, err | r'⟩
  · simp only [hact, mapError_error, Prod.mk.injEq] at h
    obtain ⟨rfl, -⟩ := h
    exact ⟨⟨err, rfl⟩, rfl⟩
  · simp [hact, mapError_ok] at h

end CallEngine

/--
The users `gone` have left the node and the users `come` have come in: in the engine, in the table
of ids and, for those who left, in the traffic counters. Other nodes notice nothing.
-/
structure Moved (c c' : Core LocalEngine) (tag : String) (gone come : List User) : Prop where
  engine : ∀ t, t ∈ (c'.engine.usersOf tag).keys ↔
    (t ∈ (c.engine.usersOf tag).keys ∧ t ∉ userTags tag gone) ∨ t ∈ userTags tag come
  engineElsewhere : ∀ n, n ≠ tag → c'.engine.usersOf n = c.engine.usersOf n
  serves : ∀ n, c.engine.Serves n → c'.engine.Serves n
  uids : ∀ t, t ∈ c'.uids.keys ↔
    (t ∈ c.uids.keys ∧ t ∉ userTags tag gone) ∨ t ∈ userTags tag come
  uidsElsewhere : ∀ t, t ∉ userTags tag gone → t ∉ userTags tag come →
    c'.uids.find? t = c.uids.find? t
  tally : ∀ t, (c'.traffic.counter tag).tally t =
    if t ∈ userTags tag gone then {} else (c.traffic.counter tag).tally t
  limit : c'.limit = c.limit
  now : c'.now = c.now

namespace Moved

variable {c c₁ c' : Core LocalEngine} {tag : String} {gone come : List User}

theorem refl (c : Core LocalEngine) (tag : String) : Moved c c tag [] [] where
  engine := by simp [userTags]
  engineElsewhere := fun _ _ => rfl
  serves := fun _ h => h
  uids := by simp [userTags]
  uidsElsewhere := fun _ _ _ => rfl
  tally := by simp [userTags]
  limit := rfl
  now := rfl

theorem trans (h : Moved c c₁ tag gone []) (h' : Moved c₁ c' tag [] come) :
    Moved c c' tag gone come where
  engine := fun t => by simp [h'.engine, h.engine, userTags]
  engineElsewhere := fun n hn => (h'.engineElsewhere n hn).trans (h.engineElsewhere n hn)
  serves := fun n hn => h'.serves n (h.serves n hn)
  uids := fun t => by simp [h'.uids, h.uids, userTags]
  uidsElsewhere := fun t hg hc =>
    (h'.uidsElsewhere t (by simp [userTags]) hc).trans
      (h.uidsElsewhere t hg (by simp [userTags]))
  tally := fun t => by simp [h'.tally, h.tally, userTags]
  limit := h'.limit.trans h.limit
  now := h'.now.trans h.now

end Moved

section Users

variable {c c' : Core LocalEngine} {tag : String} {info : NodeInfo} {users : List User}

theorem tally_modify_eraseMany (r : TrafficRegistry) (tag : String) (gone : List String)
    (t : String) : (TrafficRegistry.counter (r.modify tag (·.eraseMany gone)) tag).tally t =
      if t ∈ gone then {} else (r.counter tag).tally t := by
  rw [TrafficRegistry.counter, TrafficRegistry.counter, Table.find?_modify, if_pos rfl]
  cases r.find? tag with
  | none => exact (ite_self _).symm
  | some counter => exact counter.tally_eraseMany gone t

theorem delUsers_ok (h : c.delUsers tag users = (c', .ok ())) :
    Moved c c' tag users [] ∧ c'.limiters = c.limiters := by
  simp only [delUsers] at h
  split at h
  · simp at h
  next c₁ hcall =>
    obtain ⟨hact, hc₁⟩ := callEngine_ok hcall
    obtain ⟨htag, helse, hserves⟩ := LocalEngine.removeUsers_ok hact
    obtain ⟨rfl, -⟩ := Prod.mk.inj h
    rw [hc₁]
    refine ⟨⟨fun t => ?_, helse, hserves, fun t => ?_, fun t hg _ => ?_, fun t => ?_, rfl, rfl⟩, rfl⟩
    · simp only [htag, Table.mem_keys_eraseMany]
      simp [userTags]
    · simp only [Table.mem_keys_eraseMany]
      simp [userTags]
    · exact (Table.find?_eraseMany ..).trans (if_neg hg)
    · exact tally_modify_eraseMany c.traffic tag _ t

theorem delUsers_error {f : Failure} (h : c.delUsers tag users = (c', .error f)) :
    ¬c.engine.Serves tag := by
  simp only [delUsers] at h
  split at h
  next hcall =>
    obtain ⟨⟨err, hact⟩, -⟩ := callEngine_error hcall
    intro hserves
    have hok := LocalEngine.removeUsers_of_serves hserves (users.map fun u => userTag tag u.uuid)
    rw [show c.engine.removeUsers tag (users.map fun u => userTag tag u.uuid) = _ from hact] at hok
    cases hok
  · simp at h

theorem addUsers_ok {n : Nat} (h : c.addUsers tag info users = (c', .ok n)) :
    Moved c c' tag [] users ∧ c'.limiters = c.limiters := by
  unfold addUsers at h
  split at h
  · simp at h
  next bindings hbindings =>
    obtain ⟨hact, hc'⟩ := callEngine_ok h
    obtain ⟨htag, helse, hserves⟩ := LocalEngine.addUsers_ok hact
    have hkeys := Binding.keys_ofUsers id hbindings
    have hids := Binding.keys_ofUsers (·.uid) hbindings
    simp only [id] at hkeys
    rw [hc']
    refine ⟨⟨fun t => ?_, helse, hserves, fun t => ?_, fun t _ ht => ?_, fun t => ?_, rfl, rfl⟩, rfl⟩
    · simp only [htag, Table.mem_keys_insertMany, hkeys]
      simp [userTags]
    · simp only [Table.mem_keys_insertMany, hids]
      simp [userTags]
    · exact Table.find?_insertMany_of_notMem _ _ (hids ▸ ht)
    · simp [userTags]

theorem addUsers_error {f : Failure} (h : c.addUsers tag info users = (c', .error f))
    (hserves : c.engine.Serves tag) : c' = c ∧ ∃ e, Binding.ofUsers info tag users = .error e := by
  unfold addUsers at h
  split at h
  next e hbindings => exact ⟨(Prod.mk.inj h).1.symm, e, hbindings⟩
  next bindings hbindings =>
    obtain ⟨⟨err, hact⟩, -⟩ := callEngine_error h
    have hok := LocalEngine.addUsers_of_serves hserves bindings
    rw [show c.engine.addUsers tag bindings = _ from hact] at hok
    cases hok

theorem delUsers_of_serves (h : c.engine.Serves tag) (users : List User) :
    ∃ c', c.delUsers tag users = (c', .ok ()) := by
  rcases hdel : c.delUsers tag users with ⟨c', f | ⟨⟩⟩
  · exact absurd h (delUsers_error hdel)
  · exact ⟨c', rfl⟩

theorem addUsers_of_serves (h : c.engine.Serves tag) (info : NodeInfo) (users : List User) :
    (∃ c' n, c.addUsers tag info users = (c', .ok n)) ↔
      ∃ bindings, Binding.ofUsers info tag users = .ok bindings := by
  rcases hadd : c.addUsers tag info users with ⟨c', f | n⟩
  · obtain ⟨-, e, hbindings⟩ := addUsers_error hadd h
    simp [hbindings]
  · unfold addUsers at hadd
    split at hadd
    · simp at hadd
    next bindings hbindings => exact iff_of_true ⟨c', n, rfl⟩ ⟨bindings, hbindings⟩

end Users

end Core

end NodeAgent
