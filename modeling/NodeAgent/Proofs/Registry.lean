import NodeAgent.Engine
import NodeAgent.Proofs.Table

/-! What the calls of the engine inside the process do to the users of each listener. -/

namespace NodeAgent.LocalEngine

variable {e e' : LocalEngine} {tag : String}

structure Serves (e : LocalEngine) (tag : String) : Prop where
  isOpen : e.closed = false
  known : tag ∈ e.entries.keys

section UpdateUsers

variable {f : Table String Binding → Table String Binding}

theorem updateUsers_ok (h : e.updateUsers tag f = (e', .ok ())) :
    e'.usersOf tag = f (e.usersOf tag) ∧ (∀ n, n ≠ tag → e'.usersOf n = e.usersOf n) ∧
      ∀ n, e.Serves n → e'.Serves n := by
  unfold updateUsers at h
  split at h
  · simp at h
  · split at h
    · simp at h
    next entry hentry =>
      obtain ⟨rfl, -⟩ := Prod.mk.inj h
      refine ⟨?_, fun n hn => ?_, fun n hn => ⟨hn.isOpen, ?_⟩⟩
      · simp [usersOf, hentry]
      · simp [usersOf, Table.find?_insert_of_ne _ _ hn]
      · exact (Table.mem_keys_insert ..).2 (.inr hn.known)

theorem updateUsers_of_serves (h : e.Serves tag) : (e.updateUsers tag f).2 = .ok () := by
  obtain ⟨entry, hentry⟩ := (Table.mem_keys_iff ..).1 h.known
  simp [updateUsers, h.isOpen, hentry]

end UpdateUsers

section Users

variable {userTags : List String} {bindings : List Binding}

theorem removeUsers_ok (h : e.removeUsers tag userTags = (e', .ok ())) :
    e'.usersOf tag = (e.usersOf tag).eraseMany userTags ∧
      (∀ n, n ≠ tag → e'.usersOf n = e.usersOf n) ∧ ∀ n, e.Serves n → e'.Serves n :=
  updateUsers_ok h

theorem removeUsers_of_serves (h : e.Serves tag) (userTags : List String) :
    (e.removeUsers tag userTags).2 = .ok () :=
  updateUsers_of_serves h

theorem addUsers_ok {n : Nat} (h : e.addUsers tag bindings = (e', .ok n)) :
    e'.usersOf tag = (e.usersOf tag).insertMany (bindings.map fun b => (b.userTag, b)) ∧
      (∀ n, n ≠ tag → e'.usersOf n = e.usersOf n) ∧ ∀ n, e.Serves n → e'.Serves n := by
  unfold addUsers at h
  rcases hu : e.updateUsers tag (·.insertMany (bindings.map fun b => (b.userTag, b))) with
    ⟨e₁, err | u⟩
  · simp [hu, Except.map] at h
  · simp only [hu] at h
    obtain ⟨rfl, -⟩ := Prod.mk.inj h
    exact updateUsers_ok hu

theorem addUsers_of_serves (h : e.Serves tag) (bindings : List Binding) :
    (e.addUsers tag bindings).2 = .ok bindings.length := by
  have hok := updateUsers_of_serves (f := (·.insertMany (bindings.map fun b => (b.userTag, b)))) h
  unfold addUsers
  rcases hu : e.updateUsers tag (·.insertMany (bindings.map fun b => (b.userTag, b))) with ⟨e₁, r⟩
  rw [hu] at hok ⊢
  cases hok
  rfl

end Users

/-- A listener that comes in, or is replaced, has the users that the tag had before. -/
theorem addListener_ok {l : Listener} (h : e.addListener l = (e', .ok ())) :
    (∀ n, e'.usersOf n = e.usersOf n) ∧ e'.Serves l.tag := by
  unfold addListener at h
  split at h
  · simp at h
  next hopen =>
    split at h
    · simp at h
    · obtain ⟨rfl, -⟩ := Prod.mk.inj h
      refine ⟨fun n => ?_, by simpa using hopen, (Table.mem_keys_insert ..).2 (.inl rfl)⟩
      by_cases hn : n = l.tag
      · simp [usersOf, hn]
      · simp [usersOf, Table.find?_insert_of_ne _ _ hn]

end NodeAgent.LocalEngine
