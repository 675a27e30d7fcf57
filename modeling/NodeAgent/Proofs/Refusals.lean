import NodeAgent.Proofs.Operations

/-!
What a refused operation leaves behind. The engine keeps everything, and so do the stores that are
written after it has agreed. The ids of users who come are written before it is asked, and stay.
-/

namespace NodeAgent

theorem Table.find?_insertMany {κ ν : Type} [DecidableEq κ] (t : Table κ ν) (l : List (κ × ν))
    (k : κ) : (t.insertMany l).find? k = ((ofList l).find? k).or (t.find? k) := by
  induction l generalizing t with
  | nil => rfl
  | cons e l ih =>
    have hfirst : ∀ s : Table κ ν, s.insertMany (e :: l) = (s.insert e.1 e.2).insertMany l :=
      fun _ => rfl
    rw [ofList, hfirst, hfirst, ih, ih (insert ∅ e.1 e.2), Option.or_assoc, find?_insert,
      find?_insert]
    split
    · rfl
    · rfl

theorem LocalEngine.addUsers_error {e e' : LocalEngine} {tag : String} {bindings : List Binding}
    {err : EngineError} (h : e.addUsers tag bindings = (e', .error err)) : e' = e :=
  serve_error (c := .addUsers tag bindings) (by rw [serve, h]; rfl)

namespace Core

def Refuses (c : Core LocalEngine) (f : Failure) : Operation → Prop
  | .addNode tag info => (c.addNode tag info).2 = .error f
  | .delNode tag => (c.delNode tag).2 = .error f
  | .addUsers tag info users => (c.addUsers tag info users).2 = .error f
  | .delUsers tag users => (c.delUsers tag users).2 = .error f
  | .account .. | .trafficSlice .. => False

def Operation.ids : Operation → List (String × Int)
  | addUsers tag info users =>
    if (Binding.ofUsers info tag users).isOk then users.map fun u => (userTag tag u.uuid, u.id)
    else []
  | _ => []

variable {c c' : Core LocalEngine} {f : Failure} {op : Operation} {tag : String}
  {info : NodeInfo} {users : List User}

theorem ids_addUsers {bindings : List Binding} (h : Binding.ofUsers info tag users = .ok bindings) :
    (Operation.addUsers tag info users).ids = bindings.map fun b => (b.userTag, b.uid) := by
  have hids : bindings.map (fun b => (b.userTag, b.uid)) =
      users.map fun u => (userTag tag u.uuid, u.id) :=
    map_eq_of_mapM_ok (fun u b hb => by rw [(Binding.ofUser_ok hb).1, (Binding.ofUser_ok hb).2]) h
  rw [Operation.ids, h, hids]
  rfl

theorem delNode_refused (h : c.delNode tag = (c', .error f)) :
    c' = { c with journal := c'.journal } := by
  unfold delNode at h
  split at h
  next hcall =>
    obtain ⟨rfl, -⟩ := Prod.mk.inj h
    exact callEngine_refused (.removeListener tag) (fun _ => rfl) hcall
  · cases (Prod.mk.inj h).2

theorem delUsers_refused (h : c.delUsers tag users = (c', .error f)) :
    c' = { c with journal := c'.journal } := by
  simp only [delUsers] at h
  split at h
  next hcall =>
    obtain ⟨rfl, -⟩ := Prod.mk.inj h
    exact callEngine_refused (.removeUsers tag (userTags tag users)) (fun _ => rfl) hcall
  · cases (Prod.mk.inj h).2

theorem addUsers_refused (h : c.addUsers tag info users = (c', .error f)) :
    c' =
      { c with
        uids := c.uids.insertMany (Operation.addUsers tag info users).ids
        journal := c'.journal } := by
  unfold addUsers at h
  split at h
  next e hbindings =>
    obtain ⟨rfl, -⟩ := Prod.mk.inj h
    rw [Operation.ids, hbindings]
    rfl
  next bindings hbindings =>
    obtain ⟨⟨err, hact⟩, hc'⟩ := callEngine_error h
    have hsame := LocalEngine.addUsers_error hact
    rw [ids_addUsers hbindings, hc', hsame]

theorem perform_refused (h : c.Refuses f op) :
    c.perform op =
      { c with uids := c.uids.insertMany op.ids, journal := (c.perform op).journal } := by
  cases op with
  | addNode tag info => exact addNode_error (Prod.ext rfl h)
  | delNode tag => exact delNode_refused (Prod.ext rfl h)
  | addUsers tag info users => exact addUsers_refused (Prod.ext rfl h)
  | delUsers tag users => exact delUsers_refused (Prod.ext rfl h)
  | account => exact h.elim
  | trafficSlice => exact h.elim

theorem ids_of_serves (h : c.Refuses f op) (hserves : c.engine.Serves op.tag) : op.ids = [] := by
  cases op with
  | addUsers tag info users =>
    obtain ⟨-, e, hbindings⟩ := addUsers_error (Prod.ext rfl h) hserves
    rw [Operation.ids, hbindings]
    rfl
  | _ => rfl

/--
A refused operation leaves everything in its place, in the engine and beside it, but for the ids it
has entered by then. It enters some only where the node has no listener, and leaves the table as it
was exactly if each of them was there before.
-/
theorem refused_keeps_iff (h : c.Refuses f op) :
    let c' := c.perform op
    let entered := Table.ofList op.ids
    c' = { c with uids := c'.uids, journal := c'.journal } ∧
      (∀ t, c'.uids.find? t = (entered.find? t).or (c.uids.find? t)) ∧
      (c.engine.Serves op.tag → c'.uids = c.uids) ∧
      ((∀ t, c'.uids.find? t = c.uids.find? t) ↔
        ∀ t id, entered.find? t = some id → c.uids.find? t = some id) := by
  intro c' entered
  have hrefused : c' = { c with uids := c.uids.insertMany op.ids, journal := c'.journal } :=
    perform_refused h
  have huids : c'.uids = c.uids.insertMany op.ids := by rw [hrefused]
  have hfind : ∀ t, c'.uids.find? t = (entered.find? t).or (c.uids.find? t) := fun t => by
    rw [huids, Table.find?_insertMany]
  refine ⟨?_, hfind, fun hserves => ?_, ?_⟩
  · rw [huids]
    exact hrefused
  · rw [huids, ids_of_serves h hserves]
    rfl
  · constructor
    · intro hsame t id ht
      rw [← hsame t, hfind t, ht, Option.some_or]
    · intro hknown t
      rw [hfind t]
      cases ht : entered.find? t with
      | none => exact Option.none_or
      | some id => rw [Option.some_or, hknown t id ht]

section Unserved

def vmessNode : NodeInfo := { id := 1, kind := .vmess }

def bobUnserved : Core LocalEngine where
  engine := {}
  uids := Table.ofList [("node|bob", 8)]

theorem bob_refused_again :
    let op := Operation.addUsers "node" vmessNode [⟨8, "bob", 0, 0⟩]
    bobUnserved.Refuses ⟨[.addingUsers "node"], .engine (.listenerNotFound "node")⟩ op ∧
      ∀ t, (bobUnserved.perform op).uids.find? t = bobUnserved.uids.find? t := by
  intro op
  have hrefuses :
      bobUnserved.Refuses ⟨[.addingUsers "node"], .engine (.listenerNotFound "node")⟩ op := rfl
  obtain ⟨-, -, -, hkeeps⟩ := refused_keeps_iff hrefuses
  exact ⟨hrefuses, hkeeps.2 fun t id ht => ht⟩

theorem bob_entered_though_refused :
    let c : Core LocalEngine := { engine := {} }
    let op := Operation.addUsers "node" vmessNode [⟨8, "bob", 0, 0⟩]
    c.Refuses ⟨[.addingUsers "node"], .engine (.listenerNotFound "node")⟩ op ∧
      c.uids.find? "node|bob" = none ∧ (c.perform op).uids.find? "node|bob" = some 8 :=
  ⟨rfl, rfl, by decide⟩

end Unserved

end Core

end NodeAgent
