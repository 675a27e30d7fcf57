import NodeAgent.Proofs.Neighbours
import NodeAgent.Proofs.Registration

/-!
The operations of a core in any order, those that fail included. An operation asks the engine about
its own node only, and leaves alone whatever the core has of a node whose users are told apart.
-/

namespace NodeAgent

namespace LocalEngine

variable {e e' : LocalEngine} {c : Call} {tag t : String}

def Call.tag? : Call → Option String
  | .addListener l => some l.tag
  | .removeListener tag | .addUsers tag _ | .removeUsers tag _ => some tag
  | .close => none

theorem updateUsers_closed (e : LocalEngine) (tag : String)
    (f : Table String Binding → Table String Binding) :
    (e.updateUsers tag f).1.closed = e.closed := by
  unfold updateUsers
  split
  · rfl
  · split <;> rfl

theorem addUsers_fst (e : LocalEngine) (tag : String) (users : List Binding) :
    (e.addUsers tag users).1 =
      (e.updateUsers tag (·.insertMany (users.map fun b => (b.userTag, b)))).1 := rfl

theorem serve_closed (h : c.tag? = some tag) : (e.serve c).1.closed = e.closed := by
  cases c with
  | addListener l =>
    rw [serve, addListener]
    split
    · rfl
    · split <;> rfl
  | removeListener t =>
    rw [serve, removeListener]
    split <;> rfl
  | addUsers t users =>
    change (e.addUsers t users).1.closed = e.closed
    rw [addUsers_fst, updateUsers_closed]
  | removeUsers t userTags => exact e.updateUsers_closed t _
  | close => cases h

theorem serve_elsewhere (h : c.tag? = some tag) (ht : t ≠ tag) :
    (e.serve c).1.entries.find? t = e.entries.find? t := by
  cases c with
  | addListener l =>
    cases h
    rw [serve, addListener]
    split
    · rfl
    · split
      · rfl
      · exact Table.find?_insert_of_ne _ _ ht
  | removeListener t' =>
    cases h
    exact e.removeListener_elsewhere ht
  | addUsers t' users =>
    cases h
    change (e.addUsers tag users).1.entries.find? t = _
    rw [addUsers_fst, e.updateUsers_elsewhere ht]
  | removeUsers t' userTags =>
    cases h
    exact e.updateUsers_elsewhere ht _
  | close => cases h

theorem removeListener_ok (h : e.removeListener tag = (e', .ok ())) : e'.usersOf tag = ∅ := by
  unfold removeListener at h
  split at h
  · cases (Prod.mk.inj h).2
  · obtain ⟨rfl, -⟩ := Prod.mk.inj h
    rw [usersOf, Table.find?_erase, if_pos rfl]
    rfl

theorem usersOf_of_not_serves (hopen : e.closed = false) (h : ¬e.Serves tag) :
    e.usersOf tag = ∅ := by
  have hnone : e.entries.find? tag = none :=
    (Table.find?_eq_none_iff ..).2 fun hknown => h ⟨hopen, hknown⟩
  rw [usersOf, hnone]
  rfl

theorem updateUsers_of_not_serves (h : ¬e.Serves tag)
    (f : Table String Binding → Table String Binding) : (e.updateUsers tag f).1 = e := by
  unfold updateUsers
  split
  · rfl
  next hopen =>
    have hnone : e.entries.find? tag = none :=
      (Table.find?_eq_none_iff ..).2 fun hknown => h ⟨by simpa using hopen, hknown⟩
    rw [hnone]

theorem addUsers_of_not_serves (h : ¬e.Serves tag) (bindings : List Binding) :
    (e.addUsers tag bindings).1 = e := by
  rw [addUsers_fst, updateUsers_of_not_serves h]

end LocalEngine

namespace Core

theorem callEngine_refused {c c' : Core LocalEngine} {a : Activity} {asked : EngineCall}
    {act : LocalEngine → LocalEngine × Except EngineError Unit} {f : Failure}
    (call : LocalEngine.Call) (hcall : ∀ e, act e = e.serve call)
    (h : c.callEngine a asked act = (c', .error f)) : c' = { c with journal := c'.journal } := by
  obtain ⟨⟨err, hact⟩, hc'⟩ := callEngine_error h
  have hsame := LocalEngine.serve_error ((hcall c.engine).symm.trans hact)
  rw [hc', hsame]

inductive Operation
  | addNode (tag : String) (info : NodeInfo)
  | delNode (tag : String)
  | addUsers (tag : String) (info : NodeInfo) (users : List User)
  | delUsers (tag : String) (users : List User)
  | account (tag user : String) (upload download : UInt64)
  | trafficSlice (tag : String) (threshold : UInt64)

def Operation.tag : Operation → String
  | addNode tag _ | delNode tag | addUsers tag .. | delUsers tag _ | account tag .. |
    trafficSlice tag _ => tag

/-- An operation that fails may have done a part of its work. -/
def perform (c : Core LocalEngine) : Operation → Core LocalEngine
  | .addNode tag info => (c.addNode tag info).1
  | .delNode tag => (c.delNode tag).1
  | .addUsers tag info users => (c.addUsers tag info users).1
  | .delUsers tag users => (c.delUsers tag users).1
  | .account tag user upload download => c.account tag user upload download
  | .trafficSlice tag threshold => (c.trafficSlice tag threshold).1

def run : Core LocalEngine → List Operation → Core LocalEngine
  | c, [] => c
  | c, op :: ops => (c.perform op).run ops

theorem run_append (c : Core LocalEngine) (ops ops' : List Operation) :
    c.run (ops ++ ops') = (c.run ops).run ops' := by
  induction ops generalizing c with
  | nil => rfl
  | cons op ops ih => exact ih (c.perform op)

theorem run_concat (c : Core LocalEngine) (ops : List Operation) (op : Operation) :
    c.run (ops ++ [op]) = (c.run ops).perform op :=
  c.run_append ops [op]

variable (c : Core LocalEngine) {tag : String}

theorem trafficSlice_frame (tag : String) (threshold : UInt64) :
    (c.trafficSlice tag threshold).1 =
      { c with traffic := (c.trafficSlice tag threshold).1.traffic } := by
  unfold trafficSlice
  split
  · rfl
  · split <;> rfl

theorem delNode_ends (tag : String) :
    ((c.delNode tag).1.engine = c.engine ∧ (c.delNode tag).1.uids = c.uids ∧
      (c.delNode tag).1.traffic = c.traffic) ∨
    ((c.delNode tag).1.engine.usersOf tag = ∅ ∧
      (c.delNode tag).1.traffic = c.traffic.erase tag) := by
  unfold delNode
  split
  next c₁ f hcall =>
    have hc₁ := callEngine_refused (.removeListener tag) (fun _ => rfl) hcall
    exact .inl ⟨by rw [hc₁], by rw [hc₁], by rw [hc₁]⟩
  next c₁ hcall =>
    obtain ⟨hact, hc₁⟩ := callEngine_ok hcall
    exact .inr ⟨LocalEngine.removeListener_ok hact, by rw [hc₁]⟩

theorem delUsers_ends (tag : String) (users : List User) :
    ((c.delUsers tag users).1.engine = c.engine ∧ (c.delUsers tag users).1.uids = c.uids ∧
      (c.delUsers tag users).1.traffic = c.traffic) ∨
    ((c.delUsers tag users).1.engine.usersOf tag =
        (c.engine.usersOf tag).eraseMany (userTags tag users) ∧
      (c.delUsers tag users).1.uids = c.uids.eraseMany (userTags tag users) ∧
      (c.delUsers tag users).1.traffic =
        c.traffic.modify tag (·.eraseMany (userTags tag users))) := by
  simp only [delUsers]
  split
  next c₁ f hcall =>
    have hc₁ := callEngine_refused (.removeUsers tag (userTags tag users)) (fun _ => rfl) hcall
    exact .inl ⟨by rw [hc₁], by rw [hc₁], by rw [hc₁]⟩
  next c₁ hcall =>
    obtain ⟨hact, hc₁⟩ := callEngine_ok hcall
    refine .inr ⟨(LocalEngine.removeUsers_ok hact).1, ?_, ?_⟩
    · rw [hc₁]
      rfl
    · rw [hc₁]
      rfl

theorem perform_engine (op : Operation) : (c.perform op).engine = c.engine ∨
    ∃ call, call.tag? = some op.tag ∧ (c.perform op).engine = (c.engine.serve call).1 := by
  cases op with
  | addNode tag info =>
    rw [perform, addNode]
    split
    · exact .inl rfl
    next l hl =>
      obtain ⟨htag, -, -⟩ := Listener.build_ok hl
      exact .inr ⟨.addListener l, congrArg some htag, rfl⟩
  | delNode tag =>
    refine .inr ⟨.removeListener tag, rfl, ?_⟩
    rw [perform, delNode]
    split <;> next hcall => exact (congrArg (·.1.engine) hcall).symm
  | addUsers tag info users =>
    rw [perform, addUsers]
    split
    · exact .inl rfl
    next bindings _ => exact .inr ⟨.addUsers tag bindings, rfl, rfl⟩
  | delUsers tag users =>
    refine .inr ⟨.removeUsers tag (userTags tag users), rfl, ?_⟩
    simp only [perform, delUsers]
    split <;> next hcall => exact (congrArg (·.1.engine) hcall).symm
  | account tag user upload download => exact .inl rfl
  | trafficSlice tag threshold =>
    rw [perform, trafficSlice_frame]
    exact .inl rfl

theorem perform_closed (op : Operation) :
    (c.perform op).engine.closed = c.engine.closed := by
  rcases c.perform_engine op with hsame | ⟨call, hcall, hserved⟩
  · rw [hsame]
  · rw [hserved, LocalEngine.serve_closed hcall]

theorem perform_elsewhere (op : Operation) (h : tag ≠ op.tag) :
    (c.perform op).engine.entries.find? tag = c.engine.entries.find? tag := by
  rcases c.perform_engine op with hsame | ⟨call, hcall, hserved⟩
  · rw [hsame]
  · rw [hserved, LocalEngine.serve_elsewhere hcall h]

theorem perform_leavesAlone (op : Operation) (h : Foreign tag op.tag) :
    LeavesAlone c (c.perform op) tag := by
  cases op with
  | addNode other info =>
    have hentry := c.perform_elsewhere (.addNode other info) h.ne
    have hframe : (c.addNode other info).1.limiters = c.limiters ∧
        (c.addNode other info).1.traffic = c.traffic ∧ (c.addNode other info).1.uids = c.uids := by
      rw [addNode]
      split <;> exact ⟨rfl, rfl, rfl⟩
    obtain ⟨hlimiters, htraffic, huids⟩ := hframe
    exact ⟨hentry, by rw [perform, hlimiters], by rw [perform, htraffic],
      fun _ _ => by rw [perform, huids]⟩
  | delNode other => exact delNode_leavesAlone h
  | addUsers other info users => exact addUsers_leavesAlone h info users
  | delUsers other users => exact delUsers_leavesAlone h users
  | account other user upload download => exact account_leavesAlone h.ne user upload download
  | trafficSlice other threshold => exact trafficSlice_leavesAlone h.ne threshold

end Core

end NodeAgent
