import NodeAgent.Proofs.Enlisting

/-!
What nodes do beside one another in a core. Whatever another node does, be it that it goes on or
that it is closed, it leaves alone what a core has of this one.
-/

namespace NodeAgent

theorem exists_of_isUserOf {node t : String} (h : Core.isUserOf node t = true) :
    ∃ uuid, t = userTag node uuid := by
  obtain ⟨rest, hrest⟩ := List.isPrefixOf_iff_prefix.1 h
  refine ⟨String.ofList rest, String.toList_inj.1 ?_⟩
  rw [← hrest]
  simp [userTag, String.toList_append]

def Foreign (tag other : String) : Prop := ∀ uuid, Core.isUserOf tag (userTag other uuid) = false

theorem Foreign.ne {tag other : String} (h : Foreign tag other) : tag ≠ other := by
  rintro rfl
  exact absurd (isUserOf_userTag tag "") (by simp [h ""])

theorem Foreign.isUserOf_eq_false {tag other t : String} (h : Foreign tag other)
    (ht : Core.isUserOf tag t = true) : Core.isUserOf other t = false := by
  refine Bool.eq_false_iff.2 fun hother => ?_
  obtain ⟨uuid, rfl⟩ := exists_of_isUserOf hother
  rw [h uuid] at ht
  cases ht

theorem Foreign.notMem {tag other t : String} (h : Foreign tag other)
    (ht : Core.isUserOf tag t = true) (users : List User) : t ∉ userTags other users := by
  intro hmem
  obtain ⟨u, -, rfl⟩ := mem_userTags.1 hmem
  exact absurd ht (by simp [h u.uuid])

theorem foreign_nodeTag {host : String} {k k' : Kind} {i i' : Int}
    (h : nodeTag host k i ≠ nodeTag host k' i') :
    Foreign (nodeTag host k i) (nodeTag host k' i') :=
  fun _ => Bool.eq_false_iff.2 fun huser => h (nodeTag_eq_of_isUserOf huser)

theorem LocalEngine.updateUsers_elsewhere (e : LocalEngine) {tag other : String} (h : tag ≠ other)
    (f : Table String Binding → Table String Binding) :
    (e.updateUsers other f).1.entries.find? tag = e.entries.find? tag := by
  unfold updateUsers
  split
  · rfl
  · split
    · rfl
    · exact Table.find?_insert_of_ne _ _ h

theorem LocalEngine.removeListener_elsewhere (e : LocalEngine) {tag other : String}
    (h : tag ≠ other) : (e.removeListener other).1.entries.find? tag = e.entries.find? tag := by
  unfold removeListener
  split
  · rfl
  · exact (Table.find?_erase ..).trans (if_neg h)

namespace Core

structure LeavesAlone (c c' : Core LocalEngine) (tag : String) : Prop where
  entry : c'.engine.entries.find? tag = c.engine.entries.find? tag
  limiter : c'.limiters.find? tag = c.limiters.find? tag
  counter : c'.traffic.find? tag = c.traffic.find? tag
  uids : ∀ t, isUserOf tag t = true → c'.uids.find? t = c.uids.find? t

variable {c c₁ c' : Core LocalEngine} {tag other : String}

theorem LeavesAlone.refl (c : Core LocalEngine) (tag : String) : LeavesAlone c c tag :=
  ⟨rfl, rfl, rfl, fun _ _ => rfl⟩

theorem LeavesAlone.trans (h : LeavesAlone c c₁ tag) (h' : LeavesAlone c₁ c' tag) :
    LeavesAlone c c' tag :=
  ⟨h'.entry.trans h.entry, h'.limiter.trans h.limiter, h'.counter.trans h.counter,
    fun t ht => (h'.uids t ht).trans (h.uids t ht)⟩

theorem account_leavesAlone (h : tag ≠ other) (user : String) (upload download : UInt64) :
    LeavesAlone c (c.account other user upload download) tag :=
  ⟨rfl, rfl, Table.find?_insert_of_ne _ _ h, fun _ _ => rfl⟩

theorem setAlive_leavesAlone (h : tag ≠ other) (alive : AliveCounts) :
    LeavesAlone c (c.setAlive other alive) tag :=
  ⟨rfl, (Table.find?_modify ..).trans (if_neg h), rfl, fun _ _ => rfl⟩

theorem onlineDevices_leavesAlone (h : tag ≠ other) :
    LeavesAlone c (c.onlineDevices other).1 tag := by
  unfold onlineDevices
  split
  · exact .refl c tag
  · exact ⟨rfl, Table.find?_insert_of_ne _ _ h, rfl, fun _ _ => rfl⟩

theorem trafficSlice_leavesAlone (h : tag ≠ other) (threshold : UInt64) :
    LeavesAlone c (c.trafficSlice other threshold).1 tag := by
  unfold trafficSlice
  split
  · exact .refl c tag
  · split <;> exact ⟨rfl, rfl, Table.find?_insert_of_ne _ _ h, fun _ _ => rfl⟩

theorem updateLimiter_leavesAlone (h : tag ≠ other) (d : UserDiff) :
    LeavesAlone c (c.updateLimiter other d).1 tag := by
  unfold updateLimiter
  split
  · exact .refl c tag
  · split
    · exact .refl c tag
    · exact ⟨rfl, Table.find?_insert_of_ne _ _ h, rfl, fun _ _ => rfl⟩

theorem LeavesAlone.of_callEngine {α : Type} {a : Activity} {call : EngineCall}
    {act : LocalEngine → LocalEngine × Except EngineError α} {r : Except Failure α}
    (hcall : c.callEngine a call act = (c', r))
    (h : (act c.engine).1.entries.find? tag = c.engine.entries.find? tag) :
    LeavesAlone c c' tag := by
  obtain ⟨hc', -⟩ := Prod.mk.inj hcall
  rw [← hc']
  exact ⟨h, rfl, rfl, fun _ _ => rfl⟩

theorem delUsers_leavesAlone (h : Foreign tag other) (users : List User) :
    LeavesAlone c (c.delUsers other users).1 tag := by
  have hentry := c.engine.updateUsers_elsewhere h.ne
    (·.eraseMany (users.map fun u => userTag other u.uuid))
  simp only [delUsers]
  split
  next c₁ f hcall => exact .of_callEngine hcall hentry
  next c₁ hcall =>
    refine (LeavesAlone.of_callEngine hcall hentry).trans ⟨rfl, rfl, ?_, fun t ht => ?_⟩
    · exact (Table.find?_modify ..).trans (if_neg h.ne)
    · exact (Table.find?_eraseMany ..).trans (if_neg (h.notMem ht users))

theorem addUsers_leavesAlone (h : Foreign tag other) (info : NodeInfo) (users : List User) :
    LeavesAlone c (c.addUsers other info users).1 tag := by
  unfold addUsers
  split
  · exact .refl c tag
  next bindings hbindings =>
    have hentry := c.engine.updateUsers_elsewhere h.ne
      (·.insertMany (bindings.map fun b => (b.userTag, b)))
    refine ⟨hentry, rfl, rfl, fun t ht => Table.find?_insertMany_of_notMem _ _ ?_⟩
    rw [Binding.keys_ofUsers (·.uid) hbindings]
    exact h.notMem ht users

theorem delNode_leavesAlone (h : Foreign tag other) : LeavesAlone c (c.delNode other).1 tag := by
  have hentry := c.engine.removeListener_elsewhere h.ne
  unfold delNode
  split
  next c₁ f hcall => exact .of_callEngine hcall hentry
  next c₁ hcall =>
    refine (LeavesAlone.of_callEngine hcall hentry).trans ⟨rfl, rfl, ?_, fun t ht => ?_⟩
    · exact (Table.find?_erase ..).trans (if_neg h.ne)
    · refine (Table.find?_filter ..).trans ?_
      rw [h.isUserOf_eq_false ht]
      cases c₁.uids.find? t <;> rfl

theorem close_leavesAlone (h : c.engine.entries.find? tag = none) : LeavesAlone c c.close.1 tag :=
  ⟨h.symm, rfl, rfl, fun _ _ => rfl⟩

end Core

namespace Session

variable {s : Session} {c : Core LocalEngine} {tag : String}

theorem stepsAfterTraffic_leavesAlone (h : tag ≠ s.tag) (l : List UserTraffic) :
    Core.LeavesAlone c (s.stepsAfterTraffic c l).core tag := by
  have hdevices := Core.onlineDevices_leavesAlone (c := c) h
  unfold stepsAfterTraffic
  split
  next heq => rwa [heq] at hdevices
  next heq => rwa [heq] at hdevices

theorem beginReport_leavesAlone (h : tag ≠ s.tag) :
    Core.LeavesAlone c (s.beginReport c).core tag := by
  have hslice := Core.trafficSlice_leavesAlone (c := c) h s.info.reportThreshold
  unfold beginReport
  split
  next heq => rwa [heq] at hslice
  next heq =>
    rw [heq] at hslice
    exact hslice.trans (stepsAfterTraffic_leavesAlone h [])
  next heq => rwa [heq] at hslice

theorem applyDiff_leavesAlone (h : Foreign tag s.tag) (d : UserDiff) :
    Core.LeavesAlone c (s.applyDiff c d).1 tag := by
  have hdeparted : Core.LeavesAlone c
      (if d.deleted.isEmpty then (c, .ok ()) else c.delUsers s.tag d.deleted).1 tag := by
    split
    · exact .refl c tag
    · exact Core.delUsers_leavesAlone h d.deleted
  unfold applyDiff
  split
  next c₁ f hdel => rwa [hdel] at hdeparted
  next c₁ hdel =>
    rw [hdel] at hdeparted
    have harrived : Core.LeavesAlone c₁
        (if d.added.isEmpty then (c₁, .ok 0) else c₁.addUsers s.tag s.info d.added).1 tag := by
      split
      · exact .refl c₁ tag
      · exact Core.addUsers_leavesAlone h s.info d.added
    split
    next c₂ f hadd =>
      rw [hadd] at harrived
      exact hdeparted.trans harrived
    next c₂ n hadd =>
      rw [hadd] at harrived
      exact (hdeparted.trans harrived).trans (Core.updateLimiter_leavesAlone h.ne d)

theorem afterUsers_leavesAlone (h : Foreign tag s.tag)
    (a : Except PanelError (Option (List User))) :
    Core.LeavesAlone c (s.afterUsers c a).core tag := by
  rcases a with err | _ | users
  · exact .refl c tag
  · exact .refl c tag
  · have hdiff : Core.LeavesAlone c (if (UserDiff.between s.users users).isEmpty then (c, .ok ())
        else s.applyDiff c (UserDiff.between s.users users)).1 tag := by
      split
      · exact .refl c tag
      · exact applyDiff_leavesAlone h _
    simp only [afterUsers]
    split
    next heq => rwa [heq] at hdiff
    next heq => rwa [heq] at hdiff
    next heq => rwa [heq] at hdiff

theorem close_leavesAlone (h : Foreign tag s.tag) : Core.LeavesAlone c (s.close c).1 tag := by
  have hlimiter : Core.LeavesAlone c (c.deleteLimiter s.tag) tag :=
    ⟨rfl, (Table.find?_erase ..).trans (if_neg h.ne), rfl, fun _ _ => rfl⟩
  exact hlimiter.trans (Core.delNode_leavesAlone h)

end Session

theorem RunningNode.step_leavesAlone {y : RunningNode LocalEngine} {tag : String}
    (h : Foreign tag y.session.tag) {e : NodeEvent}
    (uncounted : ∀ user upload download, e ≠ .account tag user upload download) :
    Core.LeavesAlone y.core (y.step e).core tag := by
  cases e with
  | account node user upload download =>
    refine Core.account_leavesAlone ?_ user upload download
    rintro rfl
    exact uncounted user upload download rfl
  | elapse => exact ⟨rfl, rfl, rfl, fun _ _ => rfl⟩
  | note => exact ⟨rfl, rfl, rfl, fun _ _ => rfl⟩
  | beginSync =>
    simp only [step]
    split <;> exact .refl _ _
  | alive a =>
    simp only [step]
    split
    · exact Core.setAlive_leavesAlone h.ne _
    · exact .refl _ _
  | users a =>
    simp only [step]
    split
    · exact Session.afterUsers_leavesAlone h a
    · exact .refl _ _
  | invalidated =>
    simp only [step]
    split <;> exact .refl _ _
  | beginReport =>
    simp only [step]
    split
    · exact Session.beginReport_leavesAlone h.ne
    · exact .refl _ _
  | posted a =>
    simp only [step]
    split
    · exact Session.stepsAfterTraffic_leavesAlone h.ne _
    · exact .refl _ _
    · exact .refl _ _
    · exact .refl _ _

end NodeAgent
