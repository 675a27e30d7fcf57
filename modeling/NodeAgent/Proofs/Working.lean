import NodeAgent.Agenda
import NodeAgent.Proofs.Posts
import NodeAgent.Proofs.Registration
import NodeAgent.Proofs.Shifts

/-!
What every turn leaves as it is, at whatever node and however it ends: where certificates are kept, an
engine that was closed, and who the nodes and the polls of an instance are.
-/

namespace NodeAgent

namespace Core

structure Works (c c' : Core LocalEngine) : Prop where
  cert : c'.cert = c.cert
  shut : c.engine.closed = true → c'.engine = c.engine

namespace Works

variable {c c₁ c' : Core LocalEngine}

theorem refl (c : Core LocalEngine) : Works c c := ⟨rfl, fun _ => rfl⟩

theorem trans (h : Works c c₁) (h' : Works c₁ c') : Works c c' where
  cert := h'.cert.trans h.cert
  shut := by
    intro hclosed
    have hfirst := h.shut hclosed
    exact (h'.shut (hfirst ▸ hclosed)).trans hfirst

theorem callEngine {α : Type} {a : Activity} {call : EngineCall}
    {act : LocalEngine → LocalEngine × Except EngineError α}
    (hact : c.engine.closed = true → (act c.engine).1 = c.engine) :
    c.Works (c.callEngine a call act).1 := ⟨rfl, hact⟩

end Works

variable (c : Core LocalEngine) (tag : String)

theorem works_addNode (info : NodeInfo) : c.Works (c.addNode tag info).1 := by
  unfold addNode
  split
  · exact .refl c
  next l _ =>
    refine .callEngine fun hclosed => ?_
    have hrefused := LocalEngine.serve_of_closed (c := .addListener l) hclosed nofun
    exact congrArg Prod.fst hrefused

theorem works_delNode : c.Works (c.delNode tag).1 := by
  have hcall : c.Works (c.callEngine (.removingListener tag) (.removeListener tag)
      (Engine.removeListener · tag)).1 := by
    refine .callEngine fun hclosed => ?_
    have hrefused := LocalEngine.serve_of_closed (c := .removeListener tag) hclosed nofun
    exact congrArg Prod.fst hrefused
  unfold delNode
  split
  next h => rwa [h] at hcall
  next h =>
    rw [h] at hcall
    exact hcall.trans ⟨rfl, fun _ => rfl⟩

theorem works_addUsers (info : NodeInfo) (users : List User) :
    c.Works (c.addUsers tag info users).1 := by
  unfold addUsers
  split
  · exact .refl c
  next bindings _ =>
    have hids : c.Works { c with
        uids := c.uids.insertMany (bindings.map fun b => (b.userTag, b.uid)) } :=
      ⟨rfl, fun _ => rfl⟩
    refine hids.trans (.callEngine fun hclosed => ?_)
    have hrefused := LocalEngine.serve_of_closed (c := .addUsers tag bindings) hclosed nofun
    exact congrArg Prod.fst hrefused

theorem works_delUsers (users : List User) : c.Works (c.delUsers tag users).1 := by
  have hcall : c.Works (c.callEngine (.removingUsers tag)
      (.removeUsers tag (users.map fun u => userTag tag u.uuid))
      (Engine.removeUsers · tag (users.map fun u => userTag tag u.uuid))).1 := by
    refine .callEngine fun hclosed => ?_
    have hrefused := LocalEngine.serve_of_closed
      (c := .removeUsers tag (users.map fun u => userTag tag u.uuid)) hclosed nofun
    exact congrArg Prod.fst hrefused
  simp only [delUsers]
  split
  next h => rwa [h] at hcall
  next h =>
    rw [h] at hcall
    exact hcall.trans ⟨rfl, fun _ => rfl⟩

theorem works_addLimiter (users : List User) (alive : AliveCounts) :
    c.Works (c.addLimiter tag users alive).1 := by
  unfold addLimiter
  split <;> exact ⟨rfl, fun _ => rfl⟩

theorem works_updateLimiter (d : UserDiff) : c.Works (c.updateLimiter tag d).1 := by
  unfold updateLimiter
  split
  · exact .refl c
  · split <;> exact ⟨rfl, fun _ => rfl⟩

theorem works_onlineDevices : c.Works (c.onlineDevices tag).1 := by
  unfold onlineDevices
  split <;> exact ⟨rfl, fun _ => rfl⟩

theorem works_trafficSlice (threshold : UInt64) : c.Works (c.trafficSlice tag threshold).1 := by
  unfold trafficSlice
  split
  · exact .refl c
  · split <;> exact ⟨rfl, fun _ => rfl⟩

end Core

namespace Session

variable (s : Session) (c : Core LocalEngine)

theorem works_applyDiff (d : UserDiff) : c.Works (s.applyDiff c d).1 := by
  have hdeparted :
      c.Works (if d.deleted.isEmpty then (c, .ok ()) else c.delUsers s.tag d.deleted).1 := by
    split
    · exact .refl c
    · exact c.works_delUsers s.tag d.deleted
  unfold applyDiff
  split
  next hdel => rwa [hdel] at hdeparted
  next c₁ hdel =>
    rw [hdel] at hdeparted
    have harrived :
        c₁.Works (if d.added.isEmpty then (c₁, .ok 0) else c₁.addUsers s.tag s.info d.added).1 := by
      split
      · exact .refl c₁
      · exact c₁.works_addUsers s.tag s.info d.added
    split
    next hadd =>
      rw [hadd] at harrived
      exact hdeparted.trans harrived
    next c₂ n hadd =>
      rw [hadd] at harrived
      exact (hdeparted.trans harrived).trans (c₂.works_updateLimiter s.tag d)

theorem works_stepsAfterTraffic (l : List UserTraffic) :
    c.Works (s.stepsAfterTraffic c l).core := by
  have honline := c.works_onlineDevices s.tag
  unfold stepsAfterTraffic
  split
  next h => rwa [h] at honline
  next h => rwa [h] at honline

theorem works_beginReport : c.Works (s.beginReport c).core := by
  have hslice := c.works_trafficSlice s.tag s.info.reportThreshold
  unfold beginReport
  split
  next h => rwa [h] at hslice
  next c₁ h =>
    rw [h] at hslice
    exact hslice.trans (s.works_stepsAfterTraffic c₁ [])
  next h => rwa [h] at hslice

theorem works_afterUsers (a : Except PanelError (Option (List User))) :
    c.Works (s.afterUsers c a).core := by
  rcases a with e | _ | users
  · exact .refl c
  · exact .refl c
  · have hdiff : c.Works (if (UserDiff.between s.users users).isEmpty then (c, .ok ())
        else s.applyDiff c (UserDiff.between s.users users)).1 := by
      split
      · exact .refl c
      · exact s.works_applyDiff c _
    simp only [afterUsers]
    split
    next heq => rwa [heq] at hdiff
    next heq => rwa [heq] at hdiff
    next heq => rwa [heq] at hdiff

theorem works_resume (stage : Stage) (a : stage.request.Answer) :
    c.Works (s.resume c stage a).core := by
  cases stage with
  | firstUsers =>
    rw [resume]
    obtain ⟨f, hf⟩ | ⟨users, husers⟩ := s.afterFirstUsers_eq c a
    · rw [hf]
      exact .refl c
    · rw [husers]
      exact .refl c
  | firstAlive users =>
    have hlimiter := c.works_addLimiter s.tag users (aliveOr a)
    rw [resume, afterFirstAlive]
    split
    next h => rwa [h] at hlimiter
    next h => rwa [h] at hlimiter
  | alive => exact ⟨rfl, fun _ => rfl⟩
  | users => exact s.works_afterUsers c a
  | invalidate => exact .refl c
  | traffic l => exact s.works_stepsAfterTraffic c l
  | online => exact .refl c
  | status => exact .refl c

theorem works_registerUsers (users : List User) : c.Works (s.registerUsers c users).1 := by
  have hnode := c.works_addNode s.tag s.info
  unfold registerUsers
  split
  next h => rwa [h] at hnode
  next c₁ h =>
    rw [h] at hnode
    have husers := c₁.works_addUsers s.tag s.info users
    split
    next h => exact hnode.trans (by rwa [h] at husers)
    next c₂ _ h =>
      rw [h] at husers
      exact (hnode.trans husers).trans (c₂.works_delNode s.tag)

end Session

namespace Place

variable {χ π : Type} [Shell χ]

theorem works_enroll (p : Place χ LocalEngine π) (users : List User) :
    p.core.Works (p.enroll users).1.core := by
  have hregister := p.node.session.works_registerUsers p.core users
  simp only [enroll]
  split
  · exact ⟨rfl, fun _ => rfl⟩
  · split
    next h =>
      rw [h] at hregister
      exact hregister.trans ⟨rfl, fun _ => rfl⟩
    next h => rwa [h] at hregister

variable [PanelApi π χ]

theorem works_pursue (p : Place χ LocalEngine π) (progress : Progress) :
    p.core.Works (p.pursue progress).1.core := by
  -- on the rank of the request: what follows an answer has a smaller one
  induction hn : progress.rank using Nat.strongRecOn generalizing p progress with
  | ind n ih =>
    subst hn
    cases progress with
    | finished r =>
      rw [pursue]
      exact .refl _
    | enroll users =>
      rw [pursue]
      exact p.works_enroll users
    | ask stage =>
      rw [pursue]
      have hask : p.core.Works (p.ask stage.request).1.core := ⟨rfl, fun _ => rfl⟩
      rcases heq : p.ask stage.request with ⟨p', reply⟩
      rw [heq] at hask
      by_cases hdelay : reply.delay = 0
      · simp only [if_pos hdelay]
        have hlt := Session.rank_resume_lt p'.node.session p'.core stage reply.answer
        have hanswer := p'.node.session.works_resume p'.core stage reply.answer
        have hrest := ih _ hlt (p'.apply (p'.node.session.resume p'.core stage reply.answer)) _ rfl
        exact (hask.trans hanswer).trans hrest
      · simp only [if_neg hdelay]
        exact hask

theorem works_resume (p : Place χ LocalEngine π) (stage : Stage) (a : stage.request.Answer) :
    p.core.Works (p.resume stage a).1.core := by
  have hanswer := p.node.session.works_resume p.core stage a
  exact hanswer.trans (works_pursue (p.apply (p.node.session.resume p.core stage a)) _)

theorem works_run (p : Place χ LocalEngine π) (d : Duty) : p.core.Works (p.run d).1.core := by
  cases d with
  | sync => exact p.works_pursue (.ask .alive)
  | report =>
    have hbegin := p.node.session.works_beginReport p.core
    exact hbegin.trans (works_pursue (p.apply (p.node.session.beginReport p.core)) _)
  | renew =>
    simp only [run, renewCert]
    split
    · exact .refl _
    · split <;> exact .refl _

end Place

structure Instance.Works {π σ : Type} (i i' : Instance LocalEngine π σ) : Prop where
  core : i.core.Works i'.core
  posts : i'.fleet.nodes.map Node.post = i.fleet.nodes.map Node.post
  monitor : i'.monitor = i.monitor

namespace World

variable {χ π σ : Type}

def Works (w w' : World χ LocalEngine π σ) : Prop :=
  ∀ o : Nat, Option.Rel Instance.Works w.instances[o]? w'.instances[o]?

variable {w w₁ w' : World χ LocalEngine π σ} {o : Nat}

theorem Works.of_instances (same : w'.instances = w.instances) : w.Works w' := by
  intro o
  rw [same]
  cases w.instances[o]? with
  | none => exact .none
  | some i => exact .some ⟨.refl i.core, rfl, rfl⟩

theorem Works.refl (w : World χ LocalEngine π σ) : w.Works w := .of_instances rfl

theorem Works.instance? {i : Instance LocalEngine π σ} (h : w.Works w')
    (hi : w.instances[o]? = some i) : ∃ i', w'.instances[o]? = some i' ∧ i.Works i' := by
  have hrel := h o
  rw [hi] at hrel
  cases hi' : w'.instances[o]? with
  | none =>
    rw [hi'] at hrel
    cases hrel
  | some i' =>
    rw [hi'] at hrel
    cases hrel with
    | some hworks => exact ⟨i', rfl, hworks⟩

theorem Works.isSome (h : w.Works w') (o : Nat) :
    (w'.instances[o]?).isSome = (w.instances[o]?).isSome := by
  have hrel := h o
  generalize w.instances[o]? = before at hrel
  generalize w'.instances[o]? = after at hrel
  cases hrel <;> rfl

theorem Works.trans (h : w.Works w₁) (h' : w₁.Works w') : w.Works w' := by
  intro o
  cases hi : w.instances[o]? with
  | none =>
    have hnone : (w'.instances[o]?).isSome = false := by rw [h'.isSome, h.isSome, hi]; rfl
    rw [Option.isSome_eq_false_iff, Option.isNone_iff_eq_none] at hnone
    rw [hnone]
    exact .none
  | some i =>
    obtain ⟨i₁, hi₁, hworks⟩ := h.instance? hi
    obtain ⟨i', hi', hworks'⟩ := h'.instance? hi₁
    rw [hi']
    exact .some ⟨hworks.core.trans hworks'.core, hworks'.posts.trans hworks.posts,
      hworks'.monitor.trans hworks.monitor⟩

theorem Works.of_instance {i i' : Instance LocalEngine π σ} (hi : w.instances[o]? = some i)
    (hi' : w'.instances[o]? = some i') (hworks : i.Works i')
    (others : ∀ j, j ≠ o → w'.instances[j]? = w.instances[j]?) : w.Works w' := by
  intro j
  by_cases hj : j = o
  · rw [hj, hi, hi']
    exact .some hworks
  · rw [others j hj]
    exact Works.refl w j

theorem place?_eq_some {number : Nat} {p : Place χ LocalEngine π}
    (h : w.place? o number = some p) : ∃ i, w.instances[o]? = some i ∧
      i.fleet.nodes[number]? = some p.node ∧ p = ⟨number, p.node, i.core, w.host⟩ := by
  simp only [place?, Option.bind_eq_bind, Option.bind_eq_some_iff] at h
  obtain ⟨i, hi, node, hnode, hp⟩ := h
  cases hp
  exact ⟨i, hi, hnode, rfl⟩

section Visit

variable {α : Type} {number : Nat} {now : Instant} {default : α}
  {f : Place χ LocalEngine π → Place χ LocalEngine π × α}

theorem getElem?_visit (now : Instant) (default : α) {p : Place χ LocalEngine π}
    {i : Instance LocalEngine π σ} (hplace : w.place? o number = some p)
    (hi : w.instances[o]? = some i) :
    (w.visit o number now default f).1.instances[o]? =
      let q := (f { p with core := { p.core with now } }).1
      some { i with
        core := q.core, fleet := { i.fleet with nodes := i.fleet.nodes.set q.number q.node } } := by
  rw [visit, hplace]
  simp only [putPlace, List.getElem?_modify, hi, if_true]
  rfl

theorem works_visit (hf : ∀ p, (f p).1.number = p.number ∧ (f p).1.node.post = p.node.post ∧
      p.core.Works (f p).1.core) : w.Works (w.visit o number now default f).1 := by
  cases hplace : w.place? o number with
  | none =>
    rw [visit, hplace]
    exact .refl w
  | some p =>
    obtain ⟨i, hi, hnode, hp⟩ := place?_eq_some hplace
    obtain ⟨hnumber, hpost, hcore⟩ := hf { p with core := { p.core with now } }
    have hnow : i.core.Works { p.core with now } := by
      rw [hp]
      exact ⟨rfl, fun _ => rfl⟩
    have hplaced : p.number = number := by rw [hp]
    have hposts : (i.fleet.nodes.map Node.post)[number]? = some p.node.post := by
      rw [List.getElem?_map, hnode]
      rfl
    refine .of_instance hi (getElem?_visit now default hplace hi) ⟨hnow.trans hcore, ?_, rfl⟩
      fun j hj => visit_of_ne (Ne.symm hj)
    rw [List.map_set, hnumber, hpost, hplaced]
    exact set_post hposts

end Visit

section Actions

variable [ServerApi σ χ]

theorem works_poll (w : World χ LocalEngine π σ) (o : Nat) (now : Instant) :
    w.Works (w.poll o now).1 := by
  unfold poll
  split
  · exact .refl w
  next i hi =>
    split
    · exact .refl w
    next client hclient =>
      rcases ServerApi.fetch now client w.host with ⟨⟨client', host⟩, reply⟩
      have hset : w.Works (setInstance { w with host } o { i with server := some client' }) := by
        obtain ⟨hlt, -⟩ := List.getElem?_eq_some_iff.1 hi
        exact .of_instance hi (List.getElem?_set_self hlt) ⟨.refl i.core, rfl, rfl⟩
          fun j hj => List.getElem?_set_ne (Ne.symm hj)
      dsimp only
      split
      · exact hset.trans (.of_instances rfl)
      · exact hset

variable [Shell χ] [PanelApi π χ]

theorem works_enter (k : Job) (now : Instant) (w : World χ LocalEngine π σ) :
    w.Works (actions.enter k now w).1 := by
  cases k with
  | monitor o => exact w.works_poll o now
  | node o n duty =>
    have hvisit : w.Works (w.visit o n now (.finished (.ok ())) (·.run duty)).1 :=
      works_visit fun p => by
        have htends := p.run_tends duty
        exact ⟨htends.number, htends.post, p.works_run duty⟩
    exact hvisit

theorem works_resume (k : Job) (r : InFlight) (now : Instant) (w : World χ LocalEngine π σ) :
    w.Works (actions.resume k r now w).1 := by
  cases r with
  | fetched a => cases k <;> exact .of_instances rfl
  | stage stage a =>
    cases k with
    | monitor o => exact .refl w
    | node o n duty =>
      have hvisit : w.Works (w.visit o n now (.finished (.ok ())) (·.resume stage a)).1 :=
        works_visit fun p => by
          obtain ⟨hnumber, hpost, -⟩ := p.resume_frame stage a
          exact ⟨hnumber, hpost, p.works_resume stage a⟩
      exact hvisit

variable {s s' : Agenda χ LocalEngine π σ}

theorem works_shift (h : Timetable.Shift actions s s') : s.state.Works s'.state := by
  cases h with
  | clock | arm | lapse | drive => exact .refl _
  | enter i e new he h begins =>
    rw [Timetable.state_pend]
    exact works_enter e.key s.now s.state
  | resume n t i r e =>
    rw [Timetable.state_pend]
    exact works_resume e.key r s.now s.state

theorem works_advanceTo (s : Agenda χ LocalEngine π σ) (limit : Instant) :
    s.state.Works (s.advanceTo actions limit).state :=
  (s.advanceTo_reaches actions limit).invariant (P := fun s' => s.state.Works s'.state)
    (fun _ _ hshift h => h.trans (works_shift hshift)) (.refl _)

end Actions

end World

end NodeAgent
