import NodeAgent.Proofs.Start

/-!
The turns that the timetable gives to a node are runs of events. A start that meets no delay ends
with the turn after which runs begin; every turn of a sync or a report is a run.
-/

namespace NodeAgent

inductive PanelTask
  | sync
  | report

def PanelTask.duty : PanelTask → Duty
  | sync => .sync
  | report => .report

def Stage.task? : Stage → Option PanelTask
  | firstUsers => none
  | firstAlive _ => none
  | alive => some .sync
  | users => some .sync
  | invalidate _ => some .sync
  | traffic _ => some .report
  | online _ => some .report
  | status => some .report

inductive Progress.KeepsTo (task : PanelTask) : Progress → Prop
  | ask (stage : Stage) (h : stage.task? = some task) : KeepsTo task (.ask stage)
  | finished (r : Except Fault Unit) : KeepsTo task (.finished r)

namespace Session

variable {ε : Type} (s : Session) (c : Core ε)

theorem keepsTo_stepsAfterTraffic (l : List UserTraffic) :
    (s.stepsAfterTraffic c l).progress.KeepsTo .report := by
  unfold stepsAfterTraffic
  split
  · exact .ask .status rfl
  · exact .ask _ rfl

theorem keepsTo_beginReport : (s.beginReport c).progress.KeepsTo .report := by
  unfold beginReport
  split
  · exact .finished _
  · exact s.keepsTo_stepsAfterTraffic _ []
  · exact .ask _ rfl

theorem keepsTo_resume [Engine ε] {stage : Stage} (a : stage.request.Answer) {task : PanelTask}
    (h : stage.task? = some task) : (s.resume c stage a).progress.KeepsTo task := by
  cases stage with
  | firstUsers => cases h
  | firstAlive => cases h
  | alive => exact .ask .users h
  | users =>
    rcases a with e | _ | l
    · exact .finished _
    · exact .finished _
    · simp only [resume, afterUsers]
      split
      · exact .finished _
      · exact .ask _ h
      · exact .finished _
  | invalidate f => exact .finished _
  | traffic l =>
    cases h
    exact s.keepsTo_stepsAfterTraffic c l
  | online l => exact .ask .status h
  | status => exact .finished _

end Session

theorem Session.afterFirstUsers_eq {ε : Type} (s : Session) (c : Core ε)
    (a : Except PanelError (Option (List User))) :
    (∃ f, s.afterFirstUsers c a = ⟨s, c, .finished (.error f)⟩) ∨
      ∃ users, s.afterFirstUsers c a = ⟨s, c, .ask (.firstAlive users)⟩ := by
  unfold afterFirstUsers
  split
  · exact .inl ⟨_, rfl⟩
  · split
    · exact .inl ⟨_, rfl⟩
    · exact .inr ⟨_, rfl⟩

def NodeEvent.ofAnswer : (stage : Stage) → stage.request.Answer → NodeEvent
  | .firstUsers, a => .users a
  | .firstAlive _, a => .alive a
  | .alive, a => .alive a
  | .users, a => .users a
  | .invalidate _, _ => .invalidated
  | .traffic _, a => .posted a
  | .online _, a => .posted a
  | .status, a => .posted a

def Errand.ofPause : Pause → Errand
  | .finished r => .after (.finished r)
  | .wait _ stage _ => .waiting stage

namespace Place

variable {χ ε π : Type} (p : Place χ ε π)

def atTask (task : PanelTask) (errand other : Errand) : RunningNode ε :=
  match task with
  | .sync => { RunningNode.ofPlace p with sync := errand, report := other }
  | .report => { RunningNode.ofPlace p with sync := other, report := errand }

variable [Engine ε] {task : PanelTask} (other : Errand)

theorem step_note [PanelApi π χ] (task : PanelTask) (errand : Errand) (q : PanelRequest) :
    (p.atTask task errand other).step (.note (.panel p.number q)) =
      (p.ask q).1.atTask task errand other := by
  cases task <;> rfl

theorem step_ofAnswer {stage : Stage} (a : stage.request.Answer) (h : stage.task? = some task) :
    (p.atTask task (.waiting stage) other).step (.ofAnswer stage a) =
      (p.apply (p.node.session.resume p.core stage a)).atTask task
        (.after (p.node.session.resume p.core stage a).progress) other := by
  cases stage with
  | firstUsers => cases h
  | firstAlive => cases h
  | alive =>
    cases h
    simp only [NodeEvent.ofAnswer, RunningNode.step, atTask, if_true]
    rfl
  | users =>
    cases h
    exact RunningNode.step_users_of_waiting rfl a
  | _ =>
    cases h
    rfl

variable [Shell χ] [PanelApi π χ]

theorem pursue_is_run {progress : Progress} (h : progress.KeepsTo task) :
    ∃ es, (p.atTask task (.after progress) other).run es =
      (p.pursue progress).1.atTask task (.ofPause (p.pursue progress).2) other := by
  -- on the rank of the request: what follows an answer has a smaller one
  induction hn : progress.rank using Nat.strongRecOn generalizing p progress with
  | ind n ih =>
    subst hn
    cases h with
    | finished r =>
      rw [pursue]
      exact ⟨[], rfl⟩
    | ask stage hstage =>
      rw [pursue]
      have hnote := p.step_note other task (.waiting stage) stage.request
      rcases hask : p.ask stage.request with ⟨p', reply⟩
      rw [hask] at hnote
      by_cases hdelay : reply.delay = 0
      · have hanswer := p'.step_ofAnswer other reply.answer hstage
        have hlt := Session.rank_resume_lt p'.node.session p'.core stage reply.answer
        obtain ⟨es, hes⟩ := ih _ hlt (p'.apply (p'.node.session.resume p'.core stage reply.answer))
          (p'.node.session.keepsTo_resume p'.core reply.answer hstage) rfl
        refine ⟨.note (.panel p.number stage.request) :: .ofAnswer stage reply.answer :: es, ?_⟩
        simp only [if_pos hdelay]
        rw [RunningNode.run, RunningNode.run, Errand.after, hnote, hanswer, hes]
      · refine ⟨[.note (.panel p.number stage.request)], ?_⟩
        simp only [if_neg hdelay]
        exact hnote

theorem resume_is_run {stage : Stage} (a : stage.request.Answer) (h : stage.task? = some task) :
    ∃ es, (p.atTask task (.waiting stage) other).run es =
      (p.resume stage a).1.atTask task (.ofPause (p.resume stage a).2) other := by
  obtain ⟨es, hes⟩ := (p.apply (p.node.session.resume p.core stage a)).pursue_is_run other
    (p.node.session.keepsTo_resume p.core a h)
  exact ⟨.ofAnswer stage a :: es, (congrArg (·.run es) (p.step_ofAnswer other a h)).trans hes⟩

theorem run_is_run (task : PanelTask) :
    let r := p.run task.duty
    ∃ es, (p.atTask task .idle other).run es = r.1.atTask task (.ofPause r.2) other := by
  cases task with
  | sync =>
    obtain ⟨es, hes⟩ := p.pursue_is_run other (.ask .alive rfl : Progress.KeepsTo .sync _)
    exact ⟨.beginSync :: es, hes⟩
  | report =>
    obtain ⟨es, hes⟩ := (p.apply (p.node.session.beginReport p.core)).pursue_is_run other
      (p.node.session.keepsTo_beginReport p.core)
    exact ⟨.beginReport :: es, hes⟩

omit [Engine ε] [Shell χ] in
theorem ask_frame (q : PanelRequest) : (p.ask q).1.node.session = p.node.session ∧
    (p.ask q).1.core = { p.core with journal := (p.ask q).1.core.journal } := ⟨rfl, rfl⟩

theorem pursue_of_finished {stage : Stage} {r : Except Fault Unit}
    (h : (p.pursue (.ask stage)).2 = .finished r) :
    p.pursue (.ask stage) =
      (p.ask stage.request).1.resume stage (p.ask stage.request).2.answer := by
  rw [pursue] at h ⊢
  by_cases hdelay : (p.ask stage.request).2.delay = 0
  · exact if_pos hdelay
  · simp only [if_neg hdelay] at h
    cases h

theorem starts_of_pursue (h : (p.pursue (.ask .firstUsers)).2 = .finished (.ok ())) :
    ∃ (p' : Place χ ε π) (users : List User) (alive : Except PanelError AliveCounts),
      p'.node.session = p.node.session ∧
      p'.core = { p.core with journal := p'.core.journal } ∧ p'.Starts users alive ∧
      p.pursue (.ask .firstUsers) = p'.resume (.firstAlive users) alive := by
  have hfirst := p.pursue_of_finished h
  obtain ⟨hsession, hcore⟩ := p.ask_frame Stage.firstUsers.request
  rcases hask : p.ask Stage.firstUsers.request with ⟨p₁, reply⟩
  rw [hask] at hfirst hsession hcore
  rw [hfirst] at h ⊢
  simp only [resume, Session.resume] at h ⊢
  obtain ⟨f, hf⟩ | ⟨users, husers⟩ := p₁.node.session.afterFirstUsers_eq p₁.core reply.answer
  · rw [hf, pursue] at h
    cases h
  · rw [husers] at h ⊢
    obtain ⟨hsession', hcore'⟩ := ask_frame
      (p₁.apply ⟨p₁.node.session, p₁.core, .ask (.firstAlive users)⟩) PanelRequest.alive
    have hsecond := pursue_of_finished (p₁.apply ⟨_, _, _⟩) h
    rw [hsecond] at h ⊢
    exact ⟨_, users, _, hsession'.trans hsession, hcore'.trans (by rw [apply, hcore]), h, rfl⟩

end Place

end NodeAgent
