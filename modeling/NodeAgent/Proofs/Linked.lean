import NodeAgent.Panel.Client
import NodeAgent.Proofs.Turns

/-!
A node with the client through which it talks to its panel. The client has made something of the
panel's user list, and remembers its version, before the node is given it.
-/

namespace NodeAgent

structure LinkedNode (ε : Type) where
  node : RunningNode ε
  client : PanelClient
  /-- What the client has made of an answer that the sync has not been given yet. -/
  fetched : Option (Except PanelError (Option (List User))) := none

inductive LinkEvent
  | fetch (r : Option HttpResponse)
  | deliver
  | forget
  | node (e : NodeEvent)

/-- A sync that has failed is over once the client has no version. -/
def PanelClient.admits (c : PanelClient) : NodeEvent → Bool
  | .users _ => false
  | .invalidated => c.etag.isNone
  | _ => true

namespace LinkedNode

variable {ε : Type} [Engine ε]

def step (x : LinkedNode ε) : LinkEvent → LinkedNode ε
  | .fetch r =>
    if x.node.sync = .waiting .users ∧ x.fetched = none then
      let (client, a) := x.client.takeUsers r
      { x with client, fetched := some a }
    else x
  | .deliver =>
    match x.fetched with
    | some a => { x with node := x.node.step (.users a), fetched := none }
    | none => x
  | .forget => { x with client := { x.client with etag := none } }
  | .node e => if x.client.admits e then { x with node := x.node.step e } else x

def run (x : LinkedNode ε) : List LinkEvent → LinkedNode ε
  | [] => x
  | e :: es => (x.step e).run es

theorem run_append (x : LinkedNode ε) (es es' : List LinkEvent) :
    x.run (es ++ es') = (x.run es).run es' := by
  induction es generalizing x with
  | nil => rfl
  | cons e es ih => exact ih (x.step e)

theorem run_invariant {P : LinkedNode ε → Prop} {es : List LinkEvent}
    (preserves : ∀ x, ∀ e ∈ es, P x → P (x.step e)) {x : LinkedNode ε} (h : P x) : P (x.run es) := by
  induction es generalizing x with
  | nil => exact h
  | cons e es ih =>
    exact ih (fun y e' he' => preserves y e' (List.mem_cons_of_mem _ he'))
      (preserves x e (List.mem_cons_self ..) h)

end LinkedNode

def Stage.fetched? : (stage : Stage) → stage.request.Answer →
    Option (Except PanelError (Option (List User)))
  | .users, a => some a
  | _, _ => none

def Pause.fetched? : Pause → Option (Except PanelError (Option (List User)))
  | .wait _ stage a => stage.fetched? a
  | .finished _ => none

namespace Place

variable {χ ε : Type} [HttpNetwork χ] (p : Place χ ε PanelClient)

def linked (task : PanelTask) (errand other : Errand)
    (fetched : Option (Except PanelError (Option (List User)))) : LinkedNode ε where
  node := p.atTask task errand other
  client := p.node.client
  fetched

def Sent (χ : Type) [HttpNetwork χ] (r : Option HttpResponse) : Prop :=
  ∃ request now, ∃ h : Host χ, (HttpNetwork.send request now h).2.answer = r

variable [Engine ε] {task : PanelTask} (other : Errand)
  {fetched : Option (Except PanelError (Option (List User)))}

theorem ask_is_linked_run {stage : Stage} (h : stage.task? = some task)
    (hf : task = .sync → fetched = none) :
    ∃ es, (∀ r, .fetch r ∈ es → Sent χ r) ∧
      (p.linked task (.waiting stage) other fetched).run es =
        (p.ask stage.request).1.linked task (.waiting stage) other
          ((stage.fetched? (p.ask stage.request).2.answer).or fetched) := by
  cases stage with
  | firstUsers => cases h
  | firstAlive => cases h
  | users =>
    cases h
    obtain rfl := hf rfl
    let r := (p.node.client.get "/v1/server/user" p.node.client.etag p.core.now p.host).2.answer
    refine ⟨[.fetch r, .node (.note (.panel p.number .users))], fun r' hr => ?_, ?_⟩
    · obtain rfl : r' = r := by simpa using hr
      exact ⟨_, p.core.now, p.host, rfl⟩
    · rw [LinkedNode.run, LinkedNode.step, if_pos ⟨rfl, rfl⟩]
      rfl
  | invalidate f =>
    -- the client has no version left before the sync goes on
    cases h
    exact ⟨[.forget, .node (.note (.panel p.number .invalidate))], by simp, rfl⟩
  | alive =>
    cases h
    exact ⟨[.node (.note (.panel p.number .alive))], by simp, rfl⟩
  | traffic l =>
    cases h
    exact ⟨[.node (.note (.panel p.number (.traffic l)))], by simp, rfl⟩
  | online l =>
    cases h
    exact ⟨[.node (.note (.panel p.number (.online l)))], by simp, rfl⟩
  | status =>
    cases h
    exact ⟨[.node (.note (.panel p.number .status))], by simp, rfl⟩

omit [HttpNetwork χ] in
theorem step_node_answer {stage : Stage} (a : stage.request.Answer) (h : stage.task? = some task)
    (hadmits : p.node.client.admits (.ofAnswer stage a) = true) :
    (p.linked task (.waiting stage) other fetched).step (.node (.ofAnswer stage a)) =
      (p.apply (p.node.session.resume p.core stage a)).linked task
        (.after (p.node.session.resume p.core stage a).progress) other fetched :=
  calc (p.linked task (.waiting stage) other fetched).step (.node (.ofAnswer stage a))
      = ⟨(p.atTask task (.waiting stage) other).step (.ofAnswer stage a), p.node.client, fetched⟩ :=
        if_pos hadmits
    _ = _ := by rw [p.step_ofAnswer other a h]; rfl

omit [HttpNetwork χ] in
theorem answer_is_linked_step {stage : Stage} (a : stage.request.Answer)
    (h : stage.task? = some task) (hf : task = .sync → fetched = none)
    (forgot : ∀ f, stage = .invalidate f → p.node.client.etag = none) :
    ∃ e, (∀ r, e ≠ .fetch r) ∧
      (p.linked task (.waiting stage) other ((stage.fetched? a).or fetched)).step e =
        (p.apply (p.node.session.resume p.core stage a)).linked task
          (.after (p.node.session.resume p.core stage a).progress) other fetched := by
  cases stage with
  | firstUsers => cases h
  | firstAlive => cases h
  | users =>
    have hanswer := p.step_ofAnswer other a h
    cases h
    obtain rfl := hf rfl
    exact ⟨.deliver, fun r heq => (by cases heq),
      congrArg (LinkedNode.mk · p.node.client none) hanswer⟩
  | invalidate f =>
    refine ⟨.node .invalidated, fun r heq => (by cases heq), p.step_node_answer other a h ?_⟩
    rw [NodeEvent.ofAnswer, PanelClient.admits, forgot f rfl]
    rfl
  | _ => exact ⟨.node _, fun r heq => (by cases heq), p.step_node_answer other a h rfl⟩

variable [Shell χ]

theorem pursue_is_linked_run {progress : Progress} (h : progress.KeepsTo task)
    (hf : task = .sync → fetched = none) :
    ∃ es, (∀ r, .fetch r ∈ es → Sent χ r) ∧ (p.linked task (.after progress) other fetched).run es =
      (p.pursue progress).1.linked task (.ofPause (p.pursue progress).2) other
        ((p.pursue progress).2.fetched?.or fetched) := by
  -- on the rank of the request: what follows an answer has a smaller one
  induction hn : progress.rank using Nat.strongRecOn generalizing p progress with
  | ind n ih =>
    subst hn
    cases h with
    | finished r =>
      rw [pursue]
      exact ⟨[], by simp, rfl⟩
    | ask stage hstage =>
      rw [pursue]
      obtain ⟨es, hsent, hask⟩ := p.ask_is_linked_run other hstage hf
      have forgot : ∀ f, stage = .invalidate f →
          (p.ask stage.request).1.node.client.etag = none := by
        rintro f rfl
        rfl
      rcases hreply : p.ask stage.request with ⟨p', reply⟩
      rw [hreply] at hask forgot
      by_cases hdelay : reply.delay = 0
      · obtain ⟨e, hfetch, hanswer⟩ :=
          p'.answer_is_linked_step other reply.answer hstage hf forgot
        have hlt := Session.rank_resume_lt p'.node.session p'.core stage reply.answer
        obtain ⟨es', hsent', hes'⟩ := ih _ hlt
          (p'.apply (p'.node.session.resume p'.core stage reply.answer))
          (p'.node.session.keepsTo_resume p'.core reply.answer hstage) rfl
        refine ⟨es ++ e :: es', fun r hr => ?_, ?_⟩
        · rcases List.mem_append.1 hr with hr | hr
          · exact hsent r hr
          · rcases List.mem_cons.1 hr with hr | hr
            · exact absurd hr.symm (hfetch r)
            · exact hsent' r hr
        · simp only [if_pos hdelay]
          rw [LinkedNode.run_append, Errand.after, hask, LinkedNode.run, hanswer, hes']
      · refine ⟨es, hsent, ?_⟩
        simp only [if_neg hdelay]
        exact hask

theorem resume_is_linked_run {stage : Stage} (a : stage.request.Answer)
    (h : stage.task? = some task) (hf : task = .sync → fetched = none)
    (forgot : ∀ f, stage = .invalidate f → p.node.client.etag = none) :
    ∃ es, (∀ r, .fetch r ∈ es → Sent χ r) ∧
      (p.linked task (.waiting stage) other ((stage.fetched? a).or fetched)).run es =
        (p.resume stage a).1.linked task (.ofPause (p.resume stage a).2) other
          ((p.resume stage a).2.fetched?.or fetched) := by
  obtain ⟨e, hfetch, hanswer⟩ := p.answer_is_linked_step other a h hf forgot
  obtain ⟨es, hsent, hes⟩ := (p.apply (p.node.session.resume p.core stage a)).pursue_is_linked_run
    other (p.node.session.keepsTo_resume p.core a h) hf
  refine ⟨e :: es, fun r hr => ?_, (congrArg (·.run es) hanswer).trans hes⟩
  rcases List.mem_cons.1 hr with hr | hr
  · exact absurd hr.symm (hfetch r)
  · exact hsent r hr

theorem run_is_linked_run (hf : task = .sync → fetched = none) :
    ∃ es, (∀ r, .fetch r ∈ es → Sent χ r) ∧ (p.linked task .idle other fetched).run es =
      (p.run task.duty).1.linked task (.ofPause (p.run task.duty).2) other
        ((p.run task.duty).2.fetched?.or fetched) := by
  cases task with
  | sync =>
    obtain ⟨es, hsent, hes⟩ :=
      p.pursue_is_linked_run other (.ask .alive rfl : Progress.KeepsTo .sync _) hf
    exact ⟨.node .beginSync :: es, by simpa using hsent, hes⟩
  | report =>
    obtain ⟨es, hsent, hes⟩ := (p.apply (p.node.session.beginReport p.core)).pursue_is_linked_run
      other (p.node.session.keepsTo_beginReport p.core) hf
    exact ⟨.node .beginReport :: es, by simpa using hsent, hes⟩

end Place

end NodeAgent
