import NodeAgent.Proofs.Enlisting
import NodeAgent.Proofs.Timetable

/-!
The nodes of one instance among everything that the timetable runs. Runs of other instances and polls
of the server do not come near them, and the tasks of its own nodes tend its core.
-/

namespace NodeAgent

variable {χ π σ : Type}

namespace World

def Stands (w : World χ LocalEngine π σ) (owner : Nat) (posts : List Post)
    (Q : Core LocalEngine → Prop) : Prop :=
  ∃ i, w.instances[owner]? = some i ∧ i.fleet.nodes.map Node.post = posts ∧ Q i.core

variable {w : World χ LocalEngine π σ} {owner number : Nat} {now : Instant} {posts : List Post}
  {post : Post} {Q : Core LocalEngine → Prop} {α : Type} {default : α}
  {f : Place χ LocalEngine π → Place χ LocalEngine π × α}

theorem Stands.of_instance {w' : World χ LocalEngine π σ} (h : w.Stands owner posts Q)
    (same : w'.instances[owner]? = w.instances[owner]?) : w'.Stands owner posts Q := by
  obtain ⟨i, hi, hposts, hQ⟩ := h
  exact ⟨i, same.trans hi, hposts, hQ⟩

theorem visit_of_ne {o : Nat} (hne : o ≠ owner) :
    (w.visit o number now default f).1.instances[owner]? = w.instances[owner]? := by
  unfold visit
  split
  · rfl
  · simp only [putPlace, List.getElem?_modify, if_neg hne]
    exact Option.map_id'

theorem Stands.visit_none (h : w.Stands owner posts Q) (hpost : posts[number]? = none) :
    w.visit owner number now default f = (w, default) := by
  obtain ⟨i, hi, rfl, -⟩ := h
  rw [List.getElem?_map, Option.map_eq_none_iff] at hpost
  have hplace : w.place? owner number = none := by
    simp only [place?, hi, Option.bind_eq_bind, Option.bind_some, hpost, Option.bind_none]
  rw [visit, hplace]

theorem Stands.mono {Q' : Core LocalEngine → Prop} (h : w.Stands owner posts Q)
    (hQ : ∀ c, Q c → Q' c) : w.Stands owner posts Q' := by
  obtain ⟨i, hi, hposts, hc⟩ := h
  exact ⟨i, hi, hposts, hQ i.core hc⟩

theorem Stands.place? (h : w.Stands owner posts Q) (hpost : posts[number]? = some post) :
    ∃ i node, w.instances[owner]? = some i ∧ i.fleet.nodes.map Node.post = posts ∧ Q i.core ∧
      node.post = post ∧ w.place? owner number = some ⟨number, node, i.core, w.host⟩ := by
  obtain ⟨i, hi, rfl, hQ⟩ := h
  rw [List.getElem?_map] at hpost
  obtain ⟨node, hnode, hpost⟩ := Option.map_eq_some_iff.1 hpost
  refine ⟨i, node, hi, rfl, hQ, hpost, ?_⟩
  simp only [World.place?, hi, Option.bind_eq_bind, Option.bind_some, hnode]
  rfl

theorem Stands.visit (h : w.Stands owner posts Q) (hpost : posts[number]? = some post)
    (post' : Post) (Q' : Core LocalEngine → α → Prop)
    (hf : ∀ p c, p.number = number → p.node.post = post → Q c → p.core = { c with now } →
      (f p).1.number = number ∧ (f p).1.node.post = post' ∧ Q' (f p).1.core (f p).2) :
    (w.visit owner number now default f).1.Stands owner (posts.set number post')
      (Q' · (w.visit owner number now default f).2) := by
  obtain ⟨i, node, hi, rfl, hQ, hpost, hplace⟩ := h.place? hpost
  obtain ⟨hnumber, hpost', hresult⟩ :=
    hf ⟨number, node, { i.core with now }, w.host⟩ i.core rfl hpost hQ rfl
  rw [World.visit, hplace]
  dsimp only
  refine ⟨{ i with
    core := (f ⟨number, node, { i.core with now }, w.host⟩).1.core
    fleet := { i.fleet with
      nodes := i.fleet.nodes.set (f ⟨number, node, { i.core with now }, w.host⟩).1.number
        (f ⟨number, node, { i.core with now }, w.host⟩).1.node } }, ?_, ?_, hresult⟩
  · simp only [putPlace, List.getElem?_modify, hi, if_true]
    rfl
  · rw [hnumber, List.map_set, hpost']

theorem set_post (hpost : posts[number]? = some post) : posts.set number post = posts := by
  obtain ⟨hlt, hget⟩ := List.getElem?_eq_some_iff.1 hpost
  rw [← hget, List.set_getElem_self]

theorem Stands.tend (h : w.Stands owner posts Q) {R : α → Prop} (default_R : R default)
    (hQ : ∀ post, posts[number]? = some post → ∀ c c', c.Tended c' post.tag → Q c → Q c')
    (hf : ∀ p, p.number = number → (f p).1.number = p.number ∧
      (f p).1.node.post = p.node.post ∧ p.core.Tended (f p).1.core p.node.session.tag ∧
      R (f p).2) :
    (w.visit owner number now default f).1.Stands owner posts Q ∧
      R (w.visit owner number now default f).2 := by
  cases hpost : posts[number]? with
  | none =>
    rw [h.visit_none hpost]
    exact ⟨h, default_R⟩
  | some post =>
    have hvisit : (w.visit owner number now default f).1.Stands owner (posts.set number post)
        fun c => Q c ∧ R (w.visit owner number now default f).2 :=
      h.visit hpost post (fun c a => Q c ∧ R a) fun p c hnumber hp hc hcore => by
        obtain ⟨hnumber', hpost', htended, hR⟩ := hf p hnumber
        have htag : p.node.session.tag = post.tag := by rw [← hp, Node.post]
        rw [htag, hcore] at htended
        have hnow : Core.Tended c { c with now } post.tag :=
          ⟨.refl _, fun _ => Iff.rfl, fun _ hu => .inl hu⟩
        exact ⟨hnumber'.trans hnumber, hpost'.trans hp,
          hQ post hpost c _ (hnow.trans htended) hc, hR⟩
    rw [set_post hpost] at hvisit
    obtain ⟨i, -, -, -, hR⟩ := id hvisit
    exact ⟨hvisit.mono fun _ hc => hc.1, hR⟩

end World

def Job.isActive (owner : Nat) (started : List Nat) : Job → Bool
  | .node o n _ => o != owner || started.contains n
  | .monitor _ => true

theorem Job.isActive_eq_false_iff {owner o n : Nat} {started : List Nat} {duty : Duty} :
    isActive owner started (.node o n duty) = false ↔ o = owner ∧ n ∉ started := by
  simp [isActive]

def Job.Fits (owner : Nat) : Job → InFlight → Prop
  | .node o _ duty, .stage stage _ =>
    o = owner → stage.task?.isSome ∧ stage.task? = duty.panelTask?
  | _, _ => True

theorem Pause.toTurn_eq_wait {pause : Pause} {d : Nat} {r : InFlight}
    (h : pause.toTurn = .wait d r) : ∃ stage a, pause = .wait d stage a ∧ r = .stage stage a := by
  cases pause with
  | finished r => cases h
  | wait delay stage a =>
    cases h
    exact ⟨stage, a, rfl, rfl⟩

namespace World

variable [ServerApi σ χ] {w : World χ LocalEngine π σ} {owner : Nat} {posts : List Post}
  {Q : Core LocalEngine → Prop}

omit [ServerApi σ χ] in
theorem Stands.concludePoll (h : w.Stands owner posts Q)
    (a : Except PanelError (Option ServerReply)) : (w.concludePoll a).1.Stands owner posts Q :=
  h.of_instance rfl

theorem Stands.poll (h : w.Stands owner posts Q) (o : Nat) (now : Instant) :
    (w.poll o now).1.Stands owner posts Q := by
  unfold World.poll
  split
  · exact h
  next i hi =>
    split
    · exact h
    next client hclient =>
      rcases ServerApi.fetch now client w.host with ⟨⟨client', host⟩, reply⟩
      have hset : (setInstance { w with host } o { i with server := some client' }).Stands owner
          posts Q := by
        obtain ⟨i', hi', hposts, hQ⟩ := h
        by_cases ho : o = owner
        · subst ho
          obtain rfl : i = i' := Option.some.inj (hi.symm.trans hi')
          obtain ⟨hlt, -⟩ := List.getElem?_eq_some_iff.1 hi
          exact ⟨_, List.getElem?_set_self hlt, hposts, hQ⟩
        · exact ⟨i', (List.getElem?_set_ne ho).trans hi', hposts, hQ⟩
      dsimp only
      split
      · exact hset.concludePoll _
      · exact hset

variable [Shell χ] [PanelApi π χ] {started : List Nat}

omit [ServerApi σ χ] [Shell χ] [PanelApi π χ] in
theorem Stands.turn {o n : Nat} {duty : Duty} {now : Instant} (h : w.Stands owner posts Q)
    (hactive : Job.isActive owner started (.node o n duty) = true)
    (hQ : ∀ n ∈ started, ∀ post, posts[n]? = some post →
      ∀ c c', c.Tended c' post.tag → Q c → Q c')
    {f : Place χ LocalEngine π → Place χ LocalEngine π × Pause}
    (hf : o = owner → ∀ p, (f p).1.number = p.number ∧ (f p).1.node.post = p.node.post ∧
      p.core.Tended (f p).1.core p.node.session.tag ∧
      ∀ d stage a, (f p).2 = .wait d stage a →
        stage.task?.isSome ∧ stage.task? = duty.panelTask?) :
    (w.visit o n now (.finished (.ok ())) f).1.Stands owner posts Q ∧
      ∀ d r, (w.visit o n now (.finished (.ok ())) f).2.toTurn = .wait d r →
        Job.Fits owner (.node o n duty) r := by
  by_cases ho : o = owner
  · subst ho
    have hn : n ∈ started := by simpa [Job.isActive] using hactive
    refine h.tend (R := fun pause : Pause => ∀ d r, pause.toTurn = .wait d r →
      Job.Fits o (.node o n duty) r) (fun _ _ hr => by cases hr) (hQ n hn) fun p _ => ?_
    obtain ⟨hnumber, hpost, hcore, hwaits⟩ := hf rfl p
    refine ⟨hnumber, hpost, hcore, fun d r hr => ?_⟩
    obtain ⟨stage, a, hpause, rfl⟩ := Pause.toTurn_eq_wait hr
    exact fun _ => hwaits d stage a hpause
  · refine ⟨h.of_instance (visit_of_ne ho), fun d r hr => ?_⟩
    obtain ⟨stage, a, -, rfl⟩ := Pause.toTurn_eq_wait hr
    exact fun howner => absurd howner ho

theorem actions_preserve
    (hQ : ∀ n ∈ started, ∀ post, posts[n]? = some post →
      ∀ c c', c.Tended c' post.tag → Q c → Q c') :
    Actions.Preserves actions (Job.isActive owner started) (Job.Fits owner)
      fun w : World χ LocalEngine π σ => w.Stands owner posts Q where
  enter := by
    intro k now w hactive h
    cases k with
    | monitor o => exact ⟨h.poll o now, fun _ _ _ => trivial⟩
    | node o n duty =>
      refine h.turn (f := (·.run duty)) hactive hQ fun _ p => ?_
      have htends := p.run_tends duty
      exact ⟨htends.number, htends.post, htends.core, htends.waits⟩
  resume := by
    intro k r now w hactive hfits h
    cases r with
    | fetched a =>
      cases k <;> exact ⟨h.concludePoll a, fun _ _ hr => by cases hr⟩
    | stage stage a =>
      cases k with
      | monitor o => exact ⟨h, fun _ _ hr => by cases hr⟩
      | node o n duty =>
        refine h.turn (f := (·.resume stage a)) hactive hQ fun ho p => ?_
        obtain ⟨hsome, htask⟩ := hfits ho
        obtain ⟨task, hstage⟩ := Option.isSome_iff_exists.1 hsome
        have htends := p.resume_tends a hstage
        rw [← hstage, htask] at htends
        exact ⟨htends.number, htends.post, htends.core, htends.waits⟩

end World

end NodeAgent
