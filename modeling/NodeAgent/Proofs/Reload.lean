import NodeAgent.Proofs.Startup

/-!
An agent over its whole life. At every moment one instance serves or none does; whatever does not serve
is closed, and begins no run any more. A reload goes from one such moment to the next.
-/

namespace NodeAgent

namespace Agenda

variable {χ : Type} {s s₁ s' : LiveAgenda χ} {o owner : Nat}

structure Past (s s' : LiveAgenda χ) (o : Nat) : Prop where
  present : (s'.state.instances[o]?).isSome = (s.state.instances[o]?).isSome
  tasks : ∀ j k, s.key? j = some k → k.owner = o →
    s'.key? j = some k ∧ (s'.task? j).map (·.begun) = (s.task? j).map (·.begun)

theorem Past.refl (s : LiveAgenda χ) (o : Nat) : s.Past s o := ⟨rfl, fun _ _ hk _ => ⟨hk, rfl⟩⟩

theorem Past.trans (h : s.Past s₁ o) (h' : s₁.Past s' o) : s.Past s' o where
  present := h'.present.trans h.present
  tasks := by
    intro j k hk ho
    obtain ⟨hkey, hbegun⟩ := h.tasks j k hk ho
    obtain ⟨hkey', hbegun'⟩ := h'.tasks j k hkey ho
    exact ⟨hkey', hbegun'.trans hbegun⟩

theorem Spares.past (h : s.Spares s' owner) (ho : o ≠ owner) : s.Past s' o :=
  ⟨h.present o ho, fun j k hk hko => ⟨h.kept j k hk, h.begun j k hk (hko ▸ ho)⟩⟩

section Fetch

variable [Shell χ] [HttpNetwork χ]

theorem fetchServer_eq (s : LiveAgenda χ) (client : ServerClient) :
    ∃ host, let s₁ : LiveAgenda χ := { s with state := { s.state with host } }
      (s.fetchServer client).1 = s₁ ∨
        ∃ limit, (s.fetchServer client).1 = s₁.advanceTo World.actions limit := by
  simp only [fetchServer]
  split
  · exact ⟨_, .inl rfl⟩
  · exact ⟨_, .inr ⟨_, rfl⟩⟩

theorem fetchServer_stirs (unwatched : s.Unwatched owner) (client : ServerClient) :
    Stirring owner s (s.fetchServer client).1 := by
  obtain ⟨host, hfetch⟩ := s.fetchServer_eq client
  have hhost : Stirring owner s { s with state := { s.state with host } } :=
    .single (.state _ rfl fun _ _ => rfl)
  obtain hfetch | ⟨limit, hfetch⟩ := hfetch
  · rw [hfetch]
    exact hhost
  · rw [hfetch]
    exact hhost.trans (advanceTo_stirs (hhost.unwatched unwatched) limit)

theorem fetchServer_rests (h : s.Rests owner) (client : ServerClient) :
    Rests (s.fetchServer client).1 owner := by
  obtain ⟨host, hfetch⟩ := s.fetchServer_eq client
  have hhost : Rests { s with state := { s.state with host } } owner :=
    h.of_works (.of_instances rfl)
  obtain hfetch | ⟨limit, hfetch⟩ := hfetch
  · rw [hfetch]
    exact hhost
  · rw [hfetch]
    exact (advanceTo_spares hhost limit).2

theorem fetchServer_works (s : LiveAgenda χ) (client : ServerClient) :
    s.state.Works (s.fetchServer client).1.state := by
  obtain ⟨host, hfetch⟩ := s.fetchServer_eq client
  let s₁ : LiveAgenda χ := { s with state := { s.state with host } }
  have hhost : s.state.Works s₁.state := .of_instances rfl
  obtain hfetch | ⟨limit, hfetch⟩ := hfetch
  · rw [hfetch]
    exact hhost
  · rw [hfetch]
    exact hhost.trans (World.works_advanceTo s₁ limit)

theorem placed_advanceTo (h : s.Placed) (limit : Instant) :
    Placed (s.advanceTo World.actions limit) := by
  intro j k hk
  rw [Timetable.key?_of_lasting (Timetable.lasting_advanceTo ..)] at hk
  rw [(World.works_advanceTo s limit).isSome]
  exact h j k hk

theorem fetchServer_placed (h : s.Placed) (client : ServerClient) :
    Placed (s.fetchServer client).1 := by
  obtain ⟨host, hfetch⟩ := s.fetchServer_eq client
  have hhost : Placed { s with state := { s.state with host } } := h
  obtain hfetch | ⟨limit, hfetch⟩ := hfetch
  · rw [hfetch]
    exact hhost
  · rw [hfetch]
    exact placed_advanceTo hhost limit

end Fetch

end Agenda

namespace Agent

variable {χ : Type} [Shell χ] [HttpNetwork χ] {a a' : Agent χ} {o : Nat}

def withState (a : Agent χ) (w : World χ LocalEngine PanelClient ServerClient) : Agent χ :=
  { a with agenda := { a.agenda with state := w } }

/-- What can happen to an agent; the first reload is its start. -/
inductive Step (a : Agent χ) : Agent χ → Prop
  | elapse (limit : Instant) :
      Step a { a with agenda := a.agenda.advanceTo World.actions limit }
  | outside (host : Host χ) (signal : Signal) :
      Step a (a.withState { a.agenda.state with host, signal })
  | carry (o : Nat) (i : LiveInstance) (traffic : TrafficRegistry) (limiters : LimiterRegistry)
      (there : a.agenda.state.instances[o]? = some i)
      (tags : limiters.keys = i.core.limiters.keys) :
      Step a (a.withState (a.agenda.state.setInstance o
        { i with core := { i.core with traffic, limiters } }))
  | announce (due : Instant) (j o : Nat) (reply : ServerReply)
      (there : a.agenda.key? j = some (.monitor o)) :
      Step a { a with agenda := a.agenda.setTimer due (.resume j (.fetched (.ok (some reply)))) }
  | reload {a' : Agent χ} (returns : a.reload = (a', .ok ())) : Step a a'

def Runs : Agent χ → Agent χ → Prop := Relation.ReflTransGen Step

/-- It had nothing but its machine in the beginning. -/
def Reachable (a : Agent χ) : Prop :=
  ∃ host path, Runs { agenda := { state := { host } }, configPath := path } a

structure Sound (a : Agent χ) : Prop where
  placed : a.agenda.Placed
  still : a.running = none → a.agenda.Still
  serves : ∀ o, a.running = some o → a.agenda.Serves o

omit [Shell χ] [HttpNetwork χ] in
theorem sound_init (host : Host χ) (path : String) :
    Sound { agenda := { state := { host } }, configPath := path } where
  placed := fun _ _ h => by cases h
  still := fun _ _ => ⟨fun _ h => (by cases h), fun _ _ h => (by cases h), fun _ h => (by cases h)⟩
  serves := fun _ h => by cases h

namespace Sound

omit [Shell χ] [HttpNetwork χ] in
theorem rests (h : a.Sound) (ho : ∀ r, a.running = some r → r = o) : a.agenda.Rests o := by
  cases hr : a.running with
  | none => exact h.still hr o
  | some r => exact ho r hr ▸ (h.serves r hr).rests

omit [Shell χ] [HttpNetwork χ] in
theorem shut (h : a.Sound) (ho : a.running ≠ some o) {i : LiveInstance}
    (hi : a.agenda.state.instances[o]? = some i) : i.core.engine = { closed := true } := by
  cases hr : a.running with
  | none => exact (h.still hr).shut hi
  | some r =>
    rw [hr] at ho
    exact (h.serves r hr).rests.engines o i hi fun hor => ho (congrArg some hor.symm)

omit [Shell χ] [HttpNetwork χ] in
theorem closed (h : a.Sound) {e : Scheduled Job} (he : e ∈ a.agenda.tasks)
    (ho : a.running ≠ some e.key.owner) : e.task.Closed := by
  cases hr : a.running with
  | none => exact (h.still hr).closed he
  | some r =>
    rw [hr] at ho
    exact (h.serves r hr).rests.tasks e he fun hor => ho (congrArg some hor.symm)

omit [Shell χ] [HttpNetwork χ] in
theorem of_works (h : a.Sound) {w : World χ LocalEngine PanelClient ServerClient}
    (hw : a.agenda.state.Works w)
    (hstands : ∀ o posts crew, a.agenda.state.Stands o posts (·.Houses crew) →
      w.Stands o posts (·.Houses crew)) :
    Sound (a.withState w) where
  placed := by
    intro j k hk
    have hthere := h.placed j k hk
    exact (hw.isSome k.owner).trans hthere
  still := fun hr o => (h.still hr o).of_works hw
  serves := fun o hr => (h.serves o hr).of_works hw (hstands o)

theorem elapse (h : a.Sound) (limit : Instant) :
    Sound { a with agenda := a.agenda.advanceTo World.actions limit } where
  placed := Agenda.placed_advanceTo h.placed limit
  still := fun hr o => (Agenda.advanceTo_spares (h.still hr o) limit).2
  serves := fun o hr => (h.serves o hr).advanceTo limit

omit [Shell χ] [HttpNetwork χ] in
theorem announce (h : a.Sound) (due : Instant) {j : Nat}
    (there : a.agenda.key? j = some (.monitor o)) (r : InFlight) :
    Sound { a with agenda := a.agenda.setTimer due (.resume j r) } where
  placed := h.placed
  still := fun hr o => (h.still hr o).announce due (by rw [there]; rfl)
  serves := fun o hr => (h.serves o hr).announce due there r

omit [Shell χ] [HttpNetwork χ] in
theorem works_carry {w : World χ LocalEngine PanelClient ServerClient} {i : LiveInstance}
    (there : w.instances[o]? = some i) (traffic : TrafficRegistry) (limiters : LimiterRegistry) :
    w.Works (w.setInstance o { i with core := { i.core with traffic, limiters } }) := by
  obtain ⟨hlt, -⟩ := List.getElem?_eq_some_iff.1 there
  exact .of_instance there (List.getElem?_set_self hlt) ⟨⟨rfl, fun _ => rfl⟩, rfl, rfl⟩
    fun j hj => List.getElem?_set_ne (Ne.symm hj)

omit [Shell χ] [HttpNetwork χ] in
theorem carry (h : a.Sound) {i : LiveInstance} {traffic : TrafficRegistry}
    {limiters : LimiterRegistry} (there : a.agenda.state.instances[o]? = some i)
    (tags : limiters.keys = i.core.limiters.keys) :
    Sound (a.withState (a.agenda.state.setInstance o
      { i with core := { i.core with traffic, limiters } })) := by
  obtain ⟨hlt, -⟩ := List.getElem?_eq_some_iff.1 there
  refine h.of_works (works_carry there traffic limiters) fun o' posts crew hstands => ?_
  by_cases ho : o = o'
  · subst ho
    obtain ⟨i', hi', hposts, hhouses⟩ := hstands
    obtain rfl : i = i' := Option.some.inj (there.symm.trans hi')
    exact ⟨_, List.getElem?_set_self hlt, hposts, hhouses.isOpen, hhouses.listener,
      fun t ht => hhouses.limiters t (tags ▸ ht), hhouses.uids⟩
  · exact hstands.of_instance (List.getElem?_set_ne ho)

theorem close (h : a.Sound) : a.close.running = none ∧ a.close.agenda.Still ∧
    a.close.agenda.Placed ∧ (∀ o, a.agenda.Past a.close.agenda o) ∧
      a.agenda.Heeds a.close.agenda := by
  unfold Agent.close
  split
  next hr => exact ⟨hr, h.still hr, h.placed, fun o => .refl _ o, .refl _⟩
  next o hr =>
    have hserves := h.serves o hr
    obtain ⟨hspares, hheeds, -⟩ := (Agenda.Serves.close_stirs a.agenda o).spares hserves.rests
    have hthere : ((((a.agenda.closeFleet o).1.closeCore o).1.state.instances)[o]?).isSome := by
      obtain ⟨i, hi, -⟩ := hserves.watched
      rw [Agenda.Serves.present_close, hi]
      rfl
    refine ⟨rfl, hserves.still_close, hspares.placed h.placed hthere, fun o' => ?_, hheeds⟩
    exact ⟨Agenda.Serves.present_close .., fun j k hk _ =>
      ⟨hspares.kept j k hk, Agenda.Serves.begun_close ..⟩⟩

end Sound

section Build

structure Built (a a' : Agent χ) (owner : Nat) (r : Except Fault Nat) : Prop where
  idle : a'.running = a.running
  new : a.agenda.state.instances[owner]? = none
  launched : a'.agenda.Launched owner r
  spares : a.agenda.Spares a'.agenda owner
  heeds : a.agenda.Heeds a'.agenda
  placed : a'.agenda.Placed

theorem build_built {r : Except Fault Nat} (still : a.agenda.Still) (placed : a.agenda.Placed)
    (h : a.build = (a', r)) (returns : ∀ o, r ≠ .error (.overflow o)) :
    ∃ owner, a.Built a' owner r := by
  unfold build at h
  split at h
  next f _ =>
    obtain ⟨rfl, rfl⟩ := Prod.mk.inj h
    exact ⟨_, rfl, List.getElem?_eq_none (Nat.le_refl _), .closed still f, .refl .., .refl _, placed⟩
  next config _ =>
    split at h
    next e _ =>
      obtain ⟨rfl, rfl⟩ := Prod.mk.inj h
      exact ⟨_, rfl, List.getElem?_eq_none (Nat.le_refl _), .closed still _, .refl .., .refl _, placed⟩
    have hstill : Agenda.Still (a.agenda.fetchServer (.ofSettings config.api)).1 :=
      fun o => Agenda.fetchServer_rests (still o) _
    have hplaced := Agenda.fetchServer_placed placed (.ofSettings config.api)
    have hworks := a.agenda.fetchServer_works (.ofSettings config.api)
    have hstirs (owner : Nat) (unwatched : a.agenda.Unwatched owner) :=
      (Agenda.fetchServer_stirs unwatched (.ofSettings config.api)).spares (still owner)
    rcases hfetch : a.agenda.fetchServer (.ofSettings config.api) with ⟨s₁, client, reply⟩
    rw [hfetch] at h hstill hplaced hworks hstirs
    -- The number is taken after the fetch, and no instance was added while it lasted.
    have hnew : a.agenda.state.instances[s₁.state.instances.length]? = none := by
      rw [← Option.isNone_iff_eq_none, ← Option.isSome_eq_false_iff, ← hworks.isSome,
        List.getElem?_eq_none (Nat.le_refl _)]
      rfl
    obtain ⟨hspares, hheeds, -⟩ := hstirs _ (placed.unwatched hnew)
    dsimp only at h
    split at h
    next f _ =>
      obtain ⟨rfl, rfl⟩ := Prod.mk.inj h
      exact ⟨_, rfl, hnew, .closed hstill f, hspares, hheeds, hplaced⟩
    next data _ =>
      split at h
      next f _ =>
        obtain ⟨rfl, rfl⟩ := Prod.mk.inj h
        exact ⟨_, rfl, hnew, .closed hstill f, hspares, hheeds, hplaced⟩
      next i hi =>
        rcases hlaunch : s₁.launch client data i with ⟨s₂, r₂⟩
        rw [hlaunch] at h
        obtain ⟨rfl, rfl⟩ := Prod.mk.inj h
        obtain ⟨hlaunched, hspares', hheeds', hplaced'⟩ :=
          Agenda.launch_launched hstill hplaced (Agenda.new_ofServer hi) hlaunch returns
        exact ⟨_, rfl, hnew, hlaunched, hspares.trans hspares', hheeds.trans hheeds', hplaced'⟩

end Build

section Reload

structure Reloaded (a a' : Agent χ) : Prop where
  sound : a'.Sound
  past : ∀ o, (a.agenda.state.instances[o]?).isSome →
    a'.running ≠ some o ∧ a.agenda.Past a'.agenda o
  lively : ∀ o, a'.running = some o → a'.agenda.Lively o
  heeds : a.agenda.Heeds a'.agenda

omit [Shell χ] [HttpNetwork χ] in
theorem abandon_of_idle (idle : a.running = none) : a.abandon = a := by
  obtain ⟨agenda, configPath, running⟩ := a
  cases idle
  rfl

theorem reload_reloaded (h : a.Sound) (returns : a.reload = (a', .ok ())) : a.Reloaded a' := by
  obtain ⟨hidle, hstill, hplaced, hpast, hheeds⟩ := h.close
  unfold reload boot at returns
  rw [abandon_of_idle hidle] at returns
  -- What is built has a number of its own, and past instances only ever see other numbers at work.
  have hothers {b : Agent χ} {owner : Nat} {r : Except Fault Nat} (hb : a.close.Built b owner r)
      (o : Nat) (there : (a.agenda.state.instances[o]?).isSome) :
      o ≠ owner ∧ a.agenda.Past b.agenda o := by
    have hne : o ≠ owner := by
      rintro rfl
      rw [← (hpast o).present, hb.new] at there
      cases there
    exact ⟨hne, (hpast o).trans (hb.spares.past hne)⟩
  rcases hbuild : a.close.build with ⟨b, (f | o) | owner⟩
  · rw [hbuild] at returns
    obtain ⟨rfl, -⟩ := Prod.mk.inj returns
    obtain ⟨owner, hb⟩ := build_built hstill hplaced hbuild nofun
    have hnone : b.running = none := hb.idle.trans hidle
    refine ⟨⟨hb.placed, fun _ => ?_, fun o ho => ?_⟩, fun o there => ⟨?_, (hothers hb o there).2⟩,
      fun o ho => ?_, hheeds.trans hb.heeds⟩
    · cases hb.launched with
      | closed still => exact still
    · rw [hnone] at ho
      cases ho
    · rw [hnone]
      exact nofun
    · rw [hnone] at ho
      cases ho
  · rw [hbuild] at returns
    cases (Prod.mk.inj returns).2
  · rw [hbuild] at returns
    obtain ⟨rfl, -⟩ := Prod.mk.inj returns
    obtain ⟨owner', hb⟩ := build_built hstill hplaced hbuild nofun
    cases hb.launched with
    | serves serves lively =>
      refine ⟨⟨hb.placed, nofun, fun o ho => ?_⟩, fun o there => ?_, fun o ho => ?_,
        hheeds.trans hb.heeds⟩
      · obtain rfl := Option.some.inj ho
        exact serves
      · obtain ⟨hne, hpast'⟩ := hothers hb o there
        exact ⟨fun ho => hne (Option.some.inj ho).symm, hpast'⟩
      · obtain rfl := Option.some.inj ho
        exact lively

end Reload

theorem Step.sound (h : Step a a') (hs : a.Sound) : a'.Sound := by
  cases h with
  | elapse limit => exact hs.elapse limit
  | outside host signal => exact hs.of_works (.of_instances rfl) fun _ _ _ h => h.of_instance rfl
  | carry o i traffic limiters there tags => exact hs.carry there tags
  | announce due j o reply there => exact hs.announce due there _
  | reload returns => exact (reload_reloaded hs returns).sound

theorem Step.past (h : Step a a') (hs : a.Sound) (ho : a.running ≠ some o)
    (there : (a.agenda.state.instances[o]?).isSome) :
    a'.running ≠ some o ∧ a.agenda.Past a'.agenda o := by
  cases h with
  | elapse limit =>
    -- Where nothing runs, any other number will do.
    obtain ⟨r, hr, hne⟩ : ∃ r, (∀ r', a.running = some r' → r' = r) ∧ o ≠ r := by
      cases hrunning : a.running with
      | none => exact ⟨o + 1, nofun, Nat.ne_of_lt (Nat.lt_succ_self o)⟩
      | some r => exact ⟨r, fun r' hr' => (Option.some.inj hr').symm, fun h => ho (h ▸ hrunning)⟩
    obtain ⟨hspares, -⟩ := Agenda.advanceTo_spares (hs.rests hr) limit
    exact ⟨ho, hspares.past hne⟩
  | outside host signal => exact ⟨ho, rfl, fun _ _ hk _ => ⟨hk, rfl⟩⟩
  | carry o' i traffic limiters there' tags =>
    exact ⟨ho, (Sound.works_carry there' traffic limiters).isSome o, fun _ _ hk _ => ⟨hk, rfl⟩⟩
  | announce due j o' reply there' => exact ⟨ho, rfl, fun _ _ hk _ => ⟨hk, rfl⟩⟩
  | reload returns => exact (reload_reloaded hs returns).past o there

theorem Runs.past (h : Runs a a') (hs : a.Sound) (ho : a.running ≠ some o)
    (there : (a.agenda.state.instances[o]?).isSome) :
    a'.Sound ∧ a'.running ≠ some o ∧ a.agenda.Past a'.agenda o := by
  induction h with
  | refl => exact ⟨hs, ho, .refl _ o⟩
  | tail _ hstep ih =>
    obtain ⟨hsound, hrunning, hpast⟩ := ih
    obtain ⟨hrunning', hpast'⟩ := hstep.past hsound hrunning (hpast.present.trans there)
    exact ⟨hstep.sound hsound, hrunning', hpast.trans hpast'⟩

theorem Reachable.sound (h : a.Reachable) : a.Sound := by
  obtain ⟨host, path, hruns⟩ := h
  induction hruns with
  | refl => exact sound_init host path
  | tail _ hstep ih => exact hstep.sound ih

/--
A reload that returns leaves one instance or none, whatever the machine holds and whatever the panel
says and when. The instance that ran is shut for good, and none of its tasks has begun a run since, nor
ever will. Whatever does not run has no listener and no task that could begin a run. What runs is new;
its poll has just begun to wait for its first tick, and each of its nodes was started. If a request to
reload was pending before, it is pending still; if someone asked for a reload on the way, a request is
pending, too; and otherwise none has come.
-/
theorem reload_leaves_one_or_none (h : a.Reachable) (returns : a.reload = (a', .ok ())) :
    (∀ o, a.running = some o → ∀ later, Runs a' later → later.running ≠ some o ∧
      (∃ i, later.agenda.state.instances[o]? = some i ∧ i.core.engine.closed = true ∧
        i.core.engine.entries = ∅) ∧
      ∀ j k, a.agenda.key? j = some k → k.owner = o →
        (later.agenda.task? j).map (·.begun) = (a.agenda.task? j).map (·.begun)) ∧
    (∀ o i, a'.agenda.state.instances[o]? = some i → a'.running ≠ some o →
      i.core.engine.entries = ∅) ∧
    (∀ e ∈ a'.agenda.tasks, a'.running ≠ some e.key.owner → e.task.Closed) ∧
    (∀ o, a'.running = some o →
      a.agenda.state.instances[o]? = none ∧ a'.agenda.Lively o) ∧
    let before := a.agenda.state.signal
    let after := a'.agenda.state.signal
    a'.agenda.tidings.Sublist a.agenda.tidings ∧ (before.pending = true → after = before) ∧
      (a'.agenda.tidings ≠ a.agenda.tidings → before.hasReceiver = true → after.pending = true) ∧
      (a'.agenda.tidings = a.agenda.tidings → after = before) := by
  have hsound := h.sound
  have hreload := reload_reloaded hsound returns
  refine ⟨fun o ho later hruns => ?_, fun o i hi ho => ?_, fun e he ho => hreload.sound.closed he ho,
    fun o ho => ⟨?_, hreload.lively o ho⟩, ?_⟩
  · have hthere : (a.agenda.state.instances[o]?).isSome := by
      obtain ⟨i, hi, -⟩ := (hsound.serves o ho).watched
      rw [hi]
      rfl
    obtain ⟨hrunning, hpast⟩ := hreload.past o hthere
    obtain ⟨hlater, hrunning', hpast'⟩ :=
      hruns.past hreload.sound hrunning (hpast.present.trans hthere)
    have hall := hpast.trans hpast'
    obtain ⟨i, hi⟩ := Option.isSome_iff_exists.1 (hall.present.trans hthere)
    have hshut := hlater.shut hrunning' hi
    exact ⟨hrunning', ⟨i, hi, by rw [hshut], by rw [hshut]⟩,
      fun j k hk hko => (hall.tasks j k hk hko).2⟩
  · rw [hreload.sound.shut ho hi]
  · by_contra hthere
    have hsome : (a.agenda.state.instances[o]?).isSome := Option.isSome_iff_ne_none.2 hthere
    exact (hreload.past o hsome).1 ho
  · obtain ⟨hsublist, hquiet, hheard⟩ := hreload.heeds
    refine ⟨hsublist, fun hpending => ?_, fun hleft hreceiver => ?_, fun hsame => ?_⟩
    · by_cases hlength : a'.agenda.tidings.length = a.agenda.tidings.length
      · exact hquiet hlength
      · rw [hheard hlength]
        exact Signal.raise_of_pending hpending
    · rw [hheard fun hlength => hleft (hsublist.eq_of_length hlength)]
      exact Signal.pending_raise hreceiver
    · exact hquiet (congrArg List.length hsame)

section NoFile

omit [Shell χ] [HttpNetwork χ] in
theorem host_closeNodes (s : LiveAgenda χ) (owner : Nat) (numbers : List Nat) :
    (s.closeNodes owner numbers).1.state.host = s.state.host := by
  induction numbers generalizing s with
  | nil => rfl
  | cons n numbers ih =>
    refine (ih (s.closeNode owner n).1).trans ?_
    simp only [Agenda.closeNode, Agenda.visit, World.visit]
    split
    · rw [(s.closeTasks_frame _).1]
    next p hplace =>
      obtain ⟨i, -, -, hp⟩ := World.place?_eq_some hplace
      simp only [World.putPlace]
      rw [hp, (s.closeTasks_frame _).1]

omit [Shell χ] [HttpNetwork χ] in
theorem host_closeCore (s : LiveAgenda χ) (owner : Nat) :
    (s.closeCore owner).1.state.host = s.state.host := by
  unfold Agenda.closeCore
  split
  · rfl
  · simp only [World.setInstance, (s.closeTasks_frame _).1]

omit [Shell χ] [HttpNetwork χ] in
theorem close_frame (a : Agent χ) : a.close.agenda.state.host = a.agenda.state.host ∧
    a.close.configPath = a.configPath := by
  unfold close
  split
  · exact ⟨rfl, rfl⟩
  next o _ =>
    refine ⟨(host_closeCore ..).trans ?_, rfl⟩
    rw [Agenda.closeFleet_fst, host_closeNodes]

theorem reload_of_load_error {f : Failure} (h : a.Sound)
    (hload : Config.load a.agenda.state.host.files a.configPath = .error f) :
    a.reload = (a.close, .ok ()) := by
  obtain ⟨hhost, hpath⟩ := a.close_frame
  rw [← hhost, ← hpath] at hload
  unfold reload boot
  rw [abandon_of_idle h.close.1]
  unfold build
  rw [hload]

structure Pages where
  pages : List (String × Json) := []

instance : HttpNetwork Pages where
  send r _ h :=
    let text := ((h.outside.pages.lookup r.url).map Json.write).getD ""
    (h, { answer := some { status := 200, body := some text.toUTF8.toList } })

instance : Shell Pages where
  execute _ h := (h, .notStarted .notFound)

def onePanel : Pages where
  pages :=
    [("http://p/v2/server/1", .object [("data", .object [("protocols", .list [.object
        [("type", .ofText "vmess"), ("enable", .bool true), ("transport", .ofText "tcp")]])])]),
      ("http://p/v1/server/user", .object [("users", .list [.object
        [("id", .ofNat 7), ("uuid", .ofText "alice")]])])]

def onePanelConfig : String :=
  "[api]\napi_host = \"http://p\"\nserver_id = 1\nsecret_key = \"k\"\n"

def beforeBoot : Agent Pages where
  agenda := { state := { host := {
    files := { nodes := Table.ofList [(["c"], .file onePanelConfig)] }, outside := onePanel } } }
  configPath := "c"

theorem splitOn_c : "c".splitOn "/" = ["c"] := by
  rw [String.splitOn, if_neg (by decide +kernel)]
  rw [String.splitOnAux, if_neg (by decide +kernel), if_neg (by decide +kernel)]
  rw [String.splitOnAux, if_pos (by decide +kernel)]
  decide +kernel

theorem beforeBoot_reload :
    beforeBoot.reload.2 = .ok () ∧ beforeBoot.reload.1.running = some 0 ∧
      beforeBoot.reload.1.configPath = "c" ∧
      beforeBoot.reload.1.agenda.tasks.map (·.key) =
        [.node 0 0 .sync, .node 0 0 .report, .monitor 0] := by
  have hread : beforeBoot.agenda.state.host.files.read "c" = .ok onePanelConfig := by
    simp only [FileTree.read, FileTree.at?, splitOn_c]
    decide +kernel
  have htext : Config.ofText onePanelConfig =
      .ok { api := { host := "http://p", serverId := 1, secretKey := "k" } } := by decide +kernel
  have hload : Config.load beforeBoot.close.abandon.agenda.state.host.files
      beforeBoot.close.abandon.configPath =
        .ok { api := { host := "http://p", serverId := 1, secretKey := "k" } } := by
    change Config.load beforeBoot.agenda.state.host.files "c" = _
    simp only [Config.load, hread, htext, Except.mapError]
  unfold reload boot build
  rw [hload]
  decide +kernel

theorem nothing_left_without_file :
    let a : Agent Pages := beforeBoot.reload.1.withState
      { beforeBoot.reload.1.agenda.state with
        host := { outside := {} }, signal := { pending := true } }
    a.running = some 0 ∧ a.reload.1.running = none ∧
      a.reload.1.agenda.state.signal = { pending := true } ∧
      ∀ later, Runs a.reload.1 later →
        ∃ i, later.agenda.state.instances[0]? = some i ∧ i.core.engine.entries = ∅ ∧
          ∀ j < 3, (later.agenda.task? j).map (·.begun) = (a.agenda.task? j).map (·.begun) := by
  intro a
  obtain ⟨hok, hrunning, hpath, hkeys⟩ := beforeBoot_reload
  have hreachable : a.Reachable :=
    ⟨_, "c", .tail (.single (.reload (a := beforeBoot) (Prod.ext rfl hok))) (.outside ..)⟩
  have hload : Config.load a.agenda.state.host.files a.configPath =
      .error ⟨[.readingConfig "c"], .file .notFound⟩ := by
    change Config.load {} beforeBoot.reload.1.configPath = _
    rw [hpath]
    simp only [Config.load, FileTree.read, FileTree.at?, splitOn_c]
    decide +kernel
  have hreload := reload_of_load_error hreachable.sound hload
  obtain ⟨hold, -, -, -, -, hpending, -⟩ := reload_leaves_one_or_none hreachable hreload
  have hidle : a.close.running = none := hreachable.sound.close.1
  rw [hreload]
  refine ⟨hrunning, hidle, hpending rfl, fun later hruns => ?_⟩
  obtain ⟨-, ⟨i, hi, -, hentries⟩, hbegun⟩ := hold 0 hrunning later hruns
  refine ⟨i, hi, hentries, fun j hj => ?_⟩
  have hkey : a.agenda.key? j = [Job.node 0 0 .sync, .node 0 0 .report, .monitor 0][j]? := by
    rw [← hkeys, List.getElem?_map]
    rfl
  obtain rfl | rfl | rfl : j = 0 ∨ j = 1 ∨ j = 2 := by omega
  all_goals exact hbegun _ _ hkey rfl

end NoFile

end Agent

end NodeAgent
