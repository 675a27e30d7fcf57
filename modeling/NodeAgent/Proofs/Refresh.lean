import NodeAgent.Offline
import NodeAgent.Proofs.Upkeep

/-!
A sync to which the panel sends no list. Whatever it says instead, and whatever others do while the
answers are on their way, the sync has asked twice and taken note of the devices that are online
elsewhere, and it has done nothing more.
-/

namespace NodeAgent

theorem PanelError.lasts_iff {e : PanelError} : e.isTransient = false ↔
    (∀ url text, e ≠ .transport url text) ∧
      ∀ url code body, e = .status url code body → code < 500 := by
  cases e with
  | transport url text => exact iff_of_false nofun fun h => h.1 url text rfl
  | status url code body =>
    have hlasts : (status url code body).isTransient = false ↔ code < 500 :=
      decide_eq_false_iff_not.trans UInt16.not_le
    rw [hlasts]
    constructor
    · intro hcode
      refine ⟨nofun, fun _ _ _ he => ?_⟩
      cases he
      exact hcode
    · rintro ⟨-, hcode⟩
      exact hcode url code body rfl
  | decode url text => exact iff_of_true rfl ⟨nofun, nofun⟩
  | unsupportedKind text => exact iff_of_true rfl ⟨nofun, nofun⟩

theorem Session.afterUsers_of_none {ε : Type} [Engine ε]
    {a : Except PanelError (Option (List User))} (h : ∀ l, a ≠ .ok (some l)) (s : Session)
    (c : Core ε) :
    ∃ r, s.afterUsers c a = ⟨s, c, .finished r⟩ ∧
      ∀ f, r = .error f ↔
        ∃ e, a = .error e ∧ e.isTransient = false ∧ f = .failure (s.fetchFailure e) := by
  rcases a with e | _ | l
  · cases htransient : e.isTransient with
    | true =>
      refine ⟨.ok (), by rw [afterUsers, htransient]; rfl, fun f => ⟨nofun, ?_⟩⟩
      rintro ⟨_, he, hlasts, -⟩
      cases he
      rw [htransient] at hlasts
      cases hlasts
    | false =>
      refine ⟨.error (.failure (s.fetchFailure e)), by rw [afterUsers, htransient]; rfl,
        fun f => ⟨fun hf => ⟨e, rfl, htransient, (Except.error.inj hf).symm⟩, ?_⟩⟩
      rintro ⟨_, he, -, rfl⟩
      cases he
      rfl
  · refine ⟨.ok (), rfl, fun f => ⟨nofun, ?_⟩⟩
    rintro ⟨_, he, -⟩
    cases he
  · exact absurd rfl (h l)

namespace Place

variable {χ ε π : Type} [Engine ε] [Shell χ] [PanelApi π χ]

theorem rank_pause_resume_lt (p : Place χ ε π) (stage : Stage) (a : stage.request.Answer) :
    (p.resume stage a).2.rank < stage.rank := by
  obtain ⟨-, -, hwait⟩ := p.resume_frame stage a
  cases hpause : (p.resume stage a).2 with
  | finished r => exact stage.rank_pos
  | wait d next a' => exact (hwait d next a' hpause).2

/-- The place and the result at the end of a run. Others act whenever the run waits. -/
def through (others : Stage → Place χ ε π → Place χ ε π) (p : Place χ ε π) :
    Pause → Place χ ε π × Except Fault Unit
  | .finished r => (p, r)
  | .wait _ stage a =>
    let r := (others stage p).resume stage a
    r.1.through others r.2
  termination_by pause => pause.rank
  decreasing_by exact rank_pause_resume_lt ..

def hear (others : Stage → Place χ ε π → Place χ ε π) (p : Place χ ε π) (stage : Stage) :
    Place χ ε π × stage.request.Answer :=
  let (p, reply) := p.ask stage.request
  (if reply.delay = 0 then p else others stage p, reply.answer)

def Elapses (others : Stage → Place χ ε π → Place χ ε π) : Prop :=
  ∀ stage q, ∃ now, others stage q = { q with core := { q.core with now } }

variable (others : Stage → Place χ ε π → Place χ ε π) (p : Place χ ε π)

theorem through_ask (stage : Stage) :
    (p.pursue (.ask stage)).1.through others (p.pursue (.ask stage)).2 =
      let r := (p.hear others stage).1.resume stage (p.hear others stage).2
      r.1.through others r.2 := by
  rw [pursue, hear]
  rcases p.ask stage.request with ⟨p', reply⟩
  by_cases hdelay : reply.delay = 0
  · simp only [if_pos hdelay]
    rfl
  · simp only [if_neg hdelay]
    rw [through]

def refreshed : Place χ ε π :=
  let (p, alive) := p.hear others .alive
  { p with core := p.core.setAlive p.node.session.tag (Session.aliveOr alive) }

theorem resume_users_of_none {a : Except PanelError (Option (List User))}
    (h : ∀ l, a ≠ .ok (some l)) :
    ∃ r, p.resume .users a = (p, .finished r) ∧
      ∀ f, r = .error f ↔ ∃ e, a = .error e ∧ e.isTransient = false ∧
        f = .failure (p.node.session.fetchFailure e) := by
  obtain ⟨r, hafter, hfails⟩ := p.node.session.afterUsers_of_none h p.core
  refine ⟨r, ?_, hfails⟩
  simp only [resume, Session.resume, hafter]
  rw [pursue]
  rfl

theorem through_sync : (p.run .sync).1.through others (p.run .sync).2 =
    let r := ((p.refreshed others).hear others .users).1.resume .users
      ((p.refreshed others).hear others .users).2
    r.1.through others r.2 :=
  (p.through_ask others .alive).trans ((p.refreshed others).through_ask others .users)

omit [Engine ε] [Shell χ] in
theorem hear_of_elapses (h : Elapses others) (stage : Stage) :
    ∃ client host now, (p.hear others stage).1 =
      { p with
        node := { p.node with client }
        core := { p.core with
          journal := p.core.journal ++ [⟨p.core.now, .panel p.number stage.request⟩], now }
        host } := by
  rw [hear]
  by_cases hdelay : (p.ask stage.request).2.delay = 0
  · simp only [if_pos hdelay]
    exact ⟨_, _, p.core.now, rfl⟩
  · simp only [if_neg hdelay]
    obtain ⟨now, hnow⟩ := h stage (p.ask stage.request).1
    rw [hnow]
    exact ⟨_, _, now, rfl⟩

omit [Engine ε] [Shell χ] in
theorem hear_users_of_elapses (h : Elapses others) :
    ∃ client host now asked, ((p.refreshed others).hear others .users).1 =
      { p with
        node := { p.node with client }
        core := { p.core.setAlive p.node.session.tag (Session.aliveOr (p.hear others .alive).2) with
          journal := p.core.journal ++
            [⟨p.core.now, .panel p.number .alive⟩, ⟨asked, .panel p.number .users⟩], now }
        host } := by
  obtain ⟨client, host, asked, hfirst⟩ := p.hear_of_elapses others h .alive
  obtain ⟨client', host', now, hsecond⟩ := (p.refreshed others).hear_of_elapses others h .users
  have hrefreshed : p.refreshed others =
      { (p.hear others .alive).1 with
        core := (p.hear others .alive).1.core.setAlive (p.hear others .alive).1.node.session.tag
          (Session.aliveOr (p.hear others .alive).2) } := rfl
  rw [hsecond, hrefreshed, hfirst]
  refine ⟨client', host', now, asked, ?_⟩
  simp only [Core.setAlive, List.append_assoc, List.cons_append, List.nil_append]

/--
A sync whose panel sends no list, with whatever others do as it waits: it asks for the devices
elsewhere, puts them in force and asks for the users, and then it is over. It fails exactly with an
error that will not go away by itself. If nothing but time passes meanwhile, the node keeps its
list, the core keeps everything but the alive devices of the node's limiter, and the journal has the
two questions and no call of the engine.
-/
theorem sync_without_list (h : ∀ l, ((p.refreshed others).hear others .users).2 ≠ .ok (some l)) :
    let alive := Session.aliveOr (p.hear others .alive).2
    let p' := ((p.refreshed others).hear others .users).1
    let a := ((p.refreshed others).hear others .users).2
    ∃ r, (p.run .sync).1.through others (p.run .sync).2 = (p', r) ∧
      (∀ f, r = .error f ↔ ∃ e, a = .error e ∧
        ((∀ url text, e ≠ .transport url text) ∧
          ∀ url code body, e = .status url code body → code < 500) ∧
        f = .failure (p'.node.session.fetchFailure e)) ∧
      (Elapses others →
        p'.node.session = p.node.session ∧
        (∃ asked, p'.core = { p.core with
          limiters := p'.core.limiters
          now := p'.core.now
          journal := p.core.journal ++
            [⟨p.core.now, .panel p.number .alive⟩, ⟨asked, .panel p.number .users⟩] }) ∧
        ∀ t, p'.core.limiters.find? t =
          if t = p.node.session.tag then (p.core.limiters.find? t).map fun l => { l with alive }
          else p.core.limiters.find? t) := by
  intro alive p' a
  obtain ⟨r, hends, hfails⟩ := p'.resume_users_of_none h
  refine ⟨r, ?_, fun f => ?_, fun htime => ?_⟩
  · rw [through_sync, hends, through]
  · rw [hfails]
    simp only [PanelError.lasts_iff, a]
  · obtain ⟨client, host, now, asked, hp'⟩ := p.hear_users_of_elapses others htime
    have hcore : p'.core = { p.core.setAlive p.node.session.tag alive with
        journal := p.core.journal ++
          [⟨p.core.now, .panel p.number .alive⟩, ⟨asked, .panel p.number .users⟩], now } :=
      congrArg Place.core hp'
    refine ⟨congrArg (·.node.session) hp', ⟨asked, ?_⟩, fun t => ?_⟩
    · rw [hcore]
      rfl
    · rw [hcore]
      exact Table.find?_modify ..

section Forbidden

def forbidden : PanelError := .status "http://p" 403 "forbidden"

/-- It refuses whatever it is asked, and takes five seconds to do so. -/
structure ForbiddingPanel where

instance : Addressed ForbiddingPanel := ⟨fun _ => "http://p"⟩

instance : PanelApi ForbiddingPanel Offline where
  ask
    | .users, _, c, h => ((c, h), ⟨.error forbidden, 5000⟩)
    | .alive, _, c, h => ((c, h), ⟨.error forbidden, 5000⟩)
    | .invalidate, _, c, h => ((c, h), ⟨(), 5000⟩)
    | .traffic _, _, c, h => ((c, h), ⟨.error forbidden, 5000⟩)
    | .online _, _, c, h => ((c, h), ⟨.error forbidden, 5000⟩)
    | .status, _, c, h => ((c, h), ⟨.error forbidden, 5000⟩)

def alicePlace : Place Offline LocalEngine ForbiddingPanel :=
  (resume
    { number := 0
      node := Node.new ⟨⟩ { id := 1, kind := .shadowsocks }
      core := { engine := {} }
      host := { outside := {} } }
    (.firstAlive [⟨7, "alice", 0, 3⟩]) (.ok (Table.ofList [(7, 2)]))).1

theorem alice_kept_where_forbidden :
    let others (_ : Stage) (q : Place Offline LocalEngine ForbiddingPanel) :=
      { q with core := { q.core with now := q.core.now + 5000 } }
    let tag := alicePlace.node.session.tag
    ∃ p' asked, (alicePlace.run .sync).1.through others (alicePlace.run .sync).2 =
        (p', .error (.failure ⟨[.fetchingUsers tag], .panel forbidden⟩)) ∧
      p'.node.session.users = [⟨7, "alice", 0, 3⟩] ∧ p'.core.engine = alicePlace.core.engine ∧
      p'.core.journal = alicePlace.core.journal ++
        [⟨0, .panel 0 .alive⟩, ⟨asked, .panel 0 .users⟩] ∧
      ((alicePlace.core.limiters.find? tag).map fun l => l.alive.count 7) = some 2 ∧
      ((p'.core.limiters.find? tag).map fun l => l.alive.count 7) = some 0 := by
  intro others tag
  have hnone : ∀ l, ((alicePlace.refreshed others).hear others .users).2 ≠ .ok (some l) :=
    fun l => show (.error forbidden : Except PanelError (Option (List User))) ≠ _ from nofun
  obtain ⟨r, hends, hfails, hkept⟩ := alicePlace.sync_without_list others hnone
  obtain ⟨hsession, ⟨asked, hcore⟩, hlimiters⟩ := hkept fun _ q => ⟨q.core.now + 5000, rfl⟩
  have hr : r = .error (.failure ⟨[.fetchingUsers tag], .panel forbidden⟩) :=
    (hfails _).2 ⟨forbidden, rfl, ⟨nofun, fun _ _ _ h => by cases h; decide⟩, by rw [hsession]; rfl⟩
  have hnow : alicePlace.core.now = 0 := by decide +kernel
  have hnumber : alicePlace.number = 0 := by decide +kernel
  refine ⟨_, asked, hends.trans (by rw [hr]), ?_, ?_, ?_, by decide +kernel, ?_⟩
  · rw [hsession]
    decide +kernel
  · rw [hcore]
  · rw [hcore, hnow, hnumber]
  · rw [hlimiters, if_pos rfl]
    decide +kernel

end Forbidden

end Place

end NodeAgent
