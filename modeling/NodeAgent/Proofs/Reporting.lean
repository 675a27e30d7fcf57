import NodeAgent.Proofs.Slices
import NodeAgent.Proofs.Turns

/-!
A whole report: what it posts one after the other, and that it ends well. Whatever the panel
answers, and whatever has become of the core when an answer comes, traffic is posted if there is
any, then the devices that are online if there are any, then the status of the host. As only users
with traffic are reported, none of them counts as idle, and no device is left out.
-/

namespace NodeAgent

structure Answered (ε : Type) where
  core : Core ε
  answer : Except PanelError Unit

namespace Stage

def afterTraffic : List OnlineDevice → Stage
  | [] => .status
  | d :: r => .online (d :: r)

def ofReport (l : List UserTraffic) (online : List OnlineDevice) : List Stage :=
  (if l = [] then [] else [.traffic l]) ++
    (if online = [] then [] else [.online online]) ++ [.status]

end Stage

namespace Session

variable {ε : Type}

def AllActive (l : List UserTraffic) : Prop := ∀ t ∈ l, ∃ n, t.total = .ok n ∧ n ≠ 0

theorem stepsAfterTraffic_of_active (s : Session) (c : Core ε) {l : List UserTraffic}
    (h : AllActive l) :
    (s.stepsAfterTraffic c l).progress = .ask (.afterTraffic (c.onlineDevices s.tag).2) := by
  have hidle : (l.filter fun t => t.total.toOption == some 0) = [] := by
    refine List.filter_eq_nil_iff.2 fun t ht => ?_
    obtain ⟨n, hn, hpos⟩ := h t ht
    simp [hn, Except.toOption, hpos]
  rcases hd : c.onlineDevices s.tag with ⟨c', _ | ⟨d, r⟩⟩ <;> simp only [stepsAfterTraffic, hd]
  · rfl
  · have hall : ((d :: r).filter fun d => !([] : List Int).contains d.uid) = d :: r :=
      List.filter_eq_self.2 fun _ _ => rfl
    simp only [hidle, List.map_nil, hall]
    rfl

variable [Engine ε]

def answered? (s : Session) (stage : Stage) (r : Answered ε) : Option Progress :=
  match stage with
  | .traffic l => some (s.resume r.core (.traffic l) r.answer).progress
  | .online l => some (s.resume r.core (.online l) r.answer).progress
  | .status => some (s.resume r.core .status r.answer).progress
  | _ => none

/-- What a report posts that is at `progress`, and how it ends, as far as there are answers. -/
def conduct (s : Session) : Progress → List (Answered ε) → List Stage × Option (Except Fault Unit)
  | .finished r, _ => ([], some r)
  | .enroll _, _ => ([], none)
  | .ask stage, [] => ([stage], none)
  | .ask stage, r :: answers =>
    match s.answered? stage r with
    | none => ([stage], none)
    | some progress =>
      let (posts, result) := s.conduct progress answers
      (stage :: posts, result)

theorem conduct_finished (s : Session) (r : Except Fault Unit) (answers : List (Answered ε)) :
    s.conduct (.finished r) answers = ([], some r) := by
  rw [conduct]

theorem conduct_ask {s : Session} {stage : Stage} {r : Answered ε} {progress : Progress}
    (h : s.answered? stage r = some progress) (answers : List (Answered ε)) :
    s.conduct (.ask stage) (r :: answers) =
      (stage :: (s.conduct progress answers).1, (s.conduct progress answers).2) := by
  rw [conduct, h]

theorem conduct_status (s : Session) (r : Answered ε) (answers : List (Answered ε)) :
    s.conduct (.ask .status) (r :: answers) = ([.status], some (.ok ())) := by
  have hanswered : s.answered? .status r = some (.finished (.ok ())) := rfl
  rw [conduct_ask hanswered, conduct_finished]

theorem conduct_afterTraffic (s : Session) (online : List OnlineDevice) (r r' : Answered ε)
    (answers : List (Answered ε)) : s.conduct (.ask (.afterTraffic online)) (r :: r' :: answers) =
      (Stage.ofReport [] online, some (.ok ())) := by
  cases online with
  | nil => exact s.conduct_status r (r' :: answers)
  | cons d online =>
    have hanswered : s.answered? (.online (d :: online)) r = some (.ask .status) := rfl
    rw [Stage.afterTraffic, conduct_ask hanswered, conduct_status]
    rfl

theorem answered?_traffic (s : Session) {l : List UserTraffic} (h : AllActive l) (r : Answered ε) :
    s.answered? (.traffic l) r = some (.ask (.afterTraffic (r.core.onlineDevices s.tag).2)) :=
  congrArg some (s.stepsAfterTraffic_of_active r.core h)

end Session

namespace Core

variable {ε : Type} {c c' : Core ε} {tag : String} {threshold : UInt64}

theorem allActive_toReport (range : ∀ u, ((c.traffic.counter tag).tally u).InRange) :
    Session.AllActive ((c.toReport tag threshold).map Prod.snd) := by
  intro r hr
  obtain ⟨⟨user, r⟩, hentry, rfl⟩ := List.mem_map.1 hr
  obtain ⟨t, hfind, hover, -, hup, hdown⟩ := mem_toReport_iff.1 hentry
  have ht : t.InRange := by
    have hrange := range user
    rwa [TrafficCounter.tally, hfind] at hrange
  refine ⟨t.upload + t.download, ?_, fun hzero => ?_⟩
  · rw [UserTraffic.total, hup, hdown]
    exact ht.total_eq
  · have hpos := hover.pos
    rw [← ht.toNat_add, hzero] at hpos
    exact absurd hpos (Nat.lt_irrefl 0)

theorem Sliced.onlineDevices (h : Sliced c c' tag threshold) (node : String) :
    (c'.onlineDevices node).2 = (c.onlineDevices node).2 := by
  rw [h.frame, Core.onlineDevices, Core.onlineDevices]
  cases c.limiters.find? node <;> rfl

end Core

namespace Session

variable {ε : Type} (s : Session) (c : Core ε)

theorem stepsAfterTraffic_kept (l : List UserTraffic) : (s.stepsAfterTraffic c l).session = s ∧
    (s.stepsAfterTraffic c l).core.journal = c.journal ∧
    (s.stepsAfterTraffic c l).core.now = c.now := by
  have hdevices : (c.onlineDevices s.tag).1.journal = c.journal ∧
      (c.onlineDevices s.tag).1.now = c.now := by
    rw [Core.onlineDevices]
    split <;> exact ⟨rfl, rfl⟩
  rcases hd : c.onlineDevices s.tag with ⟨c', _ | ⟨d, r⟩⟩ <;> rw [hd] at hdevices <;>
    simp only [stepsAfterTraffic, hd]
  · exact ⟨trivial, hdevices⟩
  · exact ⟨trivial, hdevices⟩

theorem beginReport_kept : (s.beginReport c).session = s ∧
    (s.beginReport c).core.journal = c.journal ∧ (s.beginReport c).core.now = c.now := by
  have hslice : (c.trafficSlice s.tag s.info.reportThreshold).1.journal = c.journal ∧
      (c.trafficSlice s.tag s.info.reportThreshold).1.now = c.now := by
    rw [Core.trafficSlice]
    split
    · exact ⟨rfl, rfl⟩
    · split <;> exact ⟨rfl, rfl⟩
  rcases ht : c.trafficSlice s.tag s.info.reportThreshold with ⟨c', o | _ | ⟨t, l⟩⟩ <;>
    rw [ht] at hslice <;> simp only [beginReport, ht]
  · exact ⟨trivial, hslice⟩
  · obtain ⟨hsame, hkept, hclock⟩ := s.stepsAfterTraffic_kept c' []
    exact ⟨hsame, hkept.trans hslice.1, hclock.trans hslice.2⟩
  · exact ⟨trivial, hslice⟩

variable [Engine ε]

theorem resume_kept {stage : Stage} (a : stage.request.Answer) (h : stage.task? = some .report) :
    (s.resume c stage a).session = s ∧ (s.resume c stage a).core.journal = c.journal ∧
      (s.resume c stage a).core.now = c.now := by
  cases stage with
  | traffic l => exact s.stepsAfterTraffic_kept c l
  | online l => exact ⟨rfl, rfl, rfl⟩
  | status => exact ⟨rfl, rfl, rfl⟩
  | _ => cases h

theorem exists_answered {stage : Stage} (a : stage.request.Answer)
    (h : stage.task? = some .report) :
    ∃ r : Answered ε, s.answered? stage r = some (s.resume c stage a).progress := by
  cases stage with
  | traffic l => exact ⟨⟨c, a⟩, rfl⟩
  | online l => exact ⟨⟨c, a⟩, rfl⟩
  | status => exact ⟨⟨c, a⟩, rfl⟩
  | _ => cases h

end Session

def Pause.result? : Pause → Option (Except Fault Unit)
  | .finished r => some r
  | .wait .. => none

namespace Place

variable {χ ε π : Type} [Engine ε] [Shell χ] [PanelApi π χ]

theorem pursue_report (p : Place χ ε π) {progress : Progress} (h : progress.KeepsTo .report) :
    ∃ answers : List (Answered ε), let r := p.node.session.conduct progress answers
      (p.pursue progress).1.core.journal = p.core.journal ++
        r.1.map (fun stage => ⟨p.core.now, .panel p.number stage.request⟩) ∧
      (p.pursue progress).2.result? = r.2 := by
  -- on the rank of the request: what follows an answer has a smaller one
  induction hn : progress.rank using Nat.strongRecOn generalizing p progress with
  | ind n ih =>
    subst hn
    cases h with
    | finished r =>
      refine ⟨[], ?_⟩
      rw [pursue, Session.conduct_finished]
      exact ⟨(List.append_nil _).symm, rfl⟩
    | ask stage hstage =>
      rw [pursue]
      rcases hask : p.ask stage.request with ⟨p', reply⟩
      have hp' : p'.number = p.number ∧ p'.node.session = p.node.session ∧
          p'.core.now = p.core.now ∧ p'.core.journal =
            p.core.journal ++ [⟨p.core.now, .panel p.number stage.request⟩] := by
        rw [show p' = (p.ask stage.request).1 by rw [hask]]
        exact ⟨rfl, rfl, rfl, rfl⟩
      obtain ⟨hnumber, hsession, hnow, hjournal⟩ := hp'
      by_cases hdelay : reply.delay = 0
      · simp only [if_pos hdelay]
        obtain ⟨hsame, hkept, hclock⟩ :=
          p'.node.session.resume_kept p'.core reply.answer hstage
        obtain ⟨r, hr⟩ := p'.node.session.exists_answered p'.core reply.answer hstage
        obtain ⟨answers, hposts, hresult⟩ := ih _
          (Session.rank_resume_lt p'.node.session p'.core stage reply.answer)
          (p'.apply (p'.node.session.resume p'.core stage reply.answer))
          (p'.node.session.keepsTo_resume p'.core reply.answer hstage) rfl
        refine ⟨r :: answers, ?_⟩
        rw [← hsession, Session.conduct_ask hr]
        simp only [apply, hsame, hkept, hclock, hnumber, hnow, hjournal] at hposts hresult ⊢
        refine ⟨?_, hresult⟩
        rw [hposts, List.append_assoc]
        rfl
      · simp only [if_neg hdelay]
        refine ⟨[], ?_⟩
        rw [Session.conduct]
        exact ⟨hjournal, rfl⟩

theorem run_report (p : Place χ ε π) :
    ∃ answers : List (Answered ε),
      let r := p.node.session.conduct (p.node.session.beginReport p.core).progress answers
      (p.run .report).1.core.journal = p.core.journal ++
        r.1.map (fun stage => ⟨p.core.now, .panel p.number stage.request⟩) ∧
      (p.run .report).2.result? = r.2 := by
  obtain ⟨hsession, hjournal, hnow⟩ := p.node.session.beginReport_kept p.core
  obtain ⟨answers, hposts, hresult⟩ := (p.apply (p.node.session.beginReport p.core)).pursue_report
    (p.node.session.keepsTo_beginReport p.core)
  simp only [apply, hsession, hjournal, hnow] at hposts hresult
  refine ⟨answers, ?_, ?_⟩
  · simp only [run, apply, hsession]
    exact hposts
  · simp only [run, apply, hsession]
    exact hresult

end Place

namespace Session

variable {ε : Type} [Engine ε]

/--
A report with totals in range takes the traffic of the node, and posts it if there is any; it posts
the devices that are online when this is through, all of them and if there are any; and it posts one
status. Once each post is answered, be it with success or not, it has ended well.
-/
theorem report_posts_all (s : Session) (c : Core ε)
    (range : ∀ user, ((c.traffic.counter s.tag).tally user).InRange) :
    ∃ c' l, c.trafficSlice s.tag s.info.reportThreshold = (c', .ok l) ∧ AllActive l ∧
      ∀ r₁ r₂ r₃ : Answered ε,
        let online := ((if l = [] then c else r₁.core).onlineDevices s.tag).2
        s.conduct (s.beginReport c).progress [r₁, r₂, r₃] =
          (Stage.ofReport l online, some (.ok ())) := by
  obtain ⟨c', hslice, hsliced, -⟩ := Core.exists_sliced range s.info.reportThreshold
  have hactive : AllActive ((c.toReport s.tag s.info.reportThreshold).map Prod.snd) :=
    Core.allActive_toReport range
  generalize (c.toReport s.tag s.info.reportThreshold).map Prod.snd = l at hslice hactive
  refine ⟨c', l, hslice, hactive, fun r₁ r₂ r₃ => ?_⟩
  intro online
  cases l with
  | nil =>
    have hbegins : (s.beginReport c).progress = .ask (.afterTraffic online) := by
      rw [beginReport, hslice]
      refine (s.stepsAfterTraffic_of_active c' hactive).trans ?_
      rw [hsliced.onlineDevices]
      rfl
    rw [hbegins, conduct_afterTraffic]
  | cons t l =>
    have hbegins : (s.beginReport c).progress = .ask (.traffic (t :: l)) := by
      rw [beginReport, hslice]
    rw [hbegins, conduct_ask (s.answered?_traffic hactive r₁), conduct_afterTraffic]
    rfl

section Refused

def aliceAt (ip : String) : Core LocalEngine where
  engine := {}
  traffic := Table.ofList [("n", Table.ofList [("n|alice", ⟨1500, 500⟩), ("n|bob", {})])]
  uids := Table.ofList [("n|alice", 7), ("n|bob", 8)]
  limiters := Table.ofList [("n", {
    tag := "n"
    defaults := {}
    users := Table.ofList [("n|alice", ⟨7, 0, none⟩)]
    online := Table.ofList [("n|alice", Table.ofList [(ip, 0)])] })]

theorem alice_posted_though_refused :
    let s : Session := { tag := "n", info := { id := 1, kind := .hysteria2 } }
    let refused (ip : String) : Answered LocalEngine := ⟨aliceAt ip, .error ScriptedPanel.refusal⟩
    (∀ user, (((aliceAt "10.0.0.1").traffic.counter s.tag).tally user).InRange) ∧
      s.conduct (s.beginReport (aliceAt "10.0.0.1")).progress
        [refused "10.0.0.2", refused "10.0.0.3", refused "10.0.0.4"] =
          ([.traffic [⟨7, 1500, 500⟩], .online [⟨7, "10.0.0.2"⟩], .status], some (.ok ())) := by
  intro s refused
  have hrange : ∀ user, (((aliceAt "10.0.0.1").traffic.counter s.tag).tally user).InRange :=
    TrafficCounter.inRange_of_entries (by decide)
  obtain ⟨c', l, hslice, -, hposts⟩ := s.report_posts_all (aliceAt "10.0.0.1") hrange
  have htaken : ((aliceAt "10.0.0.1").trafficSlice s.tag s.info.reportThreshold).2.toOption =
      some [⟨7, 1500, 500⟩] := by decide +kernel
  rw [hslice] at htaken
  obtain rfl := Option.some.inj htaken
  have honline : ((aliceAt "10.0.0.2").onlineDevices s.tag).2 = [⟨7, "10.0.0.2"⟩] := by
    decide +kernel
  refine ⟨hrange, (hposts _ _ _).trans ?_⟩
  rw [if_neg (List.cons_ne_nil _ _), honline]
  rfl

end Refused

end Session

end NodeAgent
