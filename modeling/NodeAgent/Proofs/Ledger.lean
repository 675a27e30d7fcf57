import NodeAgent.Proofs.Counters
import NodeAgent.Proofs.Steps

/-!
Where the bytes of a user go. A report empties the counters before it posts, and what the panel
refuses is not put back; a diff that takes a record of the user out empties his counter, too. The
ledger of a run has all of this, and every event keeps it balanced.
-/

namespace NodeAgent

/-- What became of the bytes of one user in one direction. -/
structure Ledger where
  accounted : Nat := 0
  /-- What a report has taken and waits to see accepted. -/
  underway : List (String × UserTraffic) := []
  accepted : Nat := 0
  refused : Nat := 0
  /-- What was in a counter that was deleted, or went without a user id. -/
  dropped : Nat := 0

namespace Session

variable {s : Session} {c : Core LocalEngine}

theorem progress_stepsAfterTraffic (s : Session) (c : Core LocalEngine) (l l' : List UserTraffic) :
    (s.stepsAfterTraffic c l).progress ≠ .ask (.traffic l') := by
  rcases hd : c.onlineDevices s.tag with ⟨c', _ | ⟨d, ds⟩⟩ <;>
    simp [stepsAfterTraffic, hd]

theorem beginReport_of_inRange (h : ∀ user, ((c.traffic.counter s.tag).tally user).InRange) :
    (∀ l, (s.beginReport c).progress = .ask (.traffic l) →
        (c.toReport s.tag s.info.reportThreshold).map Prod.snd = l) ∧
      ((∀ l, (s.beginReport c).progress ≠ .ask (.traffic l)) →
        c.toReport s.tag s.info.reportThreshold = []) ∧
      ∀ user, ((s.beginReport c).core.traffic.counter s.tag).tally user =
        ((c.traffic.counter s.tag).tally user).left (Core.bytesOver s.info.reportThreshold) := by
  obtain ⟨c', hslice, htally⟩ := Core.trafficSlice_of_inRange h s.info.reportThreshold
  unfold beginReport
  rw [hslice]
  cases hposts : (c.toReport s.tag s.info.reportThreshold).map Prod.snd with
  | nil =>
    refine ⟨fun l hl => absurd hl (s.progress_stepsAfterTraffic c' [] l),
      fun _ => List.map_eq_nil_iff.1 hposts, fun user => ?_⟩
    obtain ⟨-, hquiet⟩ := s.stepsAfterTraffic_frame c' []
    exact hquiet.traffic ▸ htally user
  | cons e r =>
    exact ⟨fun l hl => Stage.traffic.inj (Progress.ask.inj hl), fun h => absurd rfl (h (e :: r)),
      htally⟩

end Session

namespace RunningNode

variable {x : RunningNode LocalEngine}

def tally (x : RunningNode LocalEngine) (user : String) : Tally :=
  (x.core.traffic.counter x.session.tag).tally user

theorem tally_account (x : RunningNode LocalEngine) (node user' : String)
    (upload download : UInt64) (u : String) :
    (x.step (.account node user' upload download)).tally u =
      if node = x.session.tag ∧ u = user' then (x.tally user').add upload download
      else x.tally u := by
  have h := TrafficRegistry.tally_account x.core.traffic node user' x.session.tag u upload download
  by_cases hhere : node = x.session.tag ∧ u = user'
  · obtain ⟨rfl, rfl⟩ := hhere
    rw [if_pos ⟨rfl, rfl⟩] at h ⊢
    exact h
  · rw [if_neg fun h => hhere ⟨h.1.symm, h.2⟩] at h
    rw [if_neg hhere]
    exact h

def HasRoom (x : RunningNode LocalEngine) : NodeEvent → Prop
  | .account node user upload download => node = x.session.tag →
      (x.tally user).upload.toNat + (x.tally user).download.toNat + upload.toNat +
        download.toNat < UInt64.size
  | _ => True

def HasRoomAlong (x : RunningNode LocalEngine) : List NodeEvent → Prop
  | [] => True
  | e :: es => x.HasRoom e ∧ (x.step e).HasRoomAlong es

instance (x : RunningNode LocalEngine) (e : NodeEvent) : Decidable (x.HasRoom e) :=
  match e with
  | .account .. => inferInstanceAs (Decidable (_ → _))
  | .elapse _ | .note _ | .beginSync | .alive _ | .users _ | .invalidated | .beginReport
  | .posted _ => isTrue trivial

instance decidableHasRoomAlong (x : RunningNode LocalEngine) :
    (es : List NodeEvent) → Decidable (x.HasRoomAlong es)
  | [] => isTrue trivial
  | e :: es =>
    have := decidableHasRoomAlong (x.step e) es
    inferInstanceAs (Decidable (_ ∧ _))

def book (user : String) (w : Way) (x : RunningNode LocalEngine) (g : Ledger) : NodeEvent → Ledger
  | .account node user' upload download =>
    if node = x.session.tag ∧ user' = user then
      { g with accounted := g.accounted + Tally.bytes ⟨upload, download⟩ w }
    else g
  | .users (.ok (some l)) =>
    if x.sync = .waiting .users ∧
        user ∈ userTags x.session.tag (UserDiff.between x.session.users l).deleted then
      { g with dropped := g.dropped + (x.tally user).bytes w }
    else g
  | .beginReport =>
    if x.report = .idle then
      { g with
        underway := x.core.toReport x.session.tag x.session.info.reportThreshold
        dropped := g.dropped + Core.waste x.core.uids
          (Core.bytesOver x.session.info.reportThreshold) user w (x.tally user) }
    else g
  | .posted a =>
    match x.report, a with
    | .waiting (.traffic _), .ok () =>
      { g with underway := [], accepted := g.accepted + carried user w g.underway }
    | .waiting (.traffic _), .error _ =>
      { g with underway := [], refused := g.refused + carried user w g.underway }
    | _, _ => g
  | _ => g

variable {user : String} {w : Way} {start : Nat} {g : Ledger}

structure Balanced (x : RunningNode LocalEngine) (user : String) (w : Way) (start : Nat)
    (g : Ledger) : Prop where
  inRange : ∀ u, (x.tally u).InRange
  posting : ∀ l, x.report = .waiting (.traffic l) → g.underway.map Prod.snd = l
  silent : (∀ l, x.report ≠ .waiting (.traffic l)) → g.underway = []
  sum : g.accepted + g.refused + g.dropped + carried user w g.underway + (x.tally user).bytes w =
    start + g.accounted

namespace Balanced

theorem of_traffic {y : RunningNode LocalEngine} (h : x.Balanced user w start g)
    (htag : y.session.tag = x.session.tag) (htraffic : y.core.traffic = x.core.traffic)
    (hreport : y.report = x.report) : y.Balanced user w start g := by
  have htally : y.tally = x.tally := by
    funext u
    rw [tally, tally, htag, htraffic]
  exact ⟨htally ▸ h.inRange, hreport ▸ h.posting, hreport ▸ h.silent, htally ▸ h.sum⟩

theorem ite_of_traffic {y : RunningNode LocalEngine} {waits : Prop} [Decidable waits]
    (h : x.Balanced user w start g) (htag : y.session.tag = x.session.tag)
    (htraffic : y.core.traffic = x.core.traffic) (hreport : y.report = x.report) :
    Balanced (if waits then y else x) user w start g := by
  split
  · exact h.of_traffic htag htraffic hreport
  · exact h

theorem account (h : x.Balanced user w start g) {node user' : String} {upload download : UInt64}
    (hroom : x.HasRoom (.account node user' upload download)) :
    (x.step (.account node user' upload download)).Balanced user w start
      (x.book user w g (.account node user' upload download)) := by
  have htally := x.tally_account node user' upload download
  have hledger : (x.book user w g (.account node user' upload download)).underway = g.underway := by
    simp only [book]
    split <;> rfl
  refine ⟨fun u => ?_, hledger ▸ h.posting, hledger ▸ h.silent, ?_⟩
  · rw [htally]
    split
    next hhere => exact Tally.inRange_add (hroom hhere.1)
    · exact h.inRange u
  · rw [htally, book]
    have hsum := h.sum
    by_cases hhere : node = x.session.tag ∧ user' = user
    · obtain ⟨hnode, rfl⟩ := hhere
      rw [if_pos ⟨hnode, rfl⟩, if_pos ⟨hnode, rfl⟩, Tally.bytes_add (hroom hnode)]
      dsimp only
      omega
    · rw [if_neg hhere, if_neg fun h => hhere ⟨h.1, h.2.symm⟩]
      exact hsum

theorem users (h : x.Balanced user w start g) {d : LimitDefaults} (hready : x.Ready d)
    (l : List User) : (x.step (.users (.ok (some l)))).Balanced user w start
      (x.book user w g (.users (.ok (some l)))) := by
  by_cases hw : x.sync = .waiting .users
  · -- the three ways of a sync differ in who comes in, and arrivals leave the counters alone
    obtain ⟨htag, come, hmoved⟩ := (hready.synced l).moved
    have htally (u : String) : (x.step (.users (.ok (some l)))).tally u =
        if u ∈ userTags x.session.tag (UserDiff.between x.session.users l).deleted then {}
        else x.tally u := by
      rw [step_users_of_waiting hw, tally, answerSync, htag]
      exact hmoved.tally u
    have hreport : (x.step (.users (.ok (some l)))).report = x.report := by
      rw [step_users_of_waiting hw, answerSync]
    have hledger : (x.book user w g (.users (.ok (some l)))).underway = g.underway := by
      simp only [book]
      split <;> rfl
    refine ⟨fun u => ?_, hreport ▸ hledger ▸ h.posting, hreport ▸ hledger ▸ h.silent, ?_⟩
    · rw [htally]
      split
      · exact Tally.inRange_zero
      · exact h.inRange u
    · rw [htally, book]
      have hsum := h.sum
      by_cases hgone : user ∈ userTags x.session.tag (UserDiff.between x.session.users l).deleted
      · rw [if_pos ⟨hw, hgone⟩, if_pos hgone, Tally.bytes_zero]
        dsimp only
        omega
      · rw [if_neg fun h => hgone h.2, if_neg hgone]
        exact hsum
  · rw [step_users_of_ne hw, book, if_neg fun h => hw h.1]
    exact h

theorem beginReport (h : x.Balanced user w start g) :
    (x.step .beginReport).Balanced user w start (x.book user w g .beginReport) := by
  by_cases hidle : x.report = .idle
  · obtain ⟨hposts, hsilent, htally⟩ := Session.beginReport_of_inRange (s := x.session) h.inRange
    obtain ⟨hsession, -⟩ := x.session.beginReport_frame x.core
    have hnow (u : String) : (x.step .beginReport).tally u =
        (x.tally u).left (Core.bytesOver x.session.info.reportThreshold) := by
      simp only [step, if_pos hidle, tally, hsession]
      exact htally u
    have hnothing : g.underway = [] := h.silent fun l hl => by
      rw [hidle] at hl
      cases hl
    have hsum := h.sum
    rw [hnothing] at hsum
    rw [book, if_pos hidle]
    refine ⟨fun u => ?_, fun l hl => ?_, fun hl => ?_, ?_⟩
    · rw [hnow]
      exact (h.inRange u).left _
    · rw [step, if_pos hidle] at hl
      exact hposts l (Errand.after_eq_waiting.1 hl)
    · refine hsilent fun l hask => hl l ?_
      rw [step, if_pos hidle]
      exact Errand.after_eq_waiting.2 hask
    · rw [hnow, Core.carried_toReport]
      have hsplit := Core.share_add_waste x.core.uids
        (Core.bytesOver x.session.info.reportThreshold) user w (x.tally user)
      rw [carried_nil, Nat.add_zero] at hsum
      rw [tally] at hsum hsplit ⊢
      dsimp only
      omega
  · rw [step, book, if_neg hidle, if_neg hidle]
    exact h

theorem posted_traffic (h : x.Balanced user w start g) {l : List UserTraffic}
    (hreport : x.report = .waiting (.traffic l)) (a : Except PanelError Unit) :
    (x.step (.posted a)).Balanced user w start (x.book user w g (.posted a)) := by
  obtain ⟨hsession, hquiet⟩ := x.session.stepsAfterTraffic_frame x.core l
  have htally : (x.step (.posted a)).tally = x.tally := by
    funext u
    simp only [step, hreport, answerReport, tally, Session.resume, hsession, hquiet.traffic]
  have hnext (l' : List UserTraffic) : (x.step (.posted a)).report ≠ .waiting (.traffic l') := by
    simp only [step, hreport, answerReport]
    exact fun hask => x.session.progress_stepsAfterTraffic x.core l l'
      (Errand.after_eq_waiting.1 hask)
  have hsum := h.sum
  rcases a with err | ⟨⟨⟩⟩
  · refine ⟨htally ▸ h.inRange, fun l' hl' => absurd hl' (hnext l'), fun _ => ?_, ?_⟩
    · simp only [book, hreport]
    · simp only [htally, book, hreport, carried_nil]
      omega
  · refine ⟨htally ▸ h.inRange, fun l' hl' => absurd hl' (hnext l'), fun _ => ?_, ?_⟩
    · simp only [book, hreport]
    · simp only [htally, book, hreport, carried_nil]
      omega

theorem with_report (h : x.Balanced user w start g) {report : Errand}
    (hbefore : ∀ l, x.report ≠ .waiting (.traffic l))
    (hafter : ∀ l, report ≠ .waiting (.traffic l)) :
    Balanced { x with report } user w start g :=
  ⟨h.inRange, fun l hl => absurd hl (hafter l), fun _ => h.silent hbefore, h.sum⟩

theorem posted (h : x.Balanced user w start g) (a : Except PanelError Unit) :
    (x.step (.posted a)).Balanced user w start (x.book user w g (.posted a)) := by
  rcases hreport : x.report with _ | stage | _
  · simpa only [step, book, hreport] using h
  · cases stage with
    | traffic l => exact h.posted_traffic hreport a
    | online l =>
      have hstep : x.step (.posted a) = { x with report := .waiting .status } := by
        simp only [step, hreport]
        rfl
      rw [hstep]
      simp only [book, hreport]
      exact h.with_report (by simp [hreport]) (by simp)
    | status =>
      have hstep : x.step (.posted a) = { x with report := .idle } := by
        simp only [step, hreport]
        rfl
      rw [hstep]
      simp only [book, hreport]
      exact h.with_report (by simp [hreport]) (by simp)
    | _ => simpa only [step, book, hreport] using h
  · simpa only [step, book, hreport] using h

theorem step (h : x.Balanced user w start g) {d : LimitDefaults} (hready : x.Ready d)
    {e : NodeEvent} (hroom : x.HasRoom e) :
    (x.step e).Balanced user w start (x.book user w g e) := by
  cases e with
  | account => exact h.account hroom
  | elapse => exact h.of_traffic rfl rfl rfl
  | note => exact h.of_traffic rfl rfl rfl
  | beginSync => exact h.ite_of_traffic rfl rfl rfl
  | alive a => exact h.ite_of_traffic rfl rfl rfl
  | users a =>
    rcases a with err | _ | l
    · exact h.ite_of_traffic rfl rfl rfl
    · exact h.ite_of_traffic rfl rfl rfl
    · exact h.users hready l
  | invalidated =>
    simp only [RunningNode.step]
    split
    · exact h.of_traffic rfl rfl rfl
    · exact h
  | beginReport => exact h.beginReport
  | posted a => exact h.posted a

theorem run (h : x.Balanced user w start g) {d : LimitDefaults} (hready : x.Ready d)
    {es : List NodeEvent} (hroom : x.HasRoomAlong es) :
    (x.run es).Balanced user w start (x.record (book user w) g es) := by
  induction es generalizing x g with
  | nil => exact h
  | cons e es ih => exact ih (h.step hready hroom.1) (hready.step e) hroom.2

end Balanced

end RunningNode

end NodeAgent
