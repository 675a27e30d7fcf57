import NodeAgent.Proofs.Ledger
import NodeAgent.Proofs.Start

/-!
The bytes of a user who stays in all lists of the panel. They are all at the panel or in his counter
if and only if the ledger of the run has none that were refused or dropped.
-/

namespace NodeAgent

namespace RunningNode

variable {x : RunningNode LocalEngine}

structure Knows (x : RunningNode LocalEngine) (u : User) : Prop where
  known : userTag x.session.tag u.uuid ∈ x.core.uids.keys
  sole : ∀ v ∈ x.session.users, v.uuid = u.uuid → v.key = u.key

namespace Knows

variable {u : User} {d : LimitDefaults}

theorem notMem_deleted (h : x.Knows u) {l : List User} (stays : u.key ∈ l.map User.key) :
    userTag x.session.tag u.uuid ∉
      userTags x.session.tag (UserDiff.between x.session.users l).deleted := by
  intro hgone
  obtain ⟨v, hv, huuid⟩ := userTag_mem_userTags.1 hgone
  obtain ⟨hold, hnew⟩ := UserDiff.mem_deleted.1 hv
  exact hnew (h.sole v hold huuid ▸ stays)

theorem step (h : x.Knows u) (hready : x.Ready d) {e : NodeEvent}
    (stays : ∀ l, e.list? = some l → u.key ∈ l.map User.key)
    (sole : ∀ l, e.list? = some l → ∀ v ∈ l, v.uuid = u.uuid → v.key = u.key) :
    (x.step e).Knows u := by
  have hstep := hready.stepped e
  generalize x.step e = y at hstep ⊢
  cases hstep with
  | same y _ session users =>
    refine ⟨?_, session ▸ h.sole⟩
    rw [session, users.uids]
    exact h.known
  | synced l r list _ _ synced =>
    have hkept := h.notMem_deleted (stays l list)
    cases synced with
    | taken c' moved => exact ⟨(moved.uids _).2 (.inl ⟨h.known, hkept⟩), sole l list⟩
    | refused f c' moved => exact ⟨(moved.uids _).2 (.inl ⟨h.known, hkept⟩), h.sole⟩
    | overflowed o c' moved => exact ⟨(moved.uids _).2 (.inl ⟨h.known, hkept⟩), h.sole⟩

theorem dropped_book (h : x.Knows u) {e : NodeEvent}
    (stays : ∀ l, e.list? = some l → u.key ∈ l.map User.key) (w : Way) (g : Ledger) :
    (x.book (userTag x.session.tag u.uuid) w g e).dropped = g.dropped := by
  cases e with
  | account =>
    simp only [book]
    split <;> rfl
  | users a =>
    rcases a with err | _ | l
    · rfl
    · rfl
    · rw [book, if_neg fun hgone => h.notMem_deleted (stays l rfl) hgone.2]
  | beginReport =>
    simp only [book]
    split
    · rw [Core.waste, if_neg fun hwaste => hwaste.2 h.known]
      rfl
    · rfl
  | posted a =>
    simp only [book]
    split <;> rfl
  | _ => rfl

end Knows

section Started

variable {χ π : Type} [Shell χ] [PanelApi π χ] {p : Place χ LocalEngine π} {users : List User}
  {alive : Except PanelError AliveCounts}

omit [Shell χ] [PanelApi π χ] in
theorem Started.balanced {y : RunningNode LocalEngine} (h : Started p users y)
    (before : ∀ t, ((p.core.traffic.counter p.node.session.tag).tally t).InRange) (user : String)
    (w : Way) : y.Balanced user w
      (((p.core.traffic.counter p.node.session.tag).tally user).bytes w) {} := by
  refine ⟨fun t => ?_, fun l hl => ?_, fun _ => rfl, ?_⟩
  · rw [RunningNode.tally, h.tally]
    exact before t
  · rw [h.report] at hl
    cases hl
  · rw [RunningNode.tally, h.tally, carried_nil]
    exact Nat.add_comm ..

theorem dropped_eq_zero (h : p.Starts users alive) {u : User} {es : List NodeEvent}
    (stays : ∀ l ∈ users :: NodeEvent.lists es, u.key ∈ l.map User.key)
    (sole : ∀ l ∈ users :: NodeEvent.lists es, ∀ v ∈ l, v.uuid = u.uuid → v.key = u.key) (w : Way) :
    ((started p users alive).record (book (userTag p.node.session.tag u.uuid) w) {} es).dropped =
      0 := by
  have hstarted := started_spec h
  obtain ⟨v, hv, hvu⟩ := User.mem_keys_iff.1 (stays users (List.mem_cons_self ..))
  have hknown : userTag (started p users alive).session.tag u.uuid ∈
      (started p users alive).core.uids.keys :=
    (hstarted.uids _).2 (.inr (userTag_mem_userTags.2 ⟨v, hv, (User.key_eq_iff.1 hvu).1⟩))
  have husers : (started p users alive).session.users = users := by rw [hstarted.session]
  have hknows : (started p users alive).Knows u :=
    ⟨hknown, by rw [husers]; exact sole users (List.mem_cons_self ..)⟩
  -- the ledger is booked under the tag of the moment, which therefore goes with the invariant
  have hrun := record_invariant (f := book (userTag p.node.session.tag u.uuid) w)
    (g := ({} : Ledger)) (P := fun y g => y.session.tag = p.node.session.tag ∧ y.Knows u ∧
      y.Ready p.core.limit ∧ g.dropped = 0)
    (fun y g e he ⟨htag, hy, hready, hg⟩ => by
      have hstays : ∀ l, e.list? = some l → u.key ∈ l.map User.key := fun l hl =>
        stays l (List.mem_cons_of_mem _ (NodeEvent.mem_lists he hl))
      have hsole : ∀ l, e.list? = some l → ∀ v ∈ l, v.uuid = u.uuid → v.key = u.key := fun l hl =>
        sole l (List.mem_cons_of_mem _ (NodeEvent.mem_lists he hl))
      refine ⟨(hready.step_tag e).trans htag, hy.step hready hstays hsole, hready.step e, ?_⟩
      rw [← htag, hy.dropped_book hstays]
      exact hg)
    ⟨hstarted.tag, hknows, hstarted.ready, rfl⟩
  exact hrun.2.2.2

/--
Of the bytes of a user who stays in all lists, those that the panel has accepted and those in his
counter are all that were counted, if and only if no refused report had any of them, and no diff
deleted another record with his uuid.
-/
theorem conserved_iff (h : p.Starts users alive) {u : User} {es : List NodeEvent}
    (stays : ∀ l ∈ users :: NodeEvent.lists es, u.key ∈ l.map User.key)
    (before : ∀ t, ((p.core.traffic.counter p.node.session.tag).tally t).InRange)
    (room : (started p users alive).HasRoomAlong es) (w : Way) :
    let t := userTag p.node.session.tag u.uuid
    let start := ((p.core.traffic.counter p.node.session.tag).tally t).bytes w
    let x := (started p users alive).run es
    let g := (started p users alive).record (book t w) {} es
    (∀ l, x.report = .waiting (.traffic l) → g.underway.map Prod.snd = l) ∧
      g.accepted + g.refused + g.dropped + carried t w g.underway + (x.tally t).bytes w =
        start + g.accounted ∧
      ((∀ l, x.report ≠ .waiting (.traffic l)) →
        (g.accepted + (x.tally t).bytes w = start + g.accounted ↔ g.refused = 0 ∧ g.dropped = 0)) ∧
      ((∀ l ∈ users :: NodeEvent.lists es, ∀ v ∈ l, v.uuid = u.uuid → v.key = u.key) →
        g.dropped = 0) := by
  intro t start x g
  have hstarted := started_spec h
  have hbalanced : x.Balanced t w start g :=
    (hstarted.balanced before t w).run hstarted.ready room
  have hsum := hbalanced.sum
  refine ⟨hbalanced.posting, hsum, fun hsilent => ?_, fun sole => dropped_eq_zero h stays sole w⟩
  rw [hbalanced.silent hsilent, carried_nil] at hsum
  constructor
  · intro hall
    omega
  · rintro ⟨hrefused, hdropped⟩
    omega

end Started

section RefusedReport

def alone : List User := [⟨7, "alice", 0, 0⟩]

def reportRefused : List NodeEvent :=
  [.account "[http://p]-shadowsocks:1" "[http://p]-shadowsocks:1|alice" 1000 500,
    .beginReport, .posted (.error ScriptedPanel.refusal), .posted (.ok ()),
    .beginReport, .posted (.ok ())]

/-- Nothing is under way, and the bytes are neither at the panel nor in the counter. -/
theorem bytes_lost_after_refusal :
    let p := Place.fresh "aes-128-gcm"
    let t := userTag p.node.session.tag "alice"
    let start := ((p.core.traffic.counter p.node.session.tag).tally t).bytes .up
    let x := (started p alone (.ok ∅)).run reportRefused
    let g := (started p alone (.ok ∅)).record (book t .up) {} reportRefused
    p.Starts alone (.ok ∅) ∧ x.report = .idle ∧
      g.accepted + (x.tally t).bytes .up ≠ start + g.accounted := by
  decide +kernel

theorem conserved_iff_after_refusal :
    let p := Place.fresh "aes-128-gcm"
    let t := userTag p.node.session.tag "alice"
    let start := ((p.core.traffic.counter p.node.session.tag).tally t).bytes .up
    let x := (started p alone (.ok ∅)).run reportRefused
    let g := (started p alone (.ok ∅)).record (book t .up) {} reportRefused
    g.accepted + (x.tally t).bytes .up = start + g.accounted ↔
      g.refused = 0 ∧ g.dropped = 0 := by
  intro p t start x g
  have hstarts : p.Starts alone (.ok ∅) := by decide +kernel
  have hstays : ∀ l ∈ alone :: NodeEvent.lists reportRefused,
      (⟨7, "alice", 0, 0⟩ : User).key ∈ l.map User.key := by decide +kernel
  have hbefore : ∀ t, ((p.core.traffic.counter p.node.session.tag).tally t).InRange :=
    fun _ => Tally.inRange_zero
  have hroom : (started p alone (.ok ∅)).HasRoomAlong reportRefused := by decide +kernel
  have hidle : x.report = .idle := by decide +kernel
  obtain ⟨-, -, hiff, -⟩ := conserved_iff hstarts hstays hbefore hroom .up
  refine hiff fun l hl => ?_
  rw [hidle] at hl
  cases hl

end RefusedReport

end RunningNode

end NodeAgent
