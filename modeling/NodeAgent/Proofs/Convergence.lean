import NodeAgent.Proofs.Start

/-!
When the engine comes to serve just the list that a sync takes over. A sync that fails has taken
users out and keeps the list that still names them. As long as they stay in the panel's lists as
they are, no later diff brings them back.
-/

namespace NodeAgent

/-- In what the engine differs from the list that the node goes by. -/
structure Drift where
  /-- Users of the list whom a failed sync has taken out. -/
  missing : List (String × UInt64)
  /-- Tags that the engine held before the start. -/
  strays : List String

namespace Drift

variable {d : Drift} {old new : List User} {node t : String}

def Serves (d : Drift) (node : String) (users : List User) (t : String) : Prop :=
  (∃ u ∈ users, userTag node u.uuid = t ∧ u.key ∉ d.missing) ∨ t ∈ d.strays

structure Of (d : Drift) (node : String) (users : List User) : Prop where
  missing : ∀ k ∈ d.missing, k ∈ users.map User.key
  strays : ∀ t ∈ d.strays, t ∉ userTags node users

def taken (d : Drift) (node : String) (new : List User) : Drift where
  missing := d.missing.filter fun k => k ∈ new.map User.key
  strays := d.strays.filter fun t => t ∉ userTags node new

def refused (d : Drift) (gone : List User) : Drift :=
  { d with missing := d.missing ++ gone.map User.key }

theorem Of.taken (d : Drift) (node : String) (new : List User) : (d.taken node new).Of node new where
  missing := fun k hk => by simpa using (List.mem_filter.1 hk).2
  strays := fun t ht => by simpa using (List.mem_filter.1 ht).2

theorem Of.refused (h : d.Of node old) (new : List User) :
    (d.refused (UserDiff.between old new).deleted).Of node old where
  missing := fun k hk => by
    rcases List.mem_append.1 hk with hk | hk
    · exact h.missing k hk
    · obtain ⟨u, hu, rfl⟩ := User.mem_keys_iff.1 hk
      exact User.mem_keys_iff.2 ⟨u, (UserDiff.mem_deleted.1 hu).1, rfl⟩
  strays := h.strays

theorem serves_refused_iff (hold : Distinct old) (h : d.Of node old) :
    (d.refused (UserDiff.between old new).deleted).Serves node old t ↔
      d.Serves node old t ∧ t ∉ userTags node (UserDiff.between old new).deleted := by
  -- no two of the old users have one tag, so that a deleted tag is the tag of a deleted record
  have hdeleted {u : User} (hu : u ∈ old) :
      u.key ∈ (UserDiff.between old new).deleted.map User.key ↔
        userTag node u.uuid ∈ userTags node (UserDiff.between old new).deleted := by
    constructor
    · intro hkey
      obtain ⟨v, hv, hvu⟩ := User.mem_keys_iff.1 hkey
      exact userTag_mem_userTags.2 ⟨v, hv, (User.key_eq_iff.1 hvu).1⟩
    · intro htag
      obtain ⟨v, hv, hvu⟩ := userTag_mem_userTags.1 htag
      have hsame : v = u := eq_of_uuid_eq hold (UserDiff.mem_deleted.1 hv).1 hu hvu
      exact User.mem_keys_iff.2 ⟨v, hv, hsame ▸ rfl⟩
  constructor
  · rintro (⟨u, hu, rfl, hkey⟩ | ht)
    · obtain ⟨hmissing, hkept⟩ := not_or.1 fun h => hkey (List.mem_append.2 h)
      exact ⟨.inl ⟨u, hu, rfl, hmissing⟩, fun htag => hkept ((hdeleted hu).2 htag)⟩
    · exact ⟨.inr ht, fun htag => h.strays t ht (UserDiff.mem_userTags_of_deleted htag)⟩
  · rintro ⟨⟨u, hu, rfl, hkey⟩ | ht, hd⟩
    · refine .inl ⟨u, hu, rfl, fun hk => ?_⟩
      rcases List.mem_append.1 hk with hk | hk
      · exact hkey hk
      · exact hd ((hdeleted hu).1 hk)
    · exact .inr ht

theorem serves_taken_iff (hold : Distinct old) (h : d.Of node old) :
    (d.taken node new).Serves node new t ↔
      (d.Serves node old t ∧ t ∉ userTags node (UserDiff.between old new).deleted) ∨
        t ∈ userTags node (UserDiff.between old new).added := by
  have hmissing {v : User} (hv : v ∈ new) :
      v.key ∈ (d.taken node new).missing ↔ v.key ∈ d.missing := by
    have hkey : v.key ∈ new.map User.key := User.mem_keys_iff.2 ⟨v, hv, rfl⟩
    simp [Drift.taken, List.mem_filter, User.mem_keys_iff.1 hkey]
  constructor
  · rintro (⟨v, hv, rfl, hkey⟩ | ht)
    · rw [hmissing hv] at hkey
      by_cases hkept : v.key ∈ old.map User.key
      · obtain ⟨u, hu, huv⟩ := User.mem_keys_iff.1 hkept
        have huuid : u.uuid = v.uuid := (User.key_eq_iff.1 huv).1
        refine .inl ⟨.inl ⟨u, hu, huuid ▸ rfl, huv ▸ hkey⟩, ?_⟩
        exact huuid ▸ UserDiff.notMem_deleted_of_kept hold hu
          (User.mem_keys_iff.2 ⟨v, hv, huv.symm⟩)
      · exact .inr (userTag_mem_userTags.2 ⟨v, UserDiff.mem_added.2 ⟨hv, hkept⟩, rfl⟩)
    · have hstray : t ∈ d.strays := (List.mem_filter.1 ht).1
      exact .inl ⟨.inr hstray, fun hd => h.strays t hstray (UserDiff.mem_userTags_of_deleted hd)⟩
  · rintro (⟨⟨u, hu, rfl, hkey⟩ | ht, hd⟩ | hadded)
    · have hkept : u.key ∈ new.map User.key := Classical.byContradiction fun hnot =>
        hd (userTag_mem_userTags.2 ⟨u, UserDiff.mem_deleted.2 ⟨hu, hnot⟩, rfl⟩)
      obtain ⟨v, hv, hvu⟩ := User.mem_keys_iff.1 hkept
      refine .inl ⟨v, hv, congrArg (userTag node) (User.key_eq_iff.1 hvu).1, ?_⟩
      rwa [hmissing hv, hvu]
    · by_cases hnew : t ∈ userTags node new
      · obtain ⟨v, hv, rfl⟩ := mem_userTags.1 hnew
        refine .inl ⟨v, hv, rfl, fun hk => ?_⟩
        obtain ⟨u, hu, huv⟩ := User.mem_keys_iff.1 (h.missing _ ((hmissing hv).1 hk))
        exact h.strays _ ht (userTag_mem_userTags.2 ⟨u, hu, (User.key_eq_iff.1 huv).1⟩)
      · exact .inr (List.mem_filter.2 ⟨ht, by simpa using hnew⟩)
    · obtain ⟨v, hv, rfl⟩ := mem_userTags.1 hadded
      obtain ⟨hvnew, hvold⟩ := UserDiff.mem_added.1 hv
      exact .inl ⟨v, hvnew, rfl, fun hk => hvold (h.missing _ ((hmissing hvnew).1 hk))⟩

theorem serves_taken_eq_list_iff (hnew : Distinct new) :
    (∀ t, (d.taken node new).Serves node new t ↔ t ∈ userTags node new) ↔
      (∀ u ∈ new, u.key ∉ d.missing) ∧ ∀ t ∈ d.strays, t ∈ userTags node new := by
  have hof := Of.taken d node new
  constructor
  · intro h
    refine ⟨fun u hu hmissing => ?_, fun t ht => Classical.byContradiction fun hnot => ?_⟩
    · rcases (h _).2 (userTag_mem_userTags.2 ⟨u, hu, rfl⟩) with ⟨v, hv, htag, hkey⟩ | hstray
      · obtain rfl : v = u := eq_of_uuid_eq hnew hv hu (userTag_inj.1 htag)
        refine hkey (List.mem_filter.2 ⟨hmissing, ?_⟩)
        simpa using User.mem_keys_iff.2 ⟨v, hv, rfl⟩
      · exact hof.strays _ hstray (userTag_mem_userTags.2 ⟨u, hu, rfl⟩)
    · exact hnot ((h t).1 (.inr (List.mem_filter.2 ⟨ht, by simpa using hnot⟩)))
  · rintro ⟨hmissing, hstrays⟩ t
    constructor
    · rintro (⟨v, hv, rfl, -⟩ | ht)
      · exact userTag_mem_userTags.2 ⟨v, hv, rfl⟩
      · exact hstrays t (List.mem_filter.1 ht).1
    · intro ht
      obtain ⟨v, hv, rfl⟩ := mem_userTags.1 ht
      exact .inl ⟨v, hv, rfl, fun hk => hmissing v hv (List.mem_filter.1 hk).1⟩

end Drift

namespace RunningNode

variable {x : RunningNode LocalEngine} {d : Drift} {limit : LimitDefaults}

/-- Only a list that a sync waits for changes the drift. -/
def drift (x : RunningNode LocalEngine) (d : Drift) (e : NodeEvent) : Drift :=
  match e.list? with
  | none => d
  | some l =>
    if x.sync = .waiting .users then
      match (x.session.resume x.core .users (.ok (some l))).progress with
      | .finished (.ok ()) => d.taken x.session.tag l
      | .ask _ => d.refused (UserDiff.between x.session.users l).deleted
      | _ => d
    else d

theorem drift_of_kept {e : NodeEvent} (h : e.list? = none ∨ x.sync ≠ .waiting .users) :
    x.drift d e = d := by
  unfold drift
  split
  · rfl
  next l hl =>
    rcases h with hnone | hw
    · rw [hl] at hnone
      cases hnone
    · exact if_neg hw

theorem drift_of_waiting {e : NodeEvent} {l : List User} {r : Advance LocalEngine}
    (hl : e.list? = some l) (hw : x.sync = .waiting .users)
    (hr : x.session.resume x.core .users (.ok (some l)) = r) :
    x.drift d e =
      match r.progress with
      | .finished (.ok ()) => d.taken x.session.tag l
      | .ask _ => d.refused (UserDiff.between x.session.users l).deleted
      | _ => d := by
  simp only [drift, hl, hw, if_true, hr]

structure ServesUpTo (x : RunningNode LocalEngine) (d : Drift) : Prop where
  distinct : Distinct x.session.users
  drift : d.Of x.session.tag x.session.users
  served : ∀ t, t ∈ (x.core.engine.usersOf x.session.tag).keys ↔
    d.Serves x.session.tag x.session.users t

namespace ServesUpTo

theorem of_sameUsers {y : RunningNode LocalEngine} (h : x.ServesUpTo d)
    (hs : y.session = x.session)
    (hsame : Core.SameUsers x.core y.core x.session.tag) : y.ServesUpTo d := by
  obtain ⟨hdistinct, hdrift, hserved⟩ := h
  rw [← hs] at hdistinct hdrift hserved
  rw [← hsame.engine] at hserved
  exact ⟨hdistinct, hdrift, hserved⟩

theorem step (h : x.sync ≠ .dead → x.ServesUpTo d) (hready : x.Ready limit) {e : NodeEvent}
    (hlist : ∀ l, e.list? = some l → Distinct l) :
    (x.step e).sync ≠ .dead → (x.step e).ServesUpTo (x.drift d e) := by
  intro halive
  have hx : x.ServesUpTo d := h fun hdead => halive (sync_step_of_dead hdead e)
  have hstep := hready.stepped e
  generalize x.step e = y at hstep halive ⊢
  cases hstep with
  | same _ kept session users =>
    rw [drift_of_kept kept]
    exact hx.of_sameUsers session users
  | synced l r list waits resumed synced =>
    rw [drift_of_waiting list waits resumed]
    cases synced with
    | taken c' moved =>
      refine ⟨hlist l list, .taken d x.session.tag l, fun t => ?_⟩
      rw [Drift.serves_taken_iff hx.distinct hx.drift, ← hx.served]
      exact moved.engine t
    | refused f c' moved =>
      refine ⟨hx.distinct, hx.drift.refused l, fun t => ?_⟩
      rw [Drift.serves_refused_iff hx.distinct hx.drift, ← hx.served]
      exact (moved.engine t).trans (or_iff_left List.not_mem_nil)
    | overflowed => exact absurd rfl halive

end ServesUpTo

section Started

variable {χ π : Type} [Shell χ] [PanelApi π χ] {p : Place χ LocalEngine π} {users : List User}
  {alive : Except PanelError AliveCounts}

def firstDrift (p : Place χ LocalEngine π) (users : List User) : Drift where
  missing := []
  strays := (p.core.engine.usersOf p.node.session.tag).keys.filter fun t =>
    t ∉ userTags p.node.session.tag users

omit [Shell χ] [PanelApi π χ] in
theorem Started.servesUpTo {y : RunningNode LocalEngine} (h : Started p users y)
    (hdistinct : Distinct users) : y.ServesUpTo (firstDrift p users) := by
  have husers : y.session.users = users := by rw [h.session]
  refine ⟨husers.symm ▸ hdistinct, ⟨fun k hk => absurd hk List.not_mem_nil, fun t ht => ?_⟩,
    fun t => ?_⟩
  · rw [h.tag, husers]
    simpa using (List.mem_filter.1 ht).2
  · rw [h.engine, h.tag, husers]
    by_cases ht : t ∈ userTags p.node.session.tag users
    · obtain ⟨u, hu, rfl⟩ := mem_userTags.1 ht
      exact iff_of_true (.inr ht) (.inl ⟨u, hu, rfl, List.not_mem_nil⟩)
    · have hnot : ¬∃ u ∈ users, userTag p.node.session.tag u.uuid = t ∧
          u.key ∉ (firstDrift p users).missing := by
        rintro ⟨u, hu, htag, -⟩
        exact ht (mem_userTags.2 ⟨u, hu, htag⟩)
      rw [or_iff_left ht, Drift.Serves, or_iff_right hnot]
      simp [firstDrift, ht]

/--
The engine serves just the list that a sync has taken over, if and only if a failed sync has taken
out nobody of it, and the start has found nobody besides.
-/
theorem serves_list_iff (h : p.Starts users alive) (distinct : Distinct users)
    {es : List NodeEvent} (lists : ∀ l ∈ NodeEvent.lists es, Distinct l) :
    let x := (started p users alive).run es
    let d := (started p users alive).record drift (firstDrift p users) es
    ∀ l, Distinct l → x.TakesOver l →
      ((∀ t, t ∈ ((x.step (.users (.ok (some l)))).core.engine.usersOf x.session.tag).keys ↔
          t ∈ userTags x.session.tag l) ↔
        (∀ u ∈ l, u.key ∉ d.missing) ∧ ∀ t ∈ d.strays, t ∈ userTags x.session.tag l) := by
  intro x d l hl htakes
  have hstarted := started_spec h
  have hrun := record_invariant
    (P := fun y d => (y.sync ≠ .dead → y.ServesUpTo d) ∧ y.Ready p.core.limit)
    (fun y d e he hy => ⟨ServesUpTo.step hy.1 hy.2 fun l hl => lists l (NodeEvent.mem_lists he hl),
      hy.2.step e⟩)
    ⟨fun _ => hstarted.servesUpTo distinct, hstarted.ready⟩
  obtain ⟨hserves, -⟩ : (x.sync ≠ .dead → x.ServesUpTo d) ∧ _ := hrun
  -- a sync that takes a list over is not dead
  have hx : x.ServesUpTo d := hserves fun hdead => by
    rw [htakes.1] at hdead
    cases hdead
  obtain ⟨c', hstep, hmoved, -⟩ := htakes.step_eq
  rw [hstep, ← Drift.serves_taken_eq_list_iff hl]
  refine forall_congr' fun t => ?_
  rw [Drift.serves_taken_iff hx.distinct hx.drift, ← hx.served]
  exact iff_congr (hmoved.engine t) Iff.rfl

end Started

section KeyTooShort

def twoUsers : List User := [⟨1, "0123456789abcdef", 0, 0⟩, ⟨2, "fedcba9876543210", 0, 0⟩]

/-- The second of the two users goes while one comes whose key is too short; then a sync begins. -/
def shortKeyComes : List NodeEvent :=
  [.beginSync, .alive (.ok ∅),
    .users (.ok (some [⟨1, "0123456789abcdef", 0, 0⟩, ⟨3, "short", 0, 0⟩])), .invalidated,
    .beginSync, .alive (.ok ∅)]

/-- The next list names the two users again, and the second is not served. -/
theorem user_lost_after_refusal :
    let p := Place.fresh "2022-blake3-aes-128-gcm"
    let x := (started p twoUsers (.ok ∅)).run shortKeyComes
    p.Starts twoUsers (.ok ∅) ∧ x.TakesOver twoUsers ∧
      ¬∀ t, t ∈ ((x.step (.users (.ok (some twoUsers)))).core.engine.usersOf x.session.tag).keys ↔
        t ∈ userTags x.session.tag twoUsers := by
  intro p x
  refine ⟨by decide +kernel, by decide +kernel, fun h => ?_⟩
  have hserved := (h (userTag x.session.tag "fedcba9876543210")).2 (by decide +kernel)
  exact absurd hserved (by decide +kernel)

theorem served_iff_after_refusal :
    let p := Place.fresh "2022-blake3-aes-128-gcm"
    let x := (started p twoUsers (.ok ∅)).run shortKeyComes
    let d := (started p twoUsers (.ok ∅)).record drift (firstDrift p twoUsers) shortKeyComes
    (∀ t, t ∈ ((x.step (.users (.ok (some twoUsers)))).core.engine.usersOf x.session.tag).keys ↔
        t ∈ userTags x.session.tag twoUsers) ↔
      (∀ u ∈ twoUsers, u.key ∉ d.missing) ∧
        ∀ t ∈ d.strays, t ∈ userTags x.session.tag twoUsers := by
  intro p x d
  have hstarts : p.Starts twoUsers (.ok ∅) := by decide +kernel
  have hdistinct : Distinct twoUsers := by decide +kernel
  have hlists : ∀ l ∈ NodeEvent.lists shortKeyComes, Distinct l := by decide +kernel
  have htakes : x.TakesOver twoUsers := by decide +kernel
  exact serves_list_iff hstarts hdistinct hlists twoUsers hdistinct htakes

end KeyTooShort

end RunningNode

end NodeAgent
