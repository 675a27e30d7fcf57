import NodeAgent.Proofs.Start

/-!
The engine, the table of ids and the limiter are keyed by user tag, each on its own. A sync that
ends well brings all three from one list to the other, and leaves the other nodes alone.
-/

namespace NodeAgent

structure Limiter.Holds (l : Limiter) (node : String) (d : LimitDefaults) (users : List User) :
    Prop where
  tag : l.tag = node
  defaults : l.defaults = d
  keys : ∀ t, t ∈ l.users.keys ↔ t ∈ userTags node users
  rates : ∀ u ∈ users, ∃ limit, l.users.find? (userTag node u.uuid) = some limit ∧ limit.Obeys d u

structure Core.Holds (c : Core LocalEngine) (node : String) (d : LimitDefaults)
    (users : List User) : Prop where
  engine : ∀ t, t ∈ (c.engine.usersOf node).keys ↔ t ∈ userTags node users
  uids : ∀ t, Core.isUserOf node t = true → (t ∈ c.uids.keys ↔ t ∈ userTags node users)
  limiter : ∃ l, c.limiters.find? node = some l ∧ l.Holds node d users

structure Core.Spares (c c' : Core LocalEngine) (node : String) : Prop where
  engine : c'.engine.usersOf node = c.engine.usersOf node
  uids : ∀ t, Core.isUserOf node t = true → c'.uids.find? t = c.uids.find? t
  limiter : c'.limiters.find? node = c.limiters.find? node

section Diff

variable {old new : List User} {tag : String} {d : LimitDefaults}

theorem UserLimit.Obeys.of_key_eq {limit : UserLimit} {u v : User} (h : limit.Obeys d u)
    (huv : u.key = v.key) : limit.Obeys d v := by
  unfold UserLimit.Obeys at h ⊢
  rwa [← (User.key_eq_iff.1 huv).2]

theorem Limiter.Holds.updated {l l' : Limiter} (h : l.Holds tag d old) (hold : Distinct old)
    (hnew : Distinct new) (hup : Limiter.Updated l l' (UserDiff.between old new).added
      (UserDiff.between old new).deleted) : l'.Holds tag d new := by
  obtain ⟨rfl, rfl, hkeys, hrates⟩ := h
  refine ⟨hup.tag, hup.defaults, fun t => ?_, fun u hu => ?_⟩
  · rw [hup.keys, hkeys]
    exact UserDiff.mem_userTags_between hold
  · by_cases hkey : u.key ∈ old.map User.key
    · -- the user stays, and no arrival takes the tag
      obtain ⟨v, hv, hvu⟩ := User.mem_keys_iff.1 hkey
      have huuid : v.uuid = u.uuid := (User.key_eq_iff.1 hvu).1
      have hkept : userTag l.tag u.uuid ∉ userTags l.tag (UserDiff.between old new).deleted :=
        huuid ▸ UserDiff.notMem_deleted_of_kept hold hv (User.mem_keys_iff.2 ⟨u, hu, hvu.symm⟩)
      have hnotNew : userTag l.tag u.uuid ∉ userTags l.tag (UserDiff.between old new).added :=
        UserDiff.notMem_added_of_kept hnew hu hkey
      obtain ⟨limit, hfind, hobeys⟩ := hrates v hv
      rw [huuid] at hfind
      exact ⟨limit, (hup.kept _ hkept hnotNew).trans hfind, hobeys.of_key_eq hvu⟩
    · exact hup.new (UserDiff.distinct_added hnew) u (UserDiff.mem_added.2 ⟨hu, hkey⟩)

namespace Core

variable {c c' : Core LocalEngine}

theorem Holds.of_sameUsers (h : c.Holds tag d old) (hsame : SameUsers c c' tag) :
    c'.Holds tag d old := by
  obtain ⟨l, hl, htag, hdefaults, hkeys, hrates⟩ := h.limiter
  have hrules := hsame.rules
  rw [hl, Option.map_some, Option.map_eq_some_iff] at hrules
  obtain ⟨l', hl', heq⟩ := hrules
  obtain ⟨htag', hdefaults', husers'⟩ : l'.tag = l.tag ∧ l'.defaults = l.defaults ∧
      l'.users = l.users := by simpa [Limiter.rules] using heq
  refine ⟨hsame.engine ▸ h.engine, hsame.uids ▸ h.uids, l', hl', htag'.trans htag,
    hdefaults'.trans hdefaults, ?_, ?_⟩
  · rwa [husers']
  · rwa [husers']

theorem Holds.of_diff (h : c.Holds tag d old) (hold : Distinct old) (hnew : Distinct new)
    (hmoved : Moved c c' tag (UserDiff.between old new).deleted (UserDiff.between old new).added)
    (hlimits : LimitsFollow c c' tag (UserDiff.between old new)) : c'.Holds tag d new := by
  refine ⟨fun t => ?_, fun t ht => ?_, ?_⟩
  · rw [hmoved.engine, h.engine]
    exact UserDiff.mem_userTags_between hold
  · rw [hmoved.uids, h.uids t ht]
    exact UserDiff.mem_userTags_between hold
  · obtain ⟨l, hl, hholds⟩ := h.limiter
    obtain ⟨l', hl', hup⟩ := hlimits.node l hl
    exact ⟨l', hl', hholds.updated hold hnew hup⟩

variable {host : String} {k k' : Kind} {i i' : Int}

theorem Spares.of_sameUsers {node : String} (h : SameUsers c c' tag) (hne : node ≠ tag) :
    Spares c c' node where
  engine := by rw [h.engine]
  uids := fun _ _ => by rw [h.uids]
  limiter := h.elsewhere node hne

theorem notMem_userTags_of_isUserOf {t : String} (ht : isUserOf (nodeTag host k' i') t = true)
    (hne : nodeTag host k' i' ≠ nodeTag host k i) (users : List User) :
    t ∉ userTags (nodeTag host k i) users := by
  intro hmem
  obtain ⟨u, -, rfl⟩ := mem_userTags.1 hmem
  exact hne (nodeTag_eq_of_isUserOf ht)

theorem Spares.of_diff {gone come : List User} {e : UserDiff}
    (hmoved : Moved c c' (nodeTag host k i) gone come)
    (hlimits : LimitsFollow c c' (nodeTag host k i) e)
    (hne : nodeTag host k' i' ≠ nodeTag host k i) : Spares c c' (nodeTag host k' i') where
  engine := hmoved.engineElsewhere _ hne
  uids := fun t ht => hmoved.uidsElsewhere t (notMem_userTags_of_isUserOf ht hne gone)
    (notMem_userTags_of_isUserOf ht hne come)
  limiter := hlimits.elsewhere _ hne

theorem Spares.trans {c₁ : Core LocalEngine} {node : String} (h : Spares c c₁ node)
    (h' : Spares c₁ c' node) : Spares c c' node where
  engine := h'.engine.trans h.engine
  uids := fun t ht => (h'.uids t ht).trans (h.uids t ht)
  limiter := h'.limiter.trans h.limiter

end Core

end Diff

namespace RunningNode

section Started

variable {χ π : Type} {p : Place χ LocalEngine π} {users : List User} {x : RunningNode LocalEngine}

theorem Started.holds (h : Started p users x) (distinct : Distinct users)
    (unused : (p.core.engine.usersOf x.session.tag).keys = [])
    (unknown : ∀ t, Core.isUserOf x.session.tag t = true → t ∉ p.core.uids.keys) :
    x.core.Holds x.session.tag p.core.limit users := by
  obtain ⟨l, hl, hup⟩ := h.limiter
  refine ⟨fun t => ?_, fun t ht => ?_, l, hl, hup.tag, hup.defaults, fun t => ?_,
    hup.new distinct⟩
  · rw [h.engine, unused, or_iff_right List.not_mem_nil]
  · rw [h.uids, or_iff_right (unknown t ht)]
  · exact (hup.keys t).trans (or_iff_right fun hold => List.not_mem_nil hold.1)

end Started

variable {x : RunningNode LocalEngine} {d : LimitDefaults} {new : List User}

/--
A sync that ends well brings all stores to its list, whatever else happens while it waits, and
touches no other node of its host.
-/
theorem sync_moves_all_stores {host : String} {k : Kind} {i : Int}
    (tag : x.session.tag = nodeTag host k i) (holds : x.core.Holds x.session.tag d x.session.users)
    (old : Distinct x.session.users) (distinct : Distinct new) {es : List NodeEvent}
    (meanwhile : ∀ e ∈ es, e.list? = none) (takes : (x.run es).TakesOver new) :
    let c' := (x.run (es ++ [.users (.ok (some new))])).core
    c'.Holds x.session.tag d new ∧ ∀ k' i', nodeTag host k' i' ≠ x.session.tag →
      Core.Spares x.core c' (nodeTag host k' i') := by
  intro c'
  obtain ⟨hs, hsame⟩ := x.run_sameUsers meanwhile
  obtain ⟨c₁, hstep, hmoved, hlimits⟩ := takes.step_eq
  rw [hs] at hmoved hlimits
  obtain rfl : c' = c₁ := by
    change (x.run (es ++ _)).core = c₁
    rw [run_append, run, run, hstep]
  refine ⟨(holds.of_sameUsers hsame).of_diff old distinct hmoved hlimits, fun k' i' hne => ?_⟩
  have hspared := Core.Spares.of_sameUsers hsame hne
  rw [tag] at hne hmoved hlimits
  exact hspared.trans (Core.Spares.of_diff hmoved hlimits hne)

theorem alice_slows_and_bob_comes :
    let p := Place.fresh "aes-128-gcm"
    let x := started p [⟨7, "alice", 0, 0⟩] (.ok ∅)
    let new : List User := [⟨7, "alice", 8, 0⟩, ⟨8, "bob", 0, 0⟩]
    let c' := (x.run [.beginSync, .alive (.ok ∅), .users (.ok (some new))]).core
    x.core.Holds x.session.tag {} x.session.users ∧ c'.Holds x.session.tag {} new ∧
      ∀ k' i', nodeTag "http://p" k' i' ≠ x.session.tag →
        Core.Spares x.core c' (nodeTag "http://p" k' i') := by
  intro p x new c'
  have hstarts : p.Starts [⟨7, "alice", 0, 0⟩] (.ok ∅) := by decide +kernel
  have hstarted := started_spec hstarts
  have husers : x.session.users = [⟨7, "alice", 0, 0⟩] := by rw [hstarted.session]
  have hholds : x.core.Holds x.session.tag {} x.session.users := by
    rw [husers]
    exact hstarted.holds (by decide) rfl fun _ _ => List.not_mem_nil
  have hmeanwhile : ∀ e ∈ [NodeEvent.beginSync, .alive (.ok ∅)], e.list? = none := by
    simp [NodeEvent.list?]
  have htakes : (x.run [.beginSync, .alive (.ok ∅)]).TakesOver new := by decide +kernel
  exact ⟨hholds, sync_moves_all_stores hstarted.tag hholds (by rw [husers]; decide) (by decide)
    hmeanwhile htakes⟩

end RunningNode

end NodeAgent
