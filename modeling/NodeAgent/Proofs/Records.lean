import NodeAgent.Proofs.Start

/-!
By which record of the panel a node serves a user: the limits that it enforces, and the ids that its
limiter, its reports and its engine go by. A start takes them all from its list. A sync takes those of
its arrivals; whoever stays under the same key keeps the record that he came with.
-/

namespace NodeAgent

/-- What the stores of a node have about one user, if they know him. -/
structure Standing where
  /-- The id and the device limit that the limiter goes by. -/
  limits : Option (Int × UInt32)
  /-- The id under which traffic is reported. -/
  reported : Option Int
  /-- The id of the binding in the engine. -/
  bound : Option Int
  deriving DecidableEq, Repr

def LimitDefaults.standing (d : LimitDefaults) (u : User) : Standing where
  limits := some (u.id, resolveLimit d.deviceLimit u.deviceLimit)
  reported := some u.id
  bound := some u.id

theorem LimitDefaults.standing_eq_iff {d : LimitDefaults} {u v : User} :
    d.standing u = d.standing v ↔ u.id = v.id ∧
      resolveLimit d.deviceLimit u.deviceLimit = resolveLimit d.deviceLimit v.deviceLimit := by
  simp only [standing, Standing.mk.injEq, Option.some.injEq, Prod.mk.injEq]
  exact ⟨fun h => h.1, fun h => ⟨h, h.1, h.1⟩⟩

/-- A record of the old list with the key of `u` stays in force; without one it is `u` itself. -/
def UserDiff.inForce (old : List User) (u : User) : User :=
  (old.find? fun v => v.key = u.key).getD u

namespace UserDiff

variable {old new : List User} {u v : User}

theorem key_inForce (old : List User) (u : User) : (inForce old u).key = u.key := by
  unfold inForce
  cases hfind : old.find? fun v => v.key = u.key with
  | none => rfl
  | some v => simpa using List.find?_some hfind

theorem inForce_of_kept (h : Distinct old) (hv : v ∈ old) (hkey : v.key = u.key) :
    inForce old u = v := by
  have hsome : (old.find? fun w => decide (w.key = u.key)).isSome = true := by
    rw [List.find?_isSome]
    exact ⟨v, hv, by simpa using hkey⟩
  obtain ⟨w, hw⟩ := Option.isSome_iff_exists.1 hsome
  have hwkey : w.key = u.key := by simpa using List.find?_some hw
  rw [inForce, hw, Option.getD_some]
  exact eq_of_uuid_eq h (List.mem_of_find?_eq_some hw) hv
    (User.key_eq_iff.1 (hwkey.trans hkey.symm)).1

theorem inForce_of_new (hkey : u.key ∉ old.map User.key) : inForce old u = u := by
  have hnone : (old.find? fun w => decide (w.key = u.key)) = none := by
    rw [List.find?_eq_none]
    intro w hw hwkey
    exact hkey (User.mem_keys_iff.2 ⟨w, hw, by simpa using hwkey⟩)
  rw [inForce, hnone, Option.getD_none]

theorem distinct_inForce (h : Distinct new) : Distinct (new.map (inForce old)) := by
  have huuid : (new.map (inForce old)).map (·.uuid) = new.map (·.uuid) := by
    rw [List.map_map]
    exact List.map_congr_left fun u _ => (User.key_eq_iff.1 (key_inForce old u)).1
  rwa [Distinct, huuid]

end UserDiff

namespace Limiter

variable {l l' : Limiter} {now : Instant}

def limitsOf (l : Limiter) (user : String) : Option (Int × UInt32) :=
  (l.users.find? user).map fun limit => (limit.uid, limit.deviceLimit)

theorem userLimit_record {u : User} {limit : UserLimit} (h : l.userLimit u now = .ok limit) :
    limit.uid = u.id ∧ limit.deviceLimit = resolveLimit l.defaults.deviceLimit u.deviceLimit := by
  unfold userLimit at h
  by_cases hspeed : resolveLimit l.defaults.speedLimit u.speedLimit = 0
  · simp only [hspeed, if_true] at h
    cases h
    exact ⟨rfl, rfl⟩
  · simp only [hspeed, if_false] at h
    cases hrate : bytesPerSecond (resolveLimit l.defaults.speedLimit u.speedLimit) with
    | error o =>
      rw [hrate] at h
      cases h
    | ok rate =>
      rw [hrate] at h
      cases h
      exact ⟨rfl, rfl⟩

theorem update_limitsOf {come gone : List User} (h : l.update come gone now = .ok l')
    (distinct : Distinct come) {u : User} (hu : u ∈ come) :
    l'.limitsOf (userTag l.tag u.uuid) =
      some (u.id, resolveLimit l.defaults.deviceLimit u.deviceLimit) := by
  unfold update at h
  cases hm : come.mapM fun u => (l.userLimit u now).map (userTag l.tag u.uuid, ·) with
  | error o =>
    rw [hm] at h
    cases h
  | ok limits =>
    rw [hm] at h
    cases h
    have htags : limits.map Prod.fst = userTags l.tag come :=
      map_eq_of_mapM_ok (fun _ _ hu => (tagged_userLimit_ok hu).1) hm
    obtain ⟨⟨t, limit⟩, hmem, htagged⟩ := exists_of_mapM_ok hm hu
    have hfind := Table.find?_insertMany_of_mem
      (l.users.eraseMany (gone.map fun u => userTag l.tag u.uuid))
      (htags ▸ nodup_userTags distinct) hmem
    cases hlimit : l.userLimit u now with
    | error o =>
      rw [hlimit] at htagged
      cases htagged
    | ok limit' =>
      rw [hlimit] at htagged
      cases htagged
      obtain ⟨hid, hdevices⟩ := userLimit_record hlimit
      rw [limitsOf, hfind, Option.map_some, hid, hdevices]

theorem ofUsers_limitsOf {tag : String} {d : LimitDefaults} {users : List User}
    {alive : AliveCounts} (h : ofUsers tag d users alive now = .ok l) (distinct : Distinct users)
    {u : User} (hu : u ∈ users) :
    l.limitsOf (userTag tag u.uuid) = some (u.id, resolveLimit d.deviceLimit u.deviceLimit) := by
  unfold ofUsers at h
  cases hupdate : update { tag, defaults := d } users [] now with
  | error o =>
    rw [hupdate] at h
    cases h
  | ok l' =>
    rw [hupdate] at h
    cases h
    exact update_limitsOf hupdate distinct hu

theorem update_limitsOf_of_notMem {come gone : List User} {user : String}
    (h : l.update come gone now = .ok l') (hgone : user ∉ userTags l.tag gone)
    (hcome : user ∉ userTags l.tag come) : l'.limitsOf user = l.limitsOf user := by
  rw [limitsOf, limitsOf, (update_ok h).kept user hgone hcome]

end Limiter

namespace Core

variable {c c' : Core LocalEngine} {tag : String} {info : NodeInfo} {users : List User}

def standing (c : Core LocalEngine) (tag uuid : String) : Standing where
  limits := (c.limiters.find? tag).bind (·.limitsOf (userTag tag uuid))
  reported := c.uids.find? (userTag tag uuid)
  bound := ((c.engine.usersOf tag).find? (userTag tag uuid)).map (·.uid)

theorem SameUsers.standing (h : SameUsers c c' tag) (uuid : String) :
    c'.standing tag uuid = c.standing tag uuid := by
  have hlimits : (c'.limiters.find? tag).bind (·.limitsOf (userTag tag uuid)) =
      (c.limiters.find? tag).bind (·.limitsOf (userTag tag uuid)) := by
    have hview (o : Option Limiter) : o.bind (·.limitsOf (userTag tag uuid)) =
        (o.map Limiter.rules).bind fun r =>
          (r.2.2.find? (userTag tag uuid)).map fun limit => (limit.uid, limit.deviceLimit) := by
      cases o <;> rfl
    rw [hview, hview, h.rules]
  rw [Core.standing, Core.standing, h.engine, h.uids, hlimits]

theorem delUsers_standing {uuid : String} (h : c.delUsers tag users = (c', .ok ()))
    (hstays : userTag tag uuid ∉ userTags tag users) :
    c'.standing tag uuid = c.standing tag uuid := by
  simp only [delUsers] at h
  split at h
  · simp at h
  next c₁ hcall =>
    obtain ⟨hact, hc₁⟩ := callEngine_ok hcall
    obtain ⟨husers, -, -⟩ := LocalEngine.removeUsers_ok hact
    obtain ⟨rfl, -⟩ := Prod.mk.inj h
    rw [hc₁]
    simp only [Core.standing, husers, Table.find?_eraseMany]
    exact congr (congrArg _ (if_neg hstays)) (congrArg _ (if_neg hstays))

theorem addUsers_calls {n : Nat} (h : c.addUsers tag info users = (c', .ok n)) :
    ∃ bindings, Binding.ofUsers info tag users = .ok bindings ∧
      c'.engine.usersOf tag =
        (c.engine.usersOf tag).insertMany (bindings.map fun b => (b.userTag, b)) ∧
      c'.uids = c.uids.insertMany (bindings.map fun b => (b.userTag, b.uid)) ∧
      c'.limiters = c.limiters := by
  unfold addUsers at h
  split at h
  · simp at h
  next bindings hbindings =>
    obtain ⟨hact, hc'⟩ := callEngine_ok h
    obtain ⟨husers, -, -⟩ := LocalEngine.addUsers_ok hact
    refine ⟨bindings, hbindings, husers, ?_, ?_⟩ <;> rw [hc']

theorem addUsers_standing_of_notMem {n : Nat} {uuid : String}
    (h : c.addUsers tag info users = (c', .ok n)) (hother : userTag tag uuid ∉ userTags tag users) :
    c'.standing tag uuid = c.standing tag uuid := by
  obtain ⟨bindings, hbindings, husers, huids, hlimiters⟩ := addUsers_calls h
  have hbound := Table.find?_insertMany_of_notMem (c.engine.usersOf tag) _
    (Binding.keys_ofUsers id hbindings ▸ hother)
  have hids := Table.find?_insertMany_of_notMem c.uids _
    (Binding.keys_ofUsers (·.uid) hbindings ▸ hother)
  simp only [id] at hbound
  rw [Core.standing, Core.standing, hlimiters, husers, huids, hbound, hids]

theorem addUsers_ids {n : Nat} (h : c.addUsers tag info users = (c', .ok n))
    (distinct : Distinct users) {u : User} (hu : u ∈ users) :
    (c'.standing tag u.uuid).reported = some u.id ∧ (c'.standing tag u.uuid).bound = some u.id := by
  obtain ⟨bindings, hbindings, husers, huids, -⟩ := addUsers_calls h
  obtain ⟨b, hb, hbinding⟩ := exists_of_mapM_ok hbindings hu
  obtain ⟨htag, hid⟩ := Binding.ofUser_ok hbinding
  have hnodup : ∀ {β : Type} (f : Binding → β),
      ((bindings.map fun b => (b.userTag, f b)).map Prod.fst).Nodup := by
    intro β f
    rw [Binding.keys_ofUsers f hbindings]
    exact Limiter.nodup_userTags distinct
  have hids := Table.find?_insertMany_of_mem c.uids (hnodup (·.uid)) (List.mem_map.2 ⟨b, hb, rfl⟩)
  have hbound := Table.find?_insertMany_of_mem (c.engine.usersOf tag) (hnodup id)
    (List.mem_map.2 ⟨b, hb, rfl⟩)
  simp only [id, htag] at hids hbound
  rw [← hid]
  constructor
  · simp only [Core.standing, huids, hids]
  · simp only [Core.standing, husers, hbound, Option.map_some]

theorem updateLimiter_standing {d : UserDiff} {l : Limiter}
    (h : c.updateLimiter tag d = (c', .ok ())) (hl : c.limiters.find? tag = some l) (uuid : String) :
    ∃ l', l.update d.added d.deleted c.now = .ok l' ∧ c'.standing tag uuid =
      { c.standing tag uuid with limits := l'.limitsOf (userTag tag uuid) } := by
  have hfields := updateLimiter_fields h
  unfold updateLimiter at h
  rw [hl] at h
  dsimp only at h
  split at h
  · simp at h
  next l' hupdate =>
    obtain ⟨rfl, -⟩ := Prod.mk.inj h
    refine ⟨l', hupdate, ?_⟩
    simp only [Core.standing, Table.find?_insert_self, Option.bind_some]

end Core

namespace Session

variable {s s' : Session} {c c' : Core LocalEngine} {l : Limiter}

theorem applyDiff_ok {d : UserDiff} (h : s.applyDiff c d = (c', .ok ())) :
    ∃ c₁ c₂ n,
      (if d.deleted.isEmpty then (c, .ok ()) else c.delUsers s.tag d.deleted) = (c₁, .ok ()) ∧
      (if d.added.isEmpty then (c₁, .ok 0) else c₁.addUsers s.tag s.info d.added) = (c₂, .ok n) ∧
      c₂.updateLimiter s.tag d = (c', .ok ()) := by
  unfold applyDiff at h
  split at h
  · simp at h
  next c₁ hdel =>
    split at h
    · simp at h
    next c₂ n hadd =>
      rcases hup : c₂.updateLimiter s.tag d with ⟨c₃, o | u⟩
      · simp [hup, mapError_error] at h
      · simp only [hup, mapError_ok, Prod.mk.injEq] at h
        exact ⟨c₁, c₂, n, hdel, hadd, h.1 ▸ hup⟩

structure Restood (c c' : Core LocalEngine) (tag : String) (defaults : LimitDefaults)
    (d : UserDiff) : Prop where
  arrivals : ∀ u ∈ d.added, c'.standing tag u.uuid = defaults.standing u
  others : ∀ uuid, userTag tag uuid ∉ userTags tag d.deleted →
    userTag tag uuid ∉ userTags tag d.added → c'.standing tag uuid = c.standing tag uuid

theorem applyDiff_restood {d : UserDiff} (h : s.applyDiff c d = (c', .ok ()))
    (hl : c.limiters.find? s.tag = some l) (htag : l.tag = s.tag) (distinct : Distinct d.added) :
    Restood c c' s.tag l.defaults d := by
  obtain ⟨c₁, c₂, n, hdel, hadd, hup⟩ := applyDiff_ok h
  obtain ⟨-, hlimits₁⟩ := Core.departures_ok hdel
  obtain ⟨-, hlimits₂⟩ := Core.arrivals_ok hadd
  have hl₂ : c₂.limiters.find? s.tag = some l := by rw [hlimits₂, hlimits₁, hl]
  refine ⟨fun u hu => ?_, fun uuid hleft hcame => ?_⟩
  · have hsome : d.added.isEmpty = false := by
      rw [List.isEmpty_eq_false_iff]
      exact List.ne_nil_of_mem hu
    rw [if_neg (by simp [hsome])] at hadd
    obtain ⟨hreported, hbound⟩ := Core.addUsers_ids hadd distinct hu
    obtain ⟨l', hupdate, hstanding⟩ := Core.updateLimiter_standing hup hl₂ u.uuid
    rw [hstanding, ← htag, Limiter.update_limitsOf hupdate distinct hu, htag]
    simp only [LimitDefaults.standing, hreported, hbound]
  · have hdeparted : c₁.standing s.tag uuid = c.standing s.tag uuid := by
      split at hdel
      · rw [(Prod.mk.inj hdel).1]
      · exact Core.delUsers_standing hdel hleft
    have harrived : c₂.standing s.tag uuid = c₁.standing s.tag uuid := by
      split at hadd
      · rw [(Prod.mk.inj hadd).1]
      · exact Core.addUsers_standing_of_notMem hadd hcame
    obtain ⟨l', hupdate, hstanding⟩ := Core.updateLimiter_standing hup hl₂ uuid
    have hlimits : l'.limitsOf (userTag s.tag uuid) = (c₂.standing s.tag uuid).limits := by
      rw [Core.standing, hl₂]
      exact Limiter.update_limitsOf_of_notMem hupdate (htag ▸ hleft) (htag ▸ hcame)
    rw [hstanding, hlimits, harrived, hdeparted]

theorem afterUsers_restood {users : List User}
    (h : s.afterUsers c (.ok (some users)) = ⟨s', c', .finished (.ok ())⟩)
    (hl : c.limiters.find? s.tag = some l) (htag : l.tag = s.tag) (distinct : Distinct users) :
    Restood c c' s.tag l.defaults (UserDiff.between s.users users) := by
  simp only [afterUsers] at h
  split at h
  next c₁ hdiff =>
    obtain ⟨-, rfl, -⟩ := Advance.mk.inj h
    split at hdiff
    next hempty =>
      obtain ⟨rfl, -⟩ := Prod.mk.inj hdiff
      obtain ⟨-, hadded⟩ := UserDiff.isEmpty_iff.1 hempty
      exact ⟨fun u hu => absurd (hadded ▸ hu) List.not_mem_nil, fun _ _ _ => rfl⟩
    · exact applyDiff_restood hdiff hl htag (UserDiff.distinct_added distinct)
  next => simp at h
  next => simp at h

end Session

namespace RunningNode

def standing (x : RunningNode LocalEngine) (uuid : String) : Standing :=
  x.core.standing x.session.tag uuid

structure GoesBy (x : RunningNode LocalEngine) (d : LimitDefaults) (force : List User) : Prop where
  limiter : ∃ l, x.core.limiters.find? x.session.tag = some l ∧ l.tag = x.session.tag ∧
    l.defaults = d
  keys : force.map User.key = x.session.users.map User.key
  standing : ∀ u ∈ force, x.standing u.uuid = d.standing u

namespace GoesBy

variable {x y : RunningNode LocalEngine} {d : LimitDefaults} {force new : List User}

theorem of_sameUsers (h : x.GoesBy d force) (hs : y.session = x.session)
    (hsame : Core.SameUsers x.core y.core x.session.tag) : y.GoesBy d force := by
  obtain ⟨l, hl, htag, hdefaults⟩ := h.limiter
  have hrules := hsame.rules
  rw [hl, Option.map_some, Option.map_eq_some_iff] at hrules
  obtain ⟨l', hl', heq⟩ := hrules
  obtain ⟨htag', hdefaults', -⟩ : l'.tag = l.tag ∧ l'.defaults = l.defaults ∧
      l'.users = l.users := by simpa [Limiter.rules] using heq
  refine ⟨⟨l', ?_, ?_, hdefaults'.trans hdefaults⟩, ?_, fun u hu => ?_⟩
  · rw [hs, hl']
  · rw [hs, htag', htag]
  · rw [hs, h.keys]
  · rw [RunningNode.standing, hs, hsame.standing]
    exact h.standing u hu

theorem distinct (h : x.GoesBy d force) (hlist : Distinct x.session.users) : Distinct force := by
  have huuids (users : List User) : users.map (·.uuid) = (users.map User.key).map Prod.fst := by
    rw [List.map_map]
    rfl
  rwa [Distinct, huuids, h.keys, ← huuids]

theorem takesOver (h : x.GoesBy d force) (hlist : Distinct x.session.users) (hnew : Distinct new)
    (takes : x.TakesOver new) :
    (x.step (.users (.ok (some new)))).GoesBy d (new.map (UserDiff.inForce force)) := by
  obtain ⟨l, hl, htag, hdefaults⟩ := h.limiter
  obtain ⟨hw, hended⟩ := takes
  obtain ⟨c', hstep, -, hfollow⟩ := TakesOver.step_eq ⟨hw, hended⟩
  have hrestood : Session.Restood x.core c' x.session.tag d
      (UserDiff.between x.session.users new) := by
    rw [step_users_of_waiting hw, answerSync] at hstep
    rcases hr : x.session.resume x.core .users (.ok (some new)) with ⟨s₁, c₁, progress⟩
    rw [hr] at hended hstep
    obtain rfl : progress = .finished (.ok ()) := hended
    obtain rfl : c₁ = c' := congrArg RunningNode.core hstep
    exact hdefaults ▸ Session.afterUsers_restood hr hl htag hnew
  rw [hstep]
  obtain ⟨l', hl', hupdated⟩ := hfollow.node l hl
  refine ⟨⟨l', hl', hupdated.tag.trans htag, hupdated.defaults.trans hdefaults⟩, ?_, ?_⟩
  · rw [List.map_map]
    exact List.map_congr_left fun u _ => UserDiff.key_inForce force u
  · intro r hr
    obtain ⟨u, hu, rfl⟩ := List.mem_map.1 hr
    have huuid := (User.key_eq_iff.1 (UserDiff.key_inForce force u)).1
    rw [huuid]
    by_cases hkey : u.key ∈ x.session.users.map User.key
    · obtain ⟨v, hv, hvu⟩ := User.mem_keys_iff.1 hkey
      obtain ⟨w, hw, hwu⟩ := User.mem_keys_iff.1 (h.keys ▸ hkey)
      have hvuuid : v.uuid = u.uuid := (User.key_eq_iff.1 hvu).1
      have hleft : userTag x.session.tag u.uuid ∉
          userTags x.session.tag (UserDiff.between x.session.users new).deleted :=
        hvuuid ▸ UserDiff.notMem_deleted_of_kept hlist hv (User.mem_keys_iff.2 ⟨u, hu, hvu.symm⟩)
      have hcame : userTag x.session.tag u.uuid ∉
          userTags x.session.tag (UserDiff.between x.session.users new).added :=
        UserDiff.notMem_added_of_kept hnew hu hkey
      have hbefore := h.standing w hw
      rw [(User.key_eq_iff.1 hwu).1] at hbefore
      rw [UserDiff.inForce_of_kept (h.distinct hlist) hw hwu]
      exact (hrestood.others u.uuid hleft hcame).trans hbefore
    · rw [UserDiff.inForce_of_new (h.keys ▸ hkey)]
      exact hrestood.arrivals u (UserDiff.mem_added.2 ⟨hu, hkey⟩)

end GoesBy

section Started

variable {χ π : Type} [Shell χ] [PanelApi π χ] {p : Place χ LocalEngine π} {users old new : List User}
  {alive : Except PanelError AliveCounts}

theorem started_goesBy (h : p.Starts users alive) (distinct : Distinct users) :
    (started p users alive).GoesBy p.core.limit users := by
  have hstarted := started_spec h
  obtain ⟨l, hl, hupdated⟩ := hstarted.limiter
  refine ⟨⟨l, hl, hupdated.tag, hupdated.defaults⟩, by rw [hstarted.session], fun u hu => ?_⟩
  obtain ⟨l₁, p', hof, henroll, hturn⟩ := h.enrolls
  obtain ⟨hsession, hregister⟩ := Place.enroll_ok henroll
  obtain ⟨c₁, n, -, hadd⟩ := Session.registerUsers_calls hregister
  obtain ⟨hreported, hbound⟩ := Core.addUsers_ids hadd distinct hu
  have hcore : (started p users alive).core = p'.core := by rw [started, hturn, ofPlace]
  have htag : (started p users alive).session.tag = p.node.session.tag := hstarted.tag
  have hlimits : (p'.core.standing p.node.session.tag u.uuid).limits =
      some (u.id, resolveLimit p.core.limit.deviceLimit u.deviceLimit) := by
    obtain ⟨-, -, -, -, -, hlimiters, -⟩ := Session.registerUsers_ok hregister
    rw [Core.standing, hlimiters, Table.find?_insert_self, Option.bind_some]
    exact Limiter.ofUsers_limitsOf hof distinct hu
  rw [standing, hcore, htag]
  exact congr (congr (congrArg Standing.mk hlimits) hreported) hbound

/--
After a sync every user stands as the record in force says: his record of the old list, if it has
the key of the new one, and the new one otherwise. So he would after a start with these records.
-/
theorem standing_after_sync (h : p.Starts old alive) (distinct : Distinct old)
    (distinct' : Distinct new) {es : List NodeEvent} (meanwhile : ∀ e ∈ es, e.list? = none)
    (takes : ((started p old alive).run es).TakesOver new) :
    let x := (started p old alive).run (es ++ [.users (.ok (some new))])
    let d := p.core.limit
    ∀ u ∈ new,
      let r := UserDiff.inForce old u
      x.standing u.uuid = d.standing r ∧
        (x.standing u.uuid = d.standing u ↔ r.id = u.id ∧
          resolveLimit d.deviceLimit r.deviceLimit = resolveLimit d.deviceLimit u.deviceLimit) ∧
        ∀ (q : Place χ LocalEngine π) (alive' : Except PanelError AliveCounts),
          q.core.limit = d → q.Starts (new.map (UserDiff.inForce old)) alive' →
            (started q (new.map (UserDiff.inForce old)) alive').standing u.uuid =
              x.standing u.uuid := by
  intro x d u hu r
  obtain ⟨hs, hsame⟩ := (started p old alive).run_sameUsers meanwhile
  have hbefore := (started_goesBy h distinct).of_sameUsers hs hsame
  have hlist : Distinct ((started p old alive).run es).session.users := by
    rw [hs, (started_spec h).session]
    exact distinct
  have hafter : x.GoesBy d (new.map (UserDiff.inForce old)) := by
    have hx : x = ((started p old alive).run es).step (.users (.ok (some new))) :=
      run_append (started p old alive) es [.users (.ok (some new))]
    rw [hx]
    exact hbefore.takesOver hlist distinct' takes
  have hr : r ∈ new.map (UserDiff.inForce old) := List.mem_map.2 ⟨u, hu, rfl⟩
  have huuid : r.uuid = u.uuid := (User.key_eq_iff.1 (UserDiff.key_inForce old u)).1
  have hstands := hafter.standing r hr
  rw [huuid] at hstands
  refine ⟨hstands, ?_, fun q alive' hlimit hstarts => ?_⟩
  · rw [hstands]
    exact LimitDefaults.standing_eq_iff
  · have hq := (started_goesBy hstarts (UserDiff.distinct_inForce distinct')).standing r hr
    rw [huuid, hlimit] at hq
    rw [hq, hstands]

end Started

section FewerDevices

def twoDevices : List User := [⟨7, "alice", 0, 2⟩]

def oneDevice : List User := [⟨7, "alice", 0, 1⟩]

/-- Alice may have two devices, and a list arrives by which she may have one. -/
theorem alice_keeps_two_devices :
    let p := Place.fresh "aes-128-gcm"
    let x := (started p twoDevices (.ok ∅)).run [.beginSync, .alive (.ok ∅)]
    let y := x.step (.users (.ok (some oneDevice)))
    p.Starts twoDevices (.ok ∅) ∧ p.Starts oneDevice (.ok ∅) ∧ x.TakesOver oneDevice ∧
      ¬∀ u ∈ oneDevice, y.standing u.uuid = p.core.limit.standing u ∧
        y.standing u.uuid = (started p oneDevice (.ok ∅)).standing u.uuid := by
  intro p x y
  refine ⟨by decide +kernel, by decide +kernel, by decide +kernel, fun h => ?_⟩
  obtain ⟨hstands, -⟩ := h ⟨7, "alice", 0, 1⟩ (by decide)
  exact absurd hstands (by decide +kernel)

theorem alice_stands_as_at_start :
    let p := Place.fresh "aes-128-gcm"
    let x := (started p twoDevices (.ok ∅)).run
      ([.beginSync, .alive (.ok ∅)] ++ [.users (.ok (some oneDevice))])
    x.standing "alice" = p.core.limit.standing ⟨7, "alice", 0, 2⟩ ∧
      (started p twoDevices (.ok ∅)).standing "alice" = x.standing "alice" := by
  intro p x
  have hstarts : p.Starts twoDevices (.ok ∅) := by decide +kernel
  have hmeanwhile : ∀ e ∈ [NodeEvent.beginSync, .alive (.ok ∅)], e.list? = none := by
    simp [NodeEvent.list?]
  have htakes : ((started p twoDevices (.ok ∅)).run [.beginSync, .alive (.ok ∅)]).TakesOver
      oneDevice := by decide +kernel
  obtain ⟨hstands, -, hfresh⟩ := standing_after_sync hstarts (by decide) (by decide) hmeanwhile
    htakes ⟨7, "alice", 0, 1⟩ (by decide)
  exact ⟨hstands, hfresh p (.ok ∅) rfl hstarts⟩

end FewerDevices

end RunningNode

end NodeAgent
