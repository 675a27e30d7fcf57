import NodeAgent.Proofs.Start

/-!
The engine of a node serves nobody who is not in the list that the node goes by. A sync that stops
after the departures has only taken users out, and the old list still has all who are left.
-/

namespace NodeAgent

section Moved

variable {c c' : Core LocalEngine} {tag : String} {old new : List User}

theorem Core.Moved.listed_of_diff
    (h : Core.Moved c c' tag (UserDiff.between old new).deleted (UserDiff.between old new).added)
    (hold : ∀ t ∈ (c.engine.usersOf tag).keys, t ∈ userTags tag old) :
    ∀ t ∈ (c'.engine.usersOf tag).keys, t ∈ userTags tag new := by
  intro t ht
  rcases (h.engine t).1 ht with ⟨hkept, hd⟩ | hadded
  · exact UserDiff.mem_userTags_new (hold t hkept) hd
  · exact UserDiff.mem_userTags_of_added hadded

theorem Core.Moved.listed_of_departures {gone : List User} (h : Core.Moved c c' tag gone [])
    (hold : ∀ t ∈ (c.engine.usersOf tag).keys, t ∈ userTags tag old) :
    ∀ t ∈ (c'.engine.usersOf tag).keys, t ∈ userTags tag old := by
  intro t ht
  rcases (h.engine t).1 ht with ⟨hkept, -⟩ | hnone
  · exact hold t hkept
  · exact absurd hnone List.not_mem_nil

end Moved

namespace RunningNode

def Listed (x : RunningNode LocalEngine) : Prop :=
  ∀ t ∈ (x.core.engine.usersOf x.session.tag).keys, t ∈ userTags x.session.tag x.session.users

namespace Listed

variable {x : RunningNode LocalEngine} {d : LimitDefaults}

theorem of_sameUsers {y : RunningNode LocalEngine} (h : x.Listed) (hs : y.session = x.session)
    (hsame : Core.SameUsers x.core y.core x.session.tag) : y.Listed := by
  unfold Listed
  rw [hs, hsame.engine]
  exact h

theorem of_synced (h : x.Listed) (hready : x.Ready d) {l : List User} (hfits : ∀ u ∈ l, d.Fits u)
    {r : Advance LocalEngine} (hr : x.session.Synced x.core l r) (sync : Errand) :
    Listed { x with session := r.session, core := r.core, sync } := by
  cases hr with
  | taken c' moved => exact moved.listed_of_diff h
  | refused f c' moved => exact moved.listed_of_departures h
  | overflowed o c' moved limits unfit =>
    -- the arrivals are in the engine and not in the list, but this cannot be
    obtain ⟨lim, hlim, u, hu, hunfit⟩ := unfit
    obtain ⟨lim', hlim', rfl⟩ := hready.limiter
    obtain rfl : lim = lim' := Option.some.inj (hlim.symm.trans hlim')
    exact absurd (hfits u hu) hunfit

theorem step (h : x.Listed) (hready : x.Ready d) {e : NodeEvent}
    (hfits : ∀ l, e.list? = some l → ∀ u ∈ l, d.Fits u) : (x.step e).Listed := by
  have hstep := hready.stepped e
  generalize x.step e = y at hstep ⊢
  cases hstep with
  | same _ _ session users => exact h.of_sameUsers session users
  | synced l r list _ _ synced => exact h.of_synced hready (hfits l list) synced _

theorem run (h : x.Listed) (hready : x.Ready d) {es : List NodeEvent}
    (hfits : ∀ l ∈ NodeEvent.lists es, ∀ u ∈ l, d.Fits u) : (x.run es).Listed := by
  have hboth := run_invariant (P := fun y => y.Listed ∧ y.Ready d)
    (fun y e he hy => ⟨hy.1.step hy.2 fun l hl => hfits l (NodeEvent.mem_lists he hl),
      hy.2.step e⟩) ⟨h, hready⟩
  exact hboth.1

end Listed

section Started

variable {χ π : Type} [Shell χ] [PanelApi π χ] {p : Place χ LocalEngine π} {users : List User}
  {alive : Except PanelError AliveCounts}

/-- Whoever is not in the node's list is not served, after any run and after any list taken over. -/
theorem unlisted_not_served (h : p.Starts users alive)
    (unused : (p.core.engine.usersOf p.node.session.tag).keys = []) {es : List NodeEvent}
    (fits : ∀ l ∈ NodeEvent.lists es, ∀ u ∈ l, p.core.limit.Fits u) :
    let x := (started p users alive).run es
    x.Listed ∧ ∀ l, x.TakesOver l →
      ∀ t ∈ ((x.step (.users (.ok (some l)))).core.engine.usersOf x.session.tag).keys,
        t ∈ userTags x.session.tag l := by
  intro x
  have hstarted := started_spec h
  have hlisted : (started p users alive).Listed := by
    intro t ht
    rcases (hstarted.engine t).1 ht with hbefore | hnew
    · rw [hstarted.tag, unused] at hbefore
      exact absurd hbefore List.not_mem_nil
    · rwa [hstarted.session] at hnew ⊢
  have hx : x.Listed := hlisted.run hstarted.ready fits
  refine ⟨hx, fun l htakes => ?_⟩
  obtain ⟨c', hstep, hmoved, -⟩ := htakes.step_eq
  rw [hstep]
  exact hmoved.listed_of_diff hx

end Started

section AliceGoes

def aliceSlows : List NodeEvent :=
  [.beginSync, .alive (.ok ∅), .users (.ok (some [⟨7, "alice", 8, 0⟩])), .beginSync, .alive (.ok ∅)]

theorem alice_not_served_after_bob :
    let p := Place.fresh "aes-128-gcm"
    let x := (started p [⟨7, "alice", 0, 0⟩] (.ok ∅)).run aliceSlows
    x.Listed ∧ x.TakesOver [⟨8, "bob", 0, 0⟩] ∧
      ∀ t ∈ ((x.step (.users (.ok (some [⟨8, "bob", 0, 0⟩])))).core.engine.usersOf
        x.session.tag).keys, t ∈ userTags x.session.tag [⟨8, "bob", 0, 0⟩] := by
  intro p x
  have hstarts : p.Starts [⟨7, "alice", 0, 0⟩] (.ok ∅) := by decide +kernel
  have hfits : ∀ l ∈ NodeEvent.lists aliceSlows, ∀ u ∈ l, p.core.limit.Fits u := by
    decide +kernel
  have htakes : x.TakesOver [⟨8, "bob", 0, 0⟩] := by decide +kernel
  obtain ⟨hlisted, hserved⟩ := unlisted_not_served hstarts rfl hfits
  exact ⟨hlisted, htakes, hserved _ htakes⟩

end AliceGoes

end RunningNode

end NodeAgent
