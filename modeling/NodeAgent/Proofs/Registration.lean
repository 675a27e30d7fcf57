import NodeAgent.Proofs.Enlisting

/-!
What holds of the registry inside the process whatever it is asked for: each port has one listener,
everything is filed under its own tag, a refusal changes nothing, and closing is for good.
-/

namespace NodeAgent.LocalEngine

inductive Call
  | addListener (l : Listener)
  | removeListener (tag : String)
  | addUsers (tag : String) (users : List Binding)
  | removeUsers (tag : String) (userTags : List String)
  | close
  deriving DecidableEq, Repr

def serve (e : LocalEngine) : Call → LocalEngine × Except EngineError Unit
  | .addListener l => e.addListener l
  | .removeListener tag => e.removeListener tag
  | .addUsers tag users =>
    let (e, r) := e.addUsers tag users
    (e, r.map fun _ => ())
  | .removeUsers tag userTags => e.removeUsers tag userTags
  | .close => e.close

def run (e : LocalEngine) (calls : List Call) : LocalEngine :=
  calls.foldl (fun e c => (e.serve c).1) e

def OwnTags (users : Table String Binding) : Prop := ∀ u b, users.find? u = some b → b.userTag = u

structure Sound (e : LocalEngine) : Prop where
  tags : ∀ t entry, e.entries.find? t = some entry → entry.listener.tag = t
  users : ∀ t entry, e.entries.find? t = some entry → OwnTags entry.users
  ports : ∀ t entry t' entry', e.entries.find? t = some entry → e.entries.find? t' = some entry' →
    entry.listener.port = entry'.listener.port → t = t'
  emptied : e.closed = true → e.entries = ∅

inductive Serving (e : LocalEngine) : Call → LocalEngine × Except EngineError Unit → Prop
  | refused {c : Call} (shut : e.closed = true) (other : c ≠ .close) :
      Serving e c (e, .error .closed)
  | conflict {l : Listener} {tag : String} (isOpen : e.closed = false)
      (holder : e.portHolder? l = some tag) :
      Serving e (.addListener l) (e, .error (.portInUse l.port tag))
  | unknown {c : Call} {tag : String} (isOpen : e.closed = false) :
      Serving e c (e, .error (.listenerNotFound tag))
  | registered {l : Listener} (isOpen : e.closed = false) (free : e.portHolder? l = none) :
      Serving e (.addListener l)
        ({ e with entries := e.entries.insert l.tag ⟨l, e.usersOf l.tag⟩ }, .ok ())
  | removed {tag : String} (isOpen : e.closed = false) :
      Serving e (.removeListener tag) ({ e with entries := e.entries.erase tag }, .ok ())
  | updated {c : Call} {tag : String} {entry : ListenerEntry} {users : Table String Binding}
      (isOpen : e.closed = false) (found : e.entries.find? tag = some entry)
      (own : OwnTags entry.users → OwnTags users) :
      Serving e c ({ e with entries := e.entries.insert tag { entry with users } }, .ok ())
  | closed : Serving e .close ({ closed := true }, .ok ())

section OwnTags

variable {users : Table String Binding}

theorem OwnTags.insertMany (h : OwnTags users) (bs : List Binding) :
    OwnTags (users.insertMany (bs.map fun b => (b.userTag, b))) := by
  induction bs generalizing users with
  | nil => exact h
  | cons b bs ih =>
    refine ih fun u b' hb' => ?_
    by_cases hu : u = b.userTag
    · rw [hu, Table.find?_insert_self] at hb'
      rw [hu, ← Option.some.inj hb']
    · rw [Table.find?_insert_of_ne _ _ hu] at hb'
      exact h u b' hb'

theorem OwnTags.eraseMany (h : OwnTags users) (tags : List String) :
    OwnTags (users.eraseMany tags) := by
  intro u b hb
  rw [Table.find?_eraseMany] at hb
  split at hb
  · cases hb
  · exact h u b hb

end OwnTags

variable {e e' : LocalEngine} {c : Call} {l : Listener} {tag : String}

theorem portHolder?_eq_some (h : e.portHolder? l = some tag) :
    tag ≠ l.tag ∧ ∃ entry, e.entries.find? tag = some entry ∧ entry.listener.port = l.port := by
  obtain ⟨⟨t, entry⟩, hfound, rfl⟩ := Option.map_eq_some_iff.1 h
  have hmem : (t, entry) ∈ e.entries.entries := List.mem_of_find?_eq_some hfound
  have hmatches := List.find?_some hfound
  simp only [Bool.and_eq_true, beq_iff_eq, bne_iff_ne] at hmatches
  exact ⟨hmatches.2, entry, (Table.find?_eq_some_iff ..).2 hmem, hmatches.1⟩

theorem portHolder?_eq_none (h : e.portHolder? l = none) {t : String} {entry : ListenerEntry}
    (hentry : e.entries.find? t = some entry) (ht : t ≠ l.tag) :
    entry.listener.port ≠ l.port := by
  intro hport
  have hnone := List.find?_eq_none.1 (Option.map_eq_none_iff.1 h) (t, entry)
    ((Table.find?_eq_some_iff ..).1 hentry)
  simp [hport, ht] at hnone

theorem serving_updateUsers {f : Table String Binding → Table String Binding} (hc : c ≠ .close)
    (hf : ∀ users, OwnTags users → OwnTags (f users)) : Serving e c (e.updateUsers tag f) := by
  unfold updateUsers
  split
  next hclosed => exact .refused hclosed hc
  next hopen =>
    have hopen : e.closed = false := by simpa using hopen
    split
    · exact .unknown hopen
    next entry hentry => exact .updated hopen hentry (hf entry.users)

theorem serving (e : LocalEngine) (c : Call) : Serving e c (e.serve c) := by
  cases c with
  | addListener l =>
    rw [serve, addListener]
    split
    next hclosed => exact .refused hclosed nofun
    next hopen =>
      have hopen : e.closed = false := by simpa using hopen
      split
      next tag hholder => exact .conflict hopen hholder
      next hfree => exact .registered hopen hfree
  | removeListener tag =>
    rw [serve, removeListener]
    split
    next hclosed => exact .refused hclosed nofun
    next hopen => exact .removed (by simpa using hopen)
  | addUsers tag users =>
    have hupdate : Serving e (.addUsers tag users)
        (e.updateUsers tag (·.insertMany (users.map fun b => (b.userTag, b)))) :=
      serving_updateUsers nofun fun _ h => h.insertMany users
    rw [serve, addUsers]
    generalize e.updateUsers tag (·.insertMany (users.map fun b => (b.userTag, b))) = p at hupdate ⊢
    rcases p with ⟨e', err | ⟨⟩⟩ <;> exact hupdate
  | removeUsers tag userTags =>
    rw [serve, removeUsers]
    exact serving_updateUsers nofun fun _ h => h.eraseMany userTags
  | close => exact .closed

theorem Sound.insert (h : e.Sound) (hopen : e.closed = false) {entry : ListenerEntry}
    (htag : entry.listener.tag = tag) (husers : OwnTags entry.users)
    (hport : ∀ t other, e.entries.find? t = some other → t ≠ tag →
      other.listener.port ≠ entry.listener.port) :
    Sound { e with entries := e.entries.insert tag entry } := by
  have hfind : ∀ t found, (e.entries.insert tag entry).find? t = some found →
      t = tag ∧ found = entry ∨ t ≠ tag ∧ e.entries.find? t = some found := by
    intro t found hfound
    by_cases ht : t = tag
    · rw [ht, Table.find?_insert_self] at hfound
      exact .inl ⟨ht, (Option.some.inj hfound).symm⟩
    · rw [Table.find?_insert_of_ne _ _ ht] at hfound
      exact .inr ⟨ht, hfound⟩
  constructor
  case tags =>
    intro t found hfound
    rcases hfind t found hfound with ⟨rfl, rfl⟩ | ⟨-, hold⟩
    · exact htag
    · exact h.tags t found hold
  case users =>
    intro t found hfound
    rcases hfind t found hfound with ⟨-, rfl⟩ | ⟨-, hold⟩
    · exact husers
    · exact h.users t found hold
  case ports =>
    intro t found t' found' hfound hfound' hsame
    rcases hfind t found hfound with ⟨rfl, rfl⟩ | ⟨ht, hold⟩ <;>
      rcases hfind t' found' hfound' with ⟨rfl, rfl⟩ | ⟨ht', hold'⟩
    · rfl
    · exact absurd hsame.symm (hport t' found' hold' ht')
    · exact absurd hsame (hport t found hold ht)
    · exact h.ports t found t' found' hold hold' hsame
  case emptied => exact fun hclosed => absurd hclosed (by simp [hopen])

theorem Sound.erase (h : e.Sound) (hopen : e.closed = false) (tag : String) :
    Sound { e with entries := e.entries.erase tag } := by
  have hfind : ∀ t found, (e.entries.erase tag).find? t = some found →
      e.entries.find? t = some found := by
    intro t found hfound
    rw [Table.find?_erase] at hfound
    split at hfound
    · cases hfound
    · exact hfound
  exact ⟨fun t found hf => h.tags t found (hfind t found hf),
    fun t found hf => h.users t found (hfind t found hf),
    fun t found t' found' hf hf' =>
      h.ports t found t' found' (hfind t found hf) (hfind t' found' hf'),
    fun hclosed => absurd hclosed (by simp [hopen])⟩

theorem sound_empty (closed : Bool) : Sound { closed } := by
  have hnone : ∀ t, (∅ : Table String ListenerEntry).find? t = none := fun _ => rfl
  exact ⟨by simp [hnone], by simp [hnone], by simp [hnone], fun _ => rfl⟩

theorem Sound.usersOf (h : e.Sound) (tag : String) : OwnTags (e.usersOf tag) := by
  intro u b hb
  rw [LocalEngine.usersOf] at hb
  cases hentry : e.entries.find? tag with
  | none =>
    rw [hentry] at hb
    cases hb
  | some entry =>
    rw [hentry] at hb
    exact h.users tag entry hentry u b hb

theorem Sound.serve (h : e.Sound) (c : Call) : (e.serve c).1.Sound := by
  have hserving := serving e c
  generalize e.serve c = p at hserving ⊢
  cases hserving with
  | refused => exact h
  | conflict => exact h
  | unknown => exact h
  | registered isOpen free =>
    exact h.insert isOpen rfl (h.usersOf _)
      fun t other hother ht => portHolder?_eq_none free hother ht
  | removed isOpen => exact h.erase isOpen _
  | @updated _ tag entry users isOpen found own =>
    -- the listener stays, and so no other has its port
    refine h.insert isOpen (h.tags tag entry found) (own (h.users tag entry found)) ?_
    exact fun t other hother ht hsame => ht (h.ports t other tag entry hother found hsame)
  | closed => exact sound_empty true

theorem Sound.run (h : e.Sound) (calls : List Call) : (e.run calls).Sound := by
  induction calls generalizing e with
  | nil => exact h
  | cons c calls ih => exact ih (h.serve c)

theorem serve_error {err : EngineError} (h : e.serve c = (e', .error err)) : e' = e := by
  have hserving := serving e c
  rw [h] at hserving
  cases hserving <;> rfl

theorem serve_portInUse {port : UInt16} (h : e.serve c = (e', .error (.portInUse port tag))) :
    ∃ l, c = .addListener l ∧ l.port = port ∧ e.portHolder? l = some tag := by
  have hserving := serving e c
  rw [h] at hserving
  cases hserving with
  | conflict isOpen holder => exact ⟨_, rfl, rfl, holder⟩

theorem serve_of_closed (h : e.closed = true) (hc : c ≠ .close) :
    e.serve c = (e, .error .closed) := by
  have hserving := serving e c
  generalize e.serve c = p at hserving ⊢
  cases hserving with
  | refused => rfl
  | conflict isOpen => simp [h] at isOpen
  | unknown isOpen => simp [h] at isOpen
  | registered isOpen => simp [h] at isOpen
  | removed isOpen => simp [h] at isOpen
  | updated isOpen => simp [h] at isOpen
  | closed => exact absurd rfl hc

theorem closed_serve (h : e.closed = true ∨ c = .close) : (e.serve c).1.closed = true := by
  by_cases hc : c = .close
  · rw [hc]
    rfl
  · have hclosed : e.closed = true := h.resolve_right hc
    rw [serve_of_closed hclosed hc]
    exact hclosed

theorem closed_run {calls : List Call} (h : e.closed = true ∨ .close ∈ calls) :
    (e.run calls).closed = true := by
  induction calls generalizing e with
  | nil => exact h.resolve_right List.not_mem_nil
  | cons c calls ih =>
    refine ih ?_
    rcases h with hclosed | hmem
    · exact .inl (closed_serve (.inl hclosed))
    · rcases List.mem_cons.1 hmem with hc | hrest
      · exact .inl (closed_serve (.inr hc.symm))
      · exact .inr hrest

theorem Sound.listener? (h : e.Sound) {t : String} (hl : e.listener? t = some l) :
    l.tag = t ∧ ∀ t' l', e.listener? t' = some l' → l'.port = l.port → t' = t := by
  obtain ⟨entry, hentry, rfl⟩ := Option.map_eq_some_iff.1 hl
  refine ⟨h.tags t entry hentry, fun t' l' hl' hport => ?_⟩
  obtain ⟨entry', hentry', rfl⟩ := Option.map_eq_some_iff.1 hl'
  exact h.ports t' entry' t entry hentry' hentry hport

theorem Sound.portHolder? (h : e.Sound) (hholder : e.portHolder? l = some tag) :
    tag ≠ l.tag ∧ ∀ t, (∃ held, e.listener? t = some held ∧ held.port = l.port) ↔ t = tag := by
  obtain ⟨htag, entry, hentry, hport⟩ := portHolder?_eq_some hholder
  have hheld : e.listener? tag = some entry.listener := by rw [LocalEngine.listener?, hentry]; rfl
  refine ⟨htag, fun t => ⟨?_, ?_⟩⟩
  · rintro ⟨held, hl, hsame⟩
    exact (h.listener? hheld).2 t held hl (hsame.trans hport.symm)
  · rintro rfl
    exact ⟨entry.listener, hheld, hport⟩

/--
Whatever calls were made: the listeners have different ports, and everything is filed under its own
tag. Of the next call: a listener that comes or changes leaves all users where they are, an error
leaves everything as it is, and a port in use is held by the listener that is named and no other.
After a close there is no listener, and every call but another close is refused.
-/
theorem registry_sound (calls : List Call) :
    let e := run {} calls
    (∀ t t' l l', e.listener? t = some l → e.listener? t' = some l' → t ≠ t' → l.port ≠ l'.port) ∧
      (∀ t l, e.listener? t = some l → l.tag = t) ∧
      (∀ t u b, (e.usersOf t).find? u = some b → b.userTag = u) ∧
      (∀ l e', e.serve (.addListener l) = (e', .ok ()) →
        e'.listener? l.tag = some l ∧ ∀ t, e'.usersOf t = e.usersOf t) ∧
      (∀ c e' err, e.serve c = (e', .error err) → e' = e) ∧
      (∀ c e' port tag, e.serve c = (e', .error (.portInUse port tag)) →
        ∃ l, c = .addListener l ∧ l.port = port ∧ tag ≠ l.tag ∧
          ∀ t, (∃ held, e.listener? t = some held ∧ held.port = port) ↔ t = tag) ∧
      (.close ∈ calls →
        (∀ t, e.listener? t = none) ∧ ∀ c, c ≠ .close → e.serve c = (e, .error .closed)) := by
  intro e
  have hsound : e.Sound := (sound_empty false).run calls
  refine ⟨?_, ?_, ?_, ?_, fun c e' err => serve_error, ?_, ?_⟩
  · intro t t' l l' hl hl' ht hport
    exact ht ((hsound.listener? hl').2 t l hl hport)
  · intro t l hl
    exact (hsound.listener? hl).1
  · intro t u b hb
    exact hsound.usersOf t u b hb
  · intro l e' hadded
    refine ⟨?_, (addListener_ok hadded).1⟩
    rw [(addListener_registers hadded).2.2, if_pos rfl]
  · intro c e' port tag hrefused
    obtain ⟨l, rfl, rfl, hholder⟩ := serve_portInUse hrefused
    obtain ⟨htag, hone⟩ := hsound.portHolder? hholder
    exact ⟨l, rfl, rfl, htag, hone⟩
  · intro hclosed
    have hover : e.closed = true := closed_run (.inr hclosed)
    refine ⟨fun t => ?_, fun c hc => serve_of_closed hover hc⟩
    rw [LocalEngine.listener?, hsound.emptied hover]
    rfl

section Ports

def vmessAt (tag : String) (port : UInt16) : Listener :=
  ⟨tag, "0.0.0.0", port, .vmess, .tcp none, .none, .vmess, []⟩

theorem port_passed_on :
    let alice : Binding := ⟨"b|alice", 1, .vmess "alice"⟩
    let e := run {} [.addListener (vmessAt "a" 1), .addListener (vmessAt "b" 2),
      .addUsers "b" [alice]]
    let moved := e.run [.addListener (vmessAt "a" 3), .addListener (vmessAt "b" 1)]
    e.serve (.addListener (vmessAt "b" 1)) = (e, .error (.portInUse 1 "a")) ∧
      (∀ t, (∃ held, e.listener? t = some held ∧ held.port = 1) ↔ t = "a") ∧
      (moved.usersOf "b").find? "b|alice" = some alice ∧ alice.userTag = "b|alice" := by
  intro alice e moved
  obtain ⟨-, -, -, -, -, hport, -⟩ := registry_sound [.addListener (vmessAt "a" 1),
    .addListener (vmessAt "b" 2), .addUsers "b" [alice]]
  obtain ⟨-, -, hown, -⟩ := registry_sound [.addListener (vmessAt "a" 1),
    .addListener (vmessAt "b" 2), .addUsers "b" [alice], .addListener (vmessAt "a" 3),
    .addListener (vmessAt "b" 1)]
  have hrefused : e.serve (.addListener (vmessAt "b" 1)) = (e, .error (.portInUse 1 "a")) := rfl
  have hfound : (moved.usersOf "b").find? "b|alice" = some alice := by decide +kernel
  obtain ⟨l, -, -, -, hone⟩ := hport _ _ _ _ hrefused
  exact ⟨hrefused, hone, hfound, hown _ _ _ hfound⟩

end Ports

end NodeAgent.LocalEngine
