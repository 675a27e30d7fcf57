import Mathlib.Control.Monad.Basic

/-! Lists that are gone through by steps of which each may be refused. -/

namespace NodeAgent

variable {α β γ ε δ : Type} {f : α → Except ε β}

theorem mapError_ok (g : ε → δ) (a : α) : (Except.ok a : Except ε α).mapError g = .ok a := rfl

theorem mapError_error (g : ε → δ) (e : ε) :
    (Except.error e : Except ε α).mapError g = .error (g e) := rfl

theorem exists_of_bind_eq_ok {x : Except ε α} {g : α → Except ε γ} {c : γ} (h : x >>= g = .ok c) :
    ∃ a, x = .ok a ∧ g a = .ok c := by
  cases x with
  | error e => cases h
  | ok a => exact ⟨a, rfl, h⟩

theorem mapM_cons_eq_ok {a : α} {l : List α} {r : List β} :
    (a :: l).mapM f = .ok r ↔ ∃ b r', f a = .ok b ∧ l.mapM f = .ok r' ∧ r = b :: r' := by
  rw [List.mapM_cons]
  cases f a with
  | error e => simp [bind, Except.bind]
  | ok b =>
    cases l.mapM f with
    | error e => simp [bind, Except.bind]
    | ok r' => simp [bind, Except.bind, pure, Except.pure, eq_comm]

theorem map_eq_of_mapM_ok {g : β → γ} {g' : α → γ} (hf : ∀ a b, f a = .ok b → g b = g' a)
    {l : List α} {r : List β} (h : l.mapM f = .ok r) : r.map g = l.map g' := by
  induction l generalizing r with
  | nil =>
    cases h
    rfl
  | cons a l ih =>
    obtain ⟨b, r', hb, hr, rfl⟩ := mapM_cons_eq_ok.1 h
    rw [List.map_cons, List.map_cons, hf a b hb, ih hr]

theorem exists_of_mapM_ok {l : List α} {r : List β} (h : l.mapM f = .ok r) {a : α} (ha : a ∈ l) :
    ∃ b ∈ r, f a = .ok b := by
  induction l generalizing r with
  | nil => cases ha
  | cons a' l ih =>
    obtain ⟨b, r', hb, hr, rfl⟩ := mapM_cons_eq_ok.1 h
    rcases List.mem_cons.1 ha with rfl | ha
    · exact ⟨b, List.mem_cons_self .., hb⟩
    · obtain ⟨b', hb', hf⟩ := ih hr ha
      exact ⟨b', List.mem_cons_of_mem _ hb', hf⟩

theorem exists_of_mem_mapM_ok {l : List α} {r : List β} (h : l.mapM f = .ok r) {b : β} (hb : b ∈ r) :
    ∃ a ∈ l, f a = .ok b := by
  induction l generalizing r with
  | nil =>
    cases h
    cases hb
  | cons a l ih =>
    obtain ⟨b', r', hb', hr, rfl⟩ := mapM_cons_eq_ok.1 h
    rcases List.mem_cons.1 hb with rfl | hb
    · exact ⟨a, List.mem_cons_self .., hb'⟩
    · obtain ⟨a', ha', hf⟩ := ih hr hb
      exact ⟨a', List.mem_cons_of_mem _ ha', hf⟩

theorem forall_of_mapM_ok {P : β → Prop} (hf : ∀ a b, f a = .ok b → P b) {l : List α}
    {r : List β} (h : l.mapM f = .ok r) : ∀ b ∈ r, P b := by
  intro b hb
  obtain ⟨a, -, ha⟩ := exists_of_mem_mapM_ok h hb
  exact hf a b ha

theorem exists_of_mapM_error {l : List α} {e : ε} (h : l.mapM f = .error e) :
    ∃ a ∈ l, f a = .error e := by
  induction l with
  | nil => cases h
  | cons a l ih =>
    rw [List.mapM_cons] at h
    cases ha : f a with
    | error e' =>
      rw [ha] at h
      cases h
      exact ⟨a, List.mem_cons_self .., ha⟩
    | ok b =>
      cases hl : l.mapM f with
      | error e' =>
        rw [ha, hl] at h
        cases h
        obtain ⟨a', ha', hf⟩ := ih hl
        exact ⟨a', List.mem_cons_of_mem _ ha', hf⟩
      | ok r =>
        rw [ha, hl] at h
        cases h

end NodeAgent
