import NodeAgent.Http.Message

/-!
Answers of a panel that marks what it sends with a version. A request may name the version that is
known already, and the panel then need not send the same thing again.
-/

namespace NodeAgent

namespace HttpResponse

def carried (r : Option HttpResponse) : Option Content :=
  r.bind fun resp =>
    if resp.status = notModified ∨ resp.isError then none
    else resp.body.map fun body => ⟨resp.etag, body⟩

theorem content_eq_some_iff {u : String} {r : Option HttpResponse} {c : Content} :
    content u r = .ok (some c) ↔ carried r = some c := by
  cases r with
  | none => simp [content, carried]
  | some resp =>
    simp only [content, carried, Option.bind_some]
    by_cases hsame : resp.status = notModified
    · simp [hsame]
    · cases herror : resp.isError with
      | true => simp [hsame]
      | false => cases hbody : resp.body <;> simp [hsame]

theorem content_eq_none_iff {u : String} {r : Option HttpResponse} :
    content u r = .ok none ↔ ∃ resp, r = some resp ∧ resp.status = notModified := by
  cases r with
  | none => simp [content]
  | some resp =>
    simp only [content, Option.some.injEq, exists_eq_left']
    by_cases hsame : resp.status = notModified
    · simp [hsame]
    · cases herror : resp.isError with
      | true => simp [hsame]
      | false => cases hbody : resp.body <;> simp [hsame]

theorem carried_eq_some_iff {r : Option HttpResponse} {c : Content} :
    carried r = some c ↔ ∃ resp, r = some resp ∧ resp.status ≠ 304 ∧
      ¬(400 ≤ resp.status ∧ resp.status < 600) ∧ ∃ body, resp.body = some body ∧
        c = ⟨resp.etag, body⟩ := by
  cases r with
  | none => simp [carried]
  | some resp =>
    have herror : resp.isError = true ↔ 400 ≤ resp.status ∧ resp.status < 600 := by
      simp [isError]
    simp only [carried, Option.bind_some, Option.some.injEq, exists_eq_left']
    by_cases hnothing : resp.status = notModified ∨ resp.isError = true
    · rw [if_pos hnothing]
      simp only [reduceCtorEq, false_iff]
      rintro ⟨hstatus, hsuccess, -⟩
      rcases hnothing with h | h
      · exact hstatus h
      · exact hsuccess (herror.1 h)
    · rw [if_neg hnothing]
      obtain ⟨hstatus, hsuccess⟩ := not_or.1 hnothing
      rw [herror] at hsuccess
      simp only [Option.map_eq_some_iff]
      constructor
      · rintro ⟨body, hbody, rfl⟩
        exact ⟨hstatus, hsuccess, body, hbody, rfl⟩
      · rintro ⟨-, -, body, hbody, rfl⟩
        exact ⟨body, hbody, rfl⟩

end HttpResponse

variable {α : Type}

/-- Under the version `v` comes nothing but `of v`; `read` is what is made of a body. -/
def KeepsVersions (read : Content → Option α) (of : String → α) (r : Option HttpResponse) : Prop :=
  ∀ c v a, HttpResponse.carried r = some c → c.etag = some v → read c = some a → a = of v

structure Answers (read : Content → Option α) (of : String → α) (known : Option String) (now : α)
    (r : Option HttpResponse) : Prop where
  /-- Only who has the version that is in force is told that nothing is new. -/
  unchanged : ∀ resp, r = some resp → resp.status = HttpResponse.notModified →
    ∃ v, known = some v ∧ of v = now
  told : ∀ c a, HttpResponse.carried r = some c → read c = some a → a = now

end NodeAgent
