import Mathlib.Algebra.Order.Ring.Rat
import Mathlib.Tactic.Linarith
import NodeAgent.Limit.Bucket

/-!
One bucket that many consumptions share, in exact numbers. Each has its turns at the bucket with
waits between them, in any order. Whatever the order is, the bucket gives no more in any span of
time than its rate allows and one second's amount, and every consumption that comes to its end has
taken what it asked for.
-/

namespace NodeAgent

namespace Bucket

inductive Status
  | waiting (remaining due : ℚ)
  | returned
  deriving DecidableEq

def Status.left : Status → ℚ
  | .waiting remaining _ => remaining
  | .returned => 0

structure Consumption where
  bytes : UInt64
  status : Status
  deriving DecidableEq

structure Taking where
  instant : ℚ
  consumption : Nat
  amount : ℚ

structure Shared where
  bucket : Bucket ℚ ℚ
  now : ℚ
  consumptions : List Consumption := []
  takings : List Taking := []

inductive Occasion
  | begins (bytes : UInt64)
  | elapse (now : ℚ)
  | turn (consumption : Nat)

namespace Shared

def new (rate : UInt64) (now : ℚ) : Shared := { bucket := Bucket.new rate now, now }

def take (s : Shared) (i : Nat) (bytes : UInt64) (remaining : ℚ) : Shared :=
  let (bucket, attempt) := s.bucket.attempt remaining s.now
  let status := match attempt with
    | .done => .returned
    | .wait left seconds => .waiting left (s.now + seconds)
  { s with
    bucket
    consumptions := s.consumptions.set i ⟨bytes, status⟩
    takings := s.takings ++ [⟨s.now, i, (s.bucket.refill s.now).available - bucket.available⟩] }

def step (s : Shared) : Occasion → Shared
  | .begins bytes =>
    { s with consumptions := s.consumptions ++ [⟨bytes, .waiting (Amount.ofWord bytes) s.now⟩] }
  | .elapse now => { s with now := max s.now now }
  | .turn i =>
    match s.consumptions[i]? with
    | some ⟨bytes, .waiting remaining due⟩ => if due ≤ s.now then s.take i bytes remaining else s
    | _ => s

def run (s : Shared) (occasions : List Occasion) : Shared := occasions.foldl step s

end Shared

def total (takings : List Taking) : ℚ := (takings.map (·.amount)).sum

namespace Shared

def takenBy (s : Shared) (i : Nat) : ℚ := total (s.takings.filter (·.consumption = i))

def takenSince (s : Shared) (t₁ : ℚ) : ℚ := total (s.takings.filter (t₁ ≤ ·.instant))

def takenWithin (s : Shared) (t₁ t₂ : ℚ) : ℚ :=
  total (s.takings.filter fun t => t₁ ≤ t.instant ∧ t.instant ≤ t₂)

end Shared

section Total

theorem total_filter_concat (p : Taking → Bool) (takings : List Taking) (t : Taking) :
    total ((takings ++ [t]).filter p) =
      total (takings.filter p) + if p t then t.amount else 0 := by
  cases h : p t <;> simp [total, List.filter_append, h]

theorem total_filter_eq_zero {p : Taking → Bool} {takings : List Taking}
    (h : ∀ t ∈ takings, p t = false) : total (takings.filter p) = 0 := by
  have hnone : takings.filter p = [] := by
    rw [List.filter_eq_nil_iff]
    intro t ht
    rw [h t ht]
    exact Bool.false_ne_true
  rw [hnone]
  rfl

end Total

section Attempt

variable {b : Bucket ℚ ℚ} {remaining now : ℚ}

theorem refill_available (b : Bucket ℚ ℚ) (now : ℚ) :
    (b.refill now).available =
      min (b.available + b.rate.toNat * (now - b.filled)) b.rate.toNat := by
  rw [min_def]
  rfl

theorem attempt_of_enough (hrate : b.rate ≠ 0) (h : remaining ≤ (b.refill now).available) :
    b.attempt remaining now =
      ({ b.refill now with available := (b.refill now).available - remaining }, .done) := by
  have hcovers : Amount.covers (b.refill now).available remaining = true := decide_eq_true h
  rw [attempt, if_neg hrate]
  exact if_pos hcovers

theorem attempt_of_short (hrate : b.rate ≠ 0) (h : ¬remaining ≤ (b.refill now).available) :
    b.attempt remaining now =
      ({ b.refill now with available := 0 },
        .wait (remaining - (b.refill now).available)
          (min ((remaining - (b.refill now).available) / b.rate.toNat) 1)) := by
  have hcovers : ¬Amount.covers (b.refill now).available remaining = true := fun hc =>
    h (of_decide_eq_true hc)
  rw [attempt, if_neg hrate, min_def]
  exact if_neg hcovers

end Attempt

namespace Shared

variable {s : Shared} {rate : UInt64}

def fill (s : Shared) : Shared := { s with bucket := s.bucket.refill s.now }

def draw (s : Shared) (i : Nat) (c : Consumption) (amount : ℚ) : Shared where
  bucket := { s.bucket with available := s.bucket.available - amount }
  now := s.now
  consumptions := s.consumptions.set i c
  takings := s.takings ++ [⟨s.now, i, amount⟩]

theorem take_eq (s : Shared) (hrate : s.bucket.rate ≠ 0) (i : Nat) (bytes : UInt64)
    (remaining : ℚ) :
    let amount := min remaining s.fill.bucket.available
    ∃ status : Status, status.left = remaining - amount ∧
      s.take i bytes remaining = s.fill.draw i ⟨bytes, status⟩ amount := by
  intro amount
  by_cases h : remaining ≤ s.fill.bucket.available
  · have hamount : amount = remaining := min_eq_left h
    refine ⟨.returned, ?_, ?_⟩
    · rw [hamount, sub_self]
      rfl
    · rw [take, attempt_of_enough hrate h, hamount]
      simp only [draw, fill, sub_sub_cancel]
  · have hamount : amount = s.fill.bucket.available := min_eq_right (not_le.mp h).le
    refine ⟨.waiting (remaining - s.fill.bucket.available)
      (s.now + min ((remaining - s.fill.bucket.available) / s.bucket.rate.toNat) 1), ?_, ?_⟩
    · rw [hamount]
      rfl
    · rw [take, attempt_of_short hrate h, hamount]
      simp only [draw, fill, sub_zero, sub_self]

theorem takenBy_draw (s : Shared) (i : Nat) (c : Consumption) (amount : ℚ) (j : Nat) :
    (s.draw i c amount).takenBy j = s.takenBy j + if i = j then amount else 0 := by
  rw [takenBy, draw, total_filter_concat]
  simp only [decide_eq_true_eq, takenBy]

theorem takenSince_draw (s : Shared) (i : Nat) (c : Consumption) (amount t₁ : ℚ) :
    (s.draw i c amount).takenSince t₁ =
      s.takenSince t₁ + if t₁ ≤ s.now then amount else 0 := by
  rw [takenSince, draw, total_filter_concat]
  simp only [decide_eq_true_eq, takenSince]

theorem takenWithin_draw (s : Shared) (i : Nat) (c : Consumption) (amount t₁ t₂ : ℚ) :
    (s.draw i c amount).takenWithin t₁ t₂ =
      s.takenWithin t₁ t₂ + if t₁ ≤ s.now ∧ s.now ≤ t₂ then amount else 0 := by
  rw [takenWithin, draw, total_filter_concat]
  simp only [decide_eq_true_eq, takenWithin]

structure Sound (rate : UInt64) (s : Shared) : Prop where
  rate_eq : s.bucket.rate = rate
  filled_le : s.bucket.filled ≤ s.now
  available_nonneg : 0 ≤ s.bucket.available
  available_le : s.bucket.available ≤ rate.toNat
  amount_nonneg : ∀ t ∈ s.takings, 0 ≤ t.amount
  instant_le : ∀ t ∈ s.takings, t.instant ≤ s.bucket.filled
  consumption_lt : ∀ t ∈ s.takings, t.consumption < s.consumptions.length
  left_nonneg : ∀ c ∈ s.consumptions, 0 ≤ c.status.left
  takenBy_add_left : ∀ i c, s.consumptions[i]? = some c →
    s.takenBy i + c.status.left = c.bytes.toNat
  since_le : ∀ t₁ ≤ s.bucket.filled,
    s.takenSince t₁ + s.bucket.available ≤ rate.toNat * (s.bucket.filled - t₁) + rate.toNat
  within_le : ∀ t₁ t₂, t₁ ≤ t₂ → s.takenWithin t₁ t₂ ≤ rate.toNat * (t₂ - t₁) + rate.toNat

theorem gain_nonneg (rate : UInt64) {t₁ t₂ : ℚ} (h : t₁ ≤ t₂) :
    0 ≤ (rate.toNat : ℚ) * (t₂ - t₁) :=
  mul_nonneg (Nat.cast_nonneg _) (sub_nonneg.mpr h)

theorem sound_new (rate : UInt64) (now : ℚ) : (new rate now).Sound rate where
  rate_eq := rfl
  filled_le := le_refl now
  available_nonneg := Nat.cast_nonneg _
  available_le := le_refl _
  amount_nonneg := List.forall_mem_nil _
  instant_le := List.forall_mem_nil _
  consumption_lt := List.forall_mem_nil _
  left_nonneg := List.forall_mem_nil _
  takenBy_add_left := by simp [new]
  since_le := by
    intro t₁ (h : t₁ ≤ now)
    exact add_le_add_left (gain_nonneg rate h) (rate.toNat : ℚ)
  within_le := by
    intro t₁ t₂ h
    exact add_nonneg (gain_nonneg rate h) (Nat.cast_nonneg _)

namespace Sound

theorem begins (h : s.Sound rate) (bytes : UInt64) : (s.step (.begins bytes)).Sound rate where
  __ := h
  consumption_lt := by
    intro t ht
    have hlt := h.consumption_lt t ht
    simp only [step, List.length_append]
    omega
  left_nonneg := by
    intro c hc
    rcases List.mem_append.mp hc with hc | hc
    · exact h.left_nonneg c hc
    · cases List.mem_singleton.mp hc
      exact Nat.cast_nonneg _
  takenBy_add_left := by
    intro i c hc
    rcases lt_or_ge i s.consumptions.length with hi | hi
    · rw [step, List.getElem?_append_left hi] at hc
      exact h.takenBy_add_left i c hc
    · rw [step, List.getElem?_append_right hi] at hc
      -- nothing has been taken for a consumption that there was not
      have hnone : s.takenBy i = 0 := total_filter_eq_zero fun t ht =>
        decide_eq_false (ne_of_lt ((h.consumption_lt t ht).trans_le hi))
      cases List.mem_singleton.mp (List.mem_of_getElem? hc)
      have hbytes : s.takenBy i + Amount.ofWord bytes = (bytes.toNat : ℚ) := by
        rw [hnone]
        exact zero_add _
      exact hbytes

theorem elapse (h : s.Sound rate) (now : ℚ) : (s.step (.elapse now)).Sound rate where
  __ := h
  filled_le := h.filled_le.trans (le_max_left _ _)

theorem fill (h : s.Sound rate) : s.fill.Sound rate := by
  have havailable : s.fill.bucket.available =
      min (s.bucket.available + rate.toNat * (s.now - s.bucket.filled)) rate.toNat := by
    rw [Shared.fill, refill_available, h.rate_eq]
  have hle_rate : s.fill.bucket.available ≤ rate.toNat := havailable ▸ min_le_right _ _
  refine { h with
    filled_le := le_refl s.now
    available_nonneg := ?_
    available_le := hle_rate
    instant_le := fun t ht => (h.instant_le t ht).trans h.filled_le
    since_le := ?_ }
  · rw [havailable]
    exact le_min (add_nonneg h.available_nonneg (gain_nonneg rate h.filled_le)) (Nat.cast_nonneg _)
  · intro t₁ (ht₁ : t₁ ≤ s.now)
    change s.takenSince t₁ + s.fill.bucket.available ≤ rate.toNat * (s.now - t₁) + rate.toNat
    rcases le_or_gt t₁ s.bucket.filled with hold | hlate
    · have hsince := h.since_le t₁ hold
      have hgained : s.fill.bucket.available ≤
          s.bucket.available + rate.toNat * (s.now - s.bucket.filled) :=
        havailable ▸ min_le_left _ _
      linarith
    · -- all takings were earlier
      have hnone : s.takenSince t₁ = 0 := total_filter_eq_zero fun t ht =>
        decide_eq_false (not_le.mpr ((h.instant_le t ht).trans_lt hlate))
      have hspan := gain_nonneg rate ht₁
      linarith

theorem takenWithin_eq (h : s.Sound rate) (t₁ : ℚ) {t₂ : ℚ} (ht₂ : s.bucket.filled ≤ t₂) :
    s.takenWithin t₁ t₂ = s.takenSince t₁ := by
  have hsame : s.takings.filter (fun t => t₁ ≤ t.instant ∧ t.instant ≤ t₂) =
      s.takings.filter (t₁ ≤ ·.instant) := by
    apply List.filter_congr
    intro t ht
    rw [decide_eq_decide]
    exact and_iff_left ((h.instant_le t ht).trans ht₂)
  rw [takenWithin, hsame, takenSince]

theorem draw (h : s.Sound rate) (hfilled : s.bucket.filled = s.now) {i : Nat} {bytes : UInt64}
    {status status' : Status} (hc : s.consumptions[i]? = some ⟨bytes, status⟩) {amount : ℚ}
    (hleft : status'.left = status.left - amount) (hnonneg : 0 ≤ amount)
    (hmissing : amount ≤ status.left) (havailable : amount ≤ s.bucket.available) :
    (s.draw i ⟨bytes, status'⟩ amount).Sound rate where
  rate_eq := h.rate_eq
  filled_le := h.filled_le
  available_nonneg := sub_nonneg.mpr havailable
  available_le := (sub_le_self _ hnonneg).trans h.available_le
  amount_nonneg := by
    intro t ht
    rcases List.mem_append.mp ht with ht | ht
    · exact h.amount_nonneg t ht
    · cases List.mem_singleton.mp ht
      exact hnonneg
  instant_le := by
    intro t ht
    rcases List.mem_append.mp ht with ht | ht
    · exact h.instant_le t ht
    · cases List.mem_singleton.mp ht
      exact hfilled.ge
  consumption_lt := by
    intro t ht
    rw [Shared.draw, List.length_set]
    rcases List.mem_append.mp ht with ht | ht
    · exact h.consumption_lt t ht
    · cases List.mem_singleton.mp ht
      exact (List.getElem?_eq_some_iff.mp hc).1
  left_nonneg := by
    intro d hd
    rcases List.mem_or_eq_of_mem_set hd with hd | rfl
    · exact h.left_nonneg d hd
    · exact hleft ▸ sub_nonneg.mpr hmissing
  takenBy_add_left := by
    intro j d hd
    rw [takenBy_draw]
    by_cases hij : i = j
    · subst hij
      rw [Shared.draw, List.getElem?_set_self (List.getElem?_eq_some_iff.mp hc).1] at hd
      have hbooked : s.takenBy i + status.left = bytes.toNat := h.takenBy_add_left i _ hc
      cases hd
      rw [if_pos rfl, hleft]
      linarith
    · rw [Shared.draw, List.getElem?_set_ne hij] at hd
      rw [if_neg hij, add_zero]
      exact h.takenBy_add_left j d hd
  since_le := by
    intro t₁ (ht₁ : t₁ ≤ s.bucket.filled)
    have hsince := h.since_le t₁ ht₁
    rw [takenSince_draw, if_pos (hfilled ▸ ht₁)]
    change s.takenSince t₁ + amount + (s.bucket.available - amount) ≤
      rate.toNat * (s.bucket.filled - t₁) + rate.toNat
    linarith
  within_le := by
    intro t₁ t₂ ht
    rw [takenWithin_draw]
    split
    case isTrue hnow =>
      obtain ⟨ht₁, ht₂⟩ := hnow
      have hsince := h.since_le t₁ (hfilled ▸ ht₁)
      have hspan : rate.toNat * (s.bucket.filled - t₁) ≤ rate.toNat * (t₂ - t₁) :=
        mul_le_mul_of_nonneg_left (sub_le_sub_right (hfilled ▸ ht₂) t₁) (Nat.cast_nonneg _)
      rw [h.takenWithin_eq t₁ (hfilled ▸ ht₂)]
      linarith
    case isFalse =>
      rw [add_zero]
      exact h.within_le t₁ t₂ ht

theorem turn (h : s.Sound rate) (hrate : rate ≠ 0) (i : Nat) :
    (s.step (.turn i)).Sound rate := by
  rw [step]
  split
  case h_1 bytes remaining due hc =>
    split
    case isTrue =>
      obtain ⟨status, hleft, htake⟩ :=
        s.take_eq (h.rate_eq ▸ hrate) i bytes remaining
      have hmissing : 0 ≤ remaining := h.left_nonneg _ (List.mem_of_getElem? hc)
      rw [htake]
      exact h.fill.draw rfl hc hleft (le_min hmissing h.fill.available_nonneg)
        (min_le_left _ _) (min_le_right _ _)
    case isFalse => exact h
  case h_2 => exact h

theorem step (h : s.Sound rate) (hrate : rate ≠ 0) (o : Occasion) : (s.step o).Sound rate := by
  cases o with
  | begins bytes => exact h.begins bytes
  | elapse now => exact h.elapse now
  | turn i => exact h.turn hrate i

theorem run (h : s.Sound rate) (hrate : rate ≠ 0) (occasions : List Occasion) :
    (s.run occasions).Sound rate := by
  induction occasions generalizing s with
  | nil => exact h
  | cons o occasions ih => exact ih (h.step hrate o)

end Sound

/--
However many consumptions there are and whenever their turns come, the bucket never holds less than
nothing or more than one second's amount, before a turn and after it. What a consumption has taken
and what it still misses make up what it asked for; one that has returned misses nothing. In no span
of time is more taken than the rate allows for it and one second's amount.
-/
theorem within_rate (rate : UInt64) (hrate : rate ≠ 0) (start : ℚ) (occasions : List Occasion) :
    let s := (new rate start).run occasions
    (0 ≤ s.bucket.available ∧ s.bucket.available ≤ rate.toNat) ∧
    (∀ now, s.now ≤ now →
      0 ≤ (s.bucket.refill now).available ∧ (s.bucket.refill now).available ≤ rate.toNat) ∧
    (∀ t ∈ s.takings, 0 ≤ t.amount) ∧
    (∀ i bytes, s.consumptions[i]? = some ⟨bytes, .returned⟩ → s.takenBy i = bytes.toNat) ∧
    (∀ i bytes remaining due, s.consumptions[i]? = some ⟨bytes, .waiting remaining due⟩ →
      0 ≤ remaining ∧ s.takenBy i + remaining = bytes.toNat) ∧
    (∀ t₁ t₂, t₁ ≤ t₂ → s.takenWithin t₁ t₂ ≤ rate.toNat * (t₂ - t₁) + rate.toNat) := by
  intro s
  have h : s.Sound rate := (sound_new rate start).run hrate occasions
  refine ⟨⟨h.available_nonneg, h.available_le⟩, ?_, h.amount_nonneg, ?_, ?_, h.within_le⟩
  · intro now hnow
    have hfill := (h.elapse now).fill
    have hlater : max s.now now = now := max_eq_right hnow
    have hbucket : (s.step (.elapse now)).fill.bucket = s.bucket.refill now := by
      rw [Shared.step, Shared.fill, hlater]
    exact hbucket ▸ ⟨hfill.available_nonneg, hfill.available_le⟩
  · intro i bytes hi
    have hall := h.takenBy_add_left i _ hi
    rwa [Status.left, add_zero] at hall
  · intro i bytes remaining due hi
    exact ⟨h.left_nonneg _ (List.mem_of_getElem? hi), h.takenBy_add_left i _ hi⟩

/-- The first gets what the bucket holds and waits for the rest, the second waits for everything.
The last turn of the first is later than it asked for. -/
def twoAtOnce : List Occasion :=
  [.begins 1500, .begins 1000, .turn 0, .turn 1, .elapse 1, .turn 1, .turn 0, .elapse 2, .turn 0]

theorem twoAtOnce_within_rate :
    let s := (new 1000 0).run twoAtOnce
    s.consumptions = [⟨1500, .returned⟩, ⟨1000, .returned⟩] ∧
    (s.bucket.refill 3).available = 1000 ∧
    s.takenBy 0 = 1500 ∧ s.takenBy 1 = 1000 ∧
    s.takenWithin 0 1 = 2000 ∧ s.takenWithin 0 1 ≤ 1000 * (1 - 0) + 1000 := by
  intro s
  have hreturned : s.consumptions = [⟨1500, .returned⟩, ⟨1000, .returned⟩] := by decide +kernel
  obtain ⟨-, -, -, htaken, -, hwithin⟩ :=
    within_rate 1000 (by decide) 0 twoAtOnce
  refine ⟨hreturned, by decide +kernel, ?_, ?_, by decide +kernel, hwithin 0 1 (by decide +kernel)⟩
  · exact htaken 0 1500 (by rw [hreturned]; rfl)
  · exact htaken 1 1000 (by rw [hreturned]; rfl)

end Shared

end Bucket

end NodeAgent
