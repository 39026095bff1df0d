import Mathlib.Tactic

/-!
# Accumulators

An accumulator takes in amounts, and gives out `limit` at once, at most once for each amount,
when it holds more than that.

Nothing is lost (`total_conserved`), it holds nothing negative, and when no amount is larger
than the limit it holds no more than the limit, so that how often it has given out is fixed by
the sum alone, in whatever amounts that has come (`taken_eq_ceil`).
-/

namespace Foundations

/-- What is held, and how often the limit was given out. -/
structure Accumulator where
  rest : ℤ := 0
  taken : ℕ := 0

namespace Accumulator

variable {limit : ℤ}

def add (limit : ℤ) (a : Accumulator) (amount : ℤ) : Accumulator :=
  if limit < a.rest + amount then ⟨a.rest + amount - limit, a.taken + 1⟩
  else ⟨a.rest + amount, a.taken⟩

/-- An empty accumulator after the amounts. -/
def total (limit : ℤ) (amounts : List ℤ) : Accumulator := amounts.foldl (add limit) {}

@[simp] theorem total_nil : total limit [] = {} := rfl

theorem total_concat (amounts : List ℤ) (amount : ℤ) :
    total limit (amounts ++ [amount]) = add limit (total limit amounts) amount :=
  List.foldl_concat _ _ _ _

/-- What was given out and what is held is what was taken in. -/
theorem total_conserved (amounts : List ℤ) :
    limit * (total limit amounts).taken + (total limit amounts).rest = amounts.sum := by
  induction amounts using List.reverseRecOn with
  | nil => simp
  | append_singleton amounts amount ih =>
      rw [total_concat, List.sum_append, List.sum_singleton, ← ih]
      unfold add
      split
      · push_cast
        ring
      · push_cast
        ring

/-- What holds at first and is kept by every amount holds of the total. -/
theorem total_invariant {P : Accumulator → Prop} {Q : ℤ → Prop} (hinit : P {})
    (hadd : ∀ a amount, Q amount → P a → P (add limit a amount)) {amounts : List ℤ}
    (hamounts : ∀ a ∈ amounts, Q a) : P (total limit amounts) := by
  induction amounts using List.reverseRecOn with
  | nil => exact hinit
  | append_singleton amounts amount ih =>
      rw [total_concat]
      apply hadd
      · exact hamounts amount (by simp)
      · exact ih fun a ha => hamounts a (List.mem_append_left _ ha)

theorem rest_nonneg {amounts : List ℤ} (hamounts : ∀ a ∈ amounts, 0 ≤ a) :
    0 ≤ (total limit amounts).rest := by
  apply total_invariant (P := fun a => 0 ≤ a.rest) _ _ hamounts
  · exact le_refl 0
  · intro a amount hamount hrest
    unfold add
    split
    · dsimp only
      omega
    · exact add_nonneg hrest hamount

/-- Amounts within the limit leave no more than the limit. -/
theorem rest_le (hlimit : 0 ≤ limit) {amounts : List ℤ} (hle : ∀ a ∈ amounts, a ≤ limit) :
    (total limit amounts).rest ≤ limit := by
  apply total_invariant (P := fun a => a.rest ≤ limit) _ _ hle
  · exact hlimit
  · intro a amount hamount hrest
    unfold add
    split
    · dsimp only
      omega
    · rename_i hwithin
      exact not_lt.mp hwithin

theorem rest_pos {amounts : List ℤ} (hamounts : ∀ a ∈ amounts, 0 ≤ a)
    (hsum : 0 < amounts.sum) : 0 < (total limit amounts).rest := by
  induction amounts using List.reverseRecOn with
  | nil => exact absurd hsum (lt_irrefl 0)
  | append_singleton amounts amount ih =>
      have hfront : ∀ a ∈ amounts, 0 ≤ a := fun a ha => hamounts a (List.mem_append_left _ ha)
      have hrest : 0 ≤ (total limit amounts).rest := rest_nonneg hfront
      have hamount := hamounts amount (by simp)
      rw [List.sum_append, List.sum_singleton] at hsum
      rw [total_concat, add]
      split
      · dsimp only
        omega
      · dsimp only
        -- either this amount is positive or those before it were
        by_cases hbefore : 0 < amounts.sum
        · have hpos := ih hfront hbefore
          omega
        · omega

/-- In whatever amounts within the limit it has come, the sum says how often the limit was
given out. -/
theorem taken_eq_ceil (hlimit : 0 < limit) {amounts : List ℤ} (hamounts : ∀ a ∈ amounts, 0 ≤ a)
    (hle : ∀ a ∈ amounts, a ≤ limit) (hsum : 0 < amounts.sum) :
    ((total limit amounts).taken : ℤ) = ⌈(amounts.sum : ℚ) / limit⌉ - 1 := by
  have hconserved : limit * (total limit amounts).taken + (total limit amounts).rest =
      amounts.sum := total_conserved amounts
  have hpos : 0 < (total limit amounts).rest := rest_pos hamounts hsum
  have hrest := rest_le hlimit.le hle
  have hcast : (0 : ℚ) < limit := by exact_mod_cast hlimit
  have hceil : ⌈(amounts.sum : ℚ) / limit⌉ = (total limit amounts).taken + 1 := by
    have hsumCast : (amounts.sum : ℚ) =
        limit * (total limit amounts).taken + (total limit amounts).rest := by
      exact_mod_cast hconserved.symm
    have hposCast : (0 : ℚ) < (total limit amounts).rest := by exact_mod_cast hpos
    have hrestCast : ((total limit amounts).rest : ℚ) ≤ limit := by exact_mod_cast hrest
    rw [Int.ceil_eq_iff, lt_div_iff₀ hcast, div_le_iff₀ hcast, hsumCast]
    push_cast
    constructor
    · linarith
    · linarith
  rw [hceil]
  ring

theorem rest_le_of_taken_eq_zero (hlimit : 0 ≤ limit) {amounts : List ℤ}
    (htaken : (total limit amounts).taken = 0) : (total limit amounts).rest ≤ limit := by
  induction amounts using List.reverseRecOn with
  | nil => exact hlimit
  | append_singleton amounts amount ih =>
      rw [total_concat, add] at htaken ⊢
      split at htaken
      · exact absurd htaken (Nat.succ_ne_zero _)
      · rename_i hwithin
        rw [if_neg hwithin]
        exact not_lt.mp hwithin

theorem taken_eq_zero_of_sum_le {amounts : List ℤ} (hamounts : ∀ a ∈ amounts, 0 ≤ a)
    (hsum : amounts.sum ≤ limit) : (total limit amounts).taken = 0 := by
  induction amounts using List.reverseRecOn with
  | nil => rfl
  | append_singleton amounts amount ih =>
      have hamount := hamounts amount (by simp)
      rw [List.sum_append, List.sum_singleton] at hsum
      have htaken := ih (fun a ha => hamounts a (List.mem_append_left _ ha)) (by omega)
      -- all that was taken in so far is held
      have hconserved : limit * (total limit amounts).taken + (total limit amounts).rest =
          amounts.sum := total_conserved amounts
      rw [htaken, Nat.cast_zero, mul_zero, zero_add] at hconserved
      rw [total_concat, add, if_neg (by omega)]
      exact htaken

/-- As long as the sum is within the limit nothing is given out. -/
theorem taken_eq_zero_iff (hlimit : 0 ≤ limit) {amounts : List ℤ}
    (hamounts : ∀ a ∈ amounts, 0 ≤ a) :
    (total limit amounts).taken = 0 ↔ amounts.sum ≤ limit := by
  constructor
  · intro htaken
    have hrest := rest_le_of_taken_eq_zero hlimit htaken
    calc amounts.sum = limit * (total limit amounts).taken + (total limit amounts).rest :=
          (total_conserved amounts).symm
      _ = (total limit amounts).rest := by rw [htaken, Nat.cast_zero, mul_zero, zero_add]
      _ ≤ limit := hrest
  · exact taken_eq_zero_of_sum_le hamounts

end Accumulator

end Foundations
