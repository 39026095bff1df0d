import Mathlib.Tactic

/-!
# Counters that wrap

A signed machine integer with `2 * h` values keeps of a number its balanced remainder, which
lies between `-h` and `h`.  A number that is not negative is kept as it is below `h`, and from
there on comes out smaller by a whole modulus at least.

A counter that is advanced by the same amount each time and wraps like this goes up without
ever being negative exactly as long as the true count stays below `h`
(`climbs_counter_iff`).
-/

namespace Foundations

variable {h : ℕ} {n : ℤ}

theorem wrap_of_lt (hlow : 0 ≤ n) (hhigh : n < h) : n.bmod (2 * h) = n :=
  Int.bmod_eq_of_le (by push_cast; omega) (by push_cast; omega)

theorem wrap_lt (hpos : 0 < h) (n : ℤ) : n.bmod (2 * h) < h := by
  have hlt := Int.bmod_lt (x := n) (m := 2 * h) (by omega)
  push_cast at hlt
  omega

theorem neg_le_wrap (hpos : 0 < h) (n : ℤ) : -h ≤ n.bmod (2 * h) := by
  have hle := Int.le_bmod (x := n) (m := 2 * h) (by omega)
  push_cast at hle
  omega

/-- At least a whole modulus is lost. -/
theorem wrap_le_sub (hpos : 0 < h) (hhigh : h ≤ n) : n.bmod (2 * h) ≤ n - 2 * h := by
  obtain ⟨k, hk⟩ := Int.dvd_self_sub_bmod (x := n) (m := 2 * h)
  have hlt := wrap_lt hpos n
  push_cast at hk
  have hone : 1 ≤ k := by
    by_contra hnone
    have hprod : 2 * (h : ℤ) * k ≤ 0 := by
      apply mul_nonpos_of_nonneg_of_nonpos
      · omega
      · omega
    omega
  have hprod : 2 * (h : ℤ) * 1 ≤ 2 * h * k := by
    apply mul_le_mul_of_nonneg_left hone
    omega
  omega

/-! ## Counters -/

/-- The value of a counter after it was advanced `k` times. -/
def counter (h : ℕ) (start step : ℤ) (k : ℕ) : ℤ := (start + k * step).bmod (2 * h)

@[simp] theorem counter_succ (start step : ℤ) (k : ℕ) :
    counter h start step (k + 1) = (counter h start step k + step).bmod (2 * h) := by
  unfold counter
  rw [Int.bmod_add_bmod]
  congr 1
  push_cast
  ring

theorem counter_of_lt {start step : ℤ} {k : ℕ} (hlow : 0 ≤ start + k * step)
    (hhigh : start + k * step < h) : counter h start step k = start + k * step :=
  wrap_of_lt hlow hhigh

theorem counter_zero {start : ℤ} (hlow : -h ≤ start) (hhigh : start < h) (step : ℤ) :
    counter h start step 0 = start := by
  unfold counter
  rw [Nat.cast_zero, zero_mul, add_zero]
  exact Int.bmod_eq_of_le (by push_cast; omega) (by push_cast; omega)

/-- The first value that wraps is negative. -/
theorem counter_neg {start step : ℤ} {k : ℕ} (hpos : 0 < h) (hlt : step < h)
    (hbefore : start + k * step < h) (hwraps : h ≤ start + (k + 1 : ℕ) * step) :
    counter h start step (k + 1) < 0 := by
  have hnext : start + (k + 1 : ℕ) * step = start + k * step + step := by
    push_cast
    ring
  calc counter h start step (k + 1)
      ≤ start + (k + 1 : ℕ) * step - 2 * h := wrap_le_sub hpos hwraps
    _ < 0 := by
        rw [hnext]
        omega

/-- A counter that is never negative has not wrapped. -/
theorem forall_counter_nonneg_iff {start step : ℤ} (hstep : 0 < step) (hlt : step < h)
    (hlow : -h ≤ start) (hhigh : start < h) (count : ℕ) :
    (∀ k < count, 0 ≤ counter h start step k) ↔
      ∀ k < count, 0 ≤ start ∧ start + k * step < h := by
  constructor
  · intro hcounter k
    induction k with
    | zero =>
        intro hk
        have hstart := hcounter 0 hk
        rw [counter_zero hlow hhigh] at hstart
        exact ⟨hstart, by rw [Nat.cast_zero, zero_mul, add_zero]; exact hhigh⟩
    | succ k ih =>
        intro hk
        obtain ⟨hstart, hbefore⟩ := ih (Nat.lt_of_succ_lt hk)
        refine ⟨hstart, ?_⟩
        by_contra hwraps
        have hneg := counter_neg (by omega) hlt hbefore (not_lt.mp hwraps)
        exact absurd (hcounter (k + 1) hk) (not_le.mpr hneg)
  · intro hcount k hk
    obtain ⟨hstart, hfits⟩ := hcount k hk
    have hnonneg : 0 ≤ start + k * step := by positivity
    rw [counter_of_lt hnonneg hfits]
    exact hnonneg

/-- The values of a counter that has not wrapped go up. -/
theorem counter_lt_counter {start step : ℤ} (hstep : 0 < step) {count : ℕ}
    (hcount : ∀ k < count, 0 ≤ start ∧ start + k * step < h) {i j : ℕ} (hij : i < j)
    (hj : j < count) : counter h start step i < counter h start step j := by
  obtain ⟨hstart, hfitsi⟩ := hcount i (hij.trans hj)
  obtain ⟨_, hfitsj⟩ := hcount j hj
  rw [counter_of_lt (by positivity) hfitsi, counter_of_lt (by positivity) hfitsj]
  have hcast : (i : ℤ) < j := by exact_mod_cast hij
  have hmul := mul_lt_mul_of_pos_right hcast hstep
  omega

/-- None of the values is negative, and each is larger than those before it. -/
def Climbs (values : List ℤ) : Prop := (∀ v ∈ values, 0 ≤ v) ∧ values.Pairwise (· < ·)

/-- The first `count` values of a counter climb exactly when the last of them has not wrapped. -/
theorem climbs_counter_iff {start step : ℤ} (hstep : 0 < step) (hlt : step < h)
    (hlow : -h ≤ start) (hhigh : start < h) (count : ℕ) :
    Climbs ((List.range count).map (counter h start step)) ↔
      count = 0 ∨ 0 ≤ start ∧ start + (count - 1) * step < h := by
  have hlast : (∀ k < count, 0 ≤ start ∧ start + k * step < h) ↔
      count = 0 ∨ 0 ≤ start ∧ start + (count - 1) * step < h := by
    constructor
    · intro hall
      rcases Nat.eq_zero_or_pos count with hzero | hpos
      · exact Or.inl hzero
      · have hk := hall (count - 1) (by omega)
        rw [Nat.cast_sub hpos, Nat.cast_one] at hk
        exact Or.inr hk
    · rintro (rfl | ⟨hstart, hfits⟩) k hk
      · exact absurd hk (Nat.not_lt_zero k)
      · have hle : (k : ℤ) ≤ count - 1 := by omega
        have hmul := mul_le_mul_of_nonneg_right hle hstep.le
        exact ⟨hstart, by omega⟩
  rw [← hlast, ← forall_counter_nonneg_iff hstep hlt hlow hhigh]
  constructor
  · intro hclimbs k hk
    exact hclimbs.1 _ (List.mem_map_of_mem (List.mem_range.mpr hk))
  · intro hnonneg
    have hfits := (forall_counter_nonneg_iff hstep hlt hlow hhigh count).mp hnonneg
    constructor
    · intro v hv
      obtain ⟨k, hk, rfl⟩ := List.mem_map.mp hv
      exact hnonneg k (List.mem_range.mp hk)
    · rw [List.pairwise_map]
      refine List.pairwise_lt_range.imp_of_mem ?_
      intro i j _ hj hij
      exact counter_lt_counter hstep hfits hij (List.mem_range.mp hj)

end Foundations
