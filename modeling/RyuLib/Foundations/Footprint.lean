import Mathlib.Data.List.Range
import Mathlib.Logic.Function.Iterate
import Mathlib.Tactic

/-!
# The cells that a loop touches

The body of a loop reads and writes cells that depend on its state only, so the cells of a
whole loop are those of the states it passes through.  What the loop does not touch it
leaves alone (`iterate_frame`, `foldl_frame`).
-/

namespace Foundations

variable {σ α β γ : Type*}

/-- The cells that `n` rounds of `f` touch, one round touching `cells s`. -/
def touched (f : σ → σ) (cells : σ → List α) : ℕ → σ → List α
  | 0, _ => []
  | n + 1, s => cells s ++ touched f cells n (f s)

/-- The cells of a loop over a list. -/
def touchedBy (f : σ → β → σ) (cells : σ → β → List α) : List β → σ → List α
  | [], _ => []
  | b :: bs, s => cells s b ++ touchedBy f cells bs (f s b)

section

variable {f : σ → σ} {cells : σ → List α} {a : α}

theorem mem_touched {n : ℕ} {s : σ} :
    a ∈ touched f cells n s ↔ ∃ k < n, a ∈ cells (f^[k] s) := by
  induction n generalizing s with
  | zero => simp [touched]
  | succ n ih =>
      rw [touched, List.mem_append, ih, Nat.exists_lt_succ_left]
      rfl

/-- What sees only one cell is the same after a loop that does not touch the cell. -/
theorem iterate_frame (view : σ → γ) (hround : ∀ s, a ∉ cells s → view (f s) = view s) {n : ℕ}
    {s : σ} (h : a ∉ touched f cells n s) : view (f^[n] s) = view s := by
  induction n generalizing s with
  | zero => rfl
  | succ n ih =>
      rw [touched, List.mem_append, not_or] at h
      rw [Function.iterate_succ_apply, ih h.2, hround s h.1]

end

section

variable {f : σ → β → σ} {cells : σ → β → List α} {a : α}

theorem mem_touchedBy {bs : List β} {s : σ} :
    a ∈ touchedBy f cells bs s ↔
      ∃ front b back, bs = front ++ b :: back ∧ a ∈ cells (front.foldl f s) b := by
  induction bs generalizing s with
  | nil => simp [touchedBy]
  | cons b bs ih =>
      rw [touchedBy, List.mem_append, ih]
      constructor
      · rintro (hfirst | ⟨front, c, back, rfl, hlater⟩)
        · exact ⟨[], b, bs, rfl, hfirst⟩
        · exact ⟨b :: front, c, back, rfl, hlater⟩
      · rintro ⟨front, c, back, hsplit, hmem⟩
        cases front with
        | nil =>
            obtain ⟨rfl, -⟩ := List.cons_eq_cons.mp hsplit
            exact Or.inl hmem
        | cons d front =>
            obtain ⟨rfl, hbs⟩ := List.cons_eq_cons.mp hsplit
            exact Or.inr ⟨front, c, back, hbs, hmem⟩

/-- The cells of a loop that counts up to `n`. -/
theorem mem_touchedBy_range {f : σ → ℕ → σ} {cells : σ → ℕ → List α} {n : ℕ} {s : σ} :
    a ∈ touchedBy f cells (List.range n) s ↔
      ∃ k < n, a ∈ cells ((List.range k).foldl f s) k := by
  rw [mem_touchedBy]
  constructor
  · rintro ⟨front, k, back, hsplit, hmem⟩
    have hk := congrArg (fun l => l[front.length]?) hsplit
    have hlt : front.length < n := by
      have hlength := congrArg List.length hsplit
      simp only [List.length_range, List.length_append, List.length_cons] at hlength
      omega
    have hfront : front = List.range front.length := by
      have htake := congrArg (List.take front.length) hsplit
      rwa [List.take_range, min_eq_left hlt.le, List.take_left', eq_comm] at htake
      rfl
    simp only [List.getElem?_range hlt, List.getElem?_append_right le_rfl, Nat.sub_self,
      List.getElem?_cons_zero, Option.some.injEq] at hk
    rw [hfront, ← hk] at hmem
    exact ⟨front.length, hlt, hmem⟩
  · rintro ⟨k, hk, hmem⟩
    obtain ⟨rest, rfl⟩ := Nat.exists_eq_add_of_lt hk
    refine ⟨List.range k, k, (List.range rest).map fun i => k + (i + 1), ?_, hmem⟩
    rw [Nat.add_assoc, List.range_add, List.range_succ_eq_map]
    simp [Function.comp_def]

theorem foldl_frame (view : σ → γ) (hround : ∀ s b, a ∉ cells s b → view (f s b) = view s)
    {bs : List β} {s : σ} (h : a ∉ touchedBy f cells bs s) : view (bs.foldl f s) = view s := by
  induction bs generalizing s with
  | nil => rfl
  | cons b bs ih =>
      rw [touchedBy, List.mem_append, not_or] at h
      rw [List.foldl_cons, ih h.2, hround s b h.1]

end

end Foundations
