import RyuLib.Foundations.Allocations

/-!
# Owned pointers

A family of pointers owns what it points at when every pointer is null or live and no two point
at the same allocation.  Such pointers can be given new allocations, be set to null and be
released with a null left behind, and nothing is ever released that is not live.
-/

namespace Foundations

structure Owns {ι : Type*} (h : Allocations) (pointer : ι → Option ℕ) : Prop where
  valid : ∀ i, h.Valid (pointer i)
  lt : ∀ {i p}, pointer i = some p → p < h.next
  inj : ∀ {i j p}, pointer i = some p → pointer j = some p → i = j

namespace Owns

variable {ι : Type*} [DecidableEq ι] {h : Allocations} {pointer : ι → Option ℕ}

/-- A pointer that is overwritten with null is forgotten. -/
theorem forget (howns : Owns h pointer) (i : ι) :
    Owns h (Function.update pointer i none) := by
  have hkept : ∀ {j p}, Function.update pointer i none j = some p → pointer j = some p := by
    intro j p hp
    by_cases hj : j = i
    · rw [hj, Function.update_self] at hp
      cases hp
    · rwa [Function.update_of_ne hj] at hp
  exact ⟨fun j p hp => howns.valid j p (hkept hp), fun hp => howns.lt (hkept hp),
    fun hp hq => howns.inj (hkept hp) (hkept hq)⟩

theorem malloc (howns : Owns h pointer) (i : ι) (size : ℕ) :
    Owns (h.malloc size).1 (Function.update pointer i (some h.next)) := by
  have hcases : ∀ {j p}, Function.update pointer i (some h.next) j = some p →
      (j = i ∧ p = h.next) ∨ (j ≠ i ∧ pointer j = some p ∧ p < h.next) := by
    intro j p hp
    by_cases hj : j = i
    · rw [hj, Function.update_self] at hp
      exact Or.inl ⟨hj, (Option.some.inj hp).symm⟩
    · rw [Function.update_of_ne hj] at hp
      exact Or.inr ⟨hj, hp, howns.lt hp⟩
  refine ⟨?_, ?_, ?_⟩
  · intro j p hp
    rcases hcases hp with ⟨rfl, rfl⟩ | ⟨_, hold, hlt⟩
    · rw [Allocations.malloc_live_self]
      exact Option.some_ne_none size
    · rw [Allocations.malloc_live_of_lt hlt]
      exact howns.valid j p hold
  · intro j p hp
    rw [Allocations.malloc_next]
    rcases hcases hp with ⟨_, rfl⟩ | ⟨_, _, hlt⟩
    · exact Nat.lt_succ_self h.next
    · exact hlt.trans (Nat.lt_succ_self h.next)
  · intro j k p hj hk
    rcases hcases hj with ⟨rfl, rfl⟩ | ⟨_, hj, hlt⟩
    · rcases hcases hk with ⟨rfl, _⟩ | ⟨_, _, hlt⟩
      · rfl
      · exact absurd hlt (lt_irrefl h.next)
    · rcases hcases hk with ⟨_, rfl⟩ | ⟨_, hk, _⟩
      · exact absurd hlt (lt_irrefl h.next)
      · exact howns.inj hj hk

/-- What is released was live, and the others stay as they are. -/
theorem release (howns : Owns h pointer) (i : ι) :
    Owns (h.release (pointer i)) (Function.update pointer i none) ∧
      (h.release (pointer i)).freedDead = h.freedDead := by
  refine ⟨⟨?_, ?_, ?_⟩, Allocations.release_freedDead (howns.valid i)⟩
  · intro j p hp
    by_cases hj : j = i
    · rw [hj, Function.update_self] at hp
      cases hp
    · rw [Function.update_of_ne hj] at hp
      rw [Allocations.release_live_of_ne fun hi => hj (howns.inj hp hi)]
      exact howns.valid j p hp
  · intro j p hp
    rw [Allocations.release_next]
    exact (howns.forget i).lt hp
  · exact (howns.forget i).inj

end Owns

end Foundations
