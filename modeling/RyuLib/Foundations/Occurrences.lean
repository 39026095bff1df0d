import Mathlib.Data.List.Basic
import Mathlib.Tactic

/-!
# Occurrences of a pattern in a text

A pattern occurs in a text at the places from which on the text starts with it.  Read
backwards, a text has the reversed pattern at the mirrored places, so that the last occurrence
becomes the first one (`IsLast.reverse`).
-/

namespace Foundations

variable {α : Type*} {pattern text : List α} {i : ℕ}

def OccursAt (pattern text : List α) (i : ℕ) : Prop := pattern <+: text.drop i

instance [DecidableEq α] (pattern text : List α) (i : ℕ) : Decidable (OccursAt pattern text i) :=
  inferInstanceAs (Decidable (pattern <+: text.drop i))

structure IsFirst (pattern text : List α) (i : ℕ) : Prop where
  occurs : OccursAt pattern text i
  le : ∀ {j}, OccursAt pattern text j → i ≤ j

structure IsLast (pattern text : List α) (i : ℕ) : Prop where
  occurs : OccursAt pattern text i
  le : ∀ {j}, OccursAt pattern text j → j ≤ i

/-- The place of the first occurrence. -/
def firstOccurrence [DecidableEq α] (pattern text : List α) : Option ℕ :=
  (List.range (text.length + 1)).find? fun i => OccursAt pattern text i

theorem occursAt_append (before pattern after : List α) :
    OccursAt pattern (before ++ (pattern ++ after)) before.length := by
  rw [OccursAt, List.drop_left]
  exact List.prefix_append pattern after

namespace OccursAt

theorem length_le (h : OccursAt pattern text i) (hi : i ≤ text.length) :
    i + pattern.length ≤ text.length := by
  have hle := List.IsPrefix.length_le h
  rw [List.length_drop] at hle
  omega

/-- A pattern that is not empty occurs inside the text. -/
theorem bound (h : OccursAt pattern text i) (hpattern : pattern ≠ []) :
    i + pattern.length ≤ text.length := by
  have hle := List.IsPrefix.length_le h
  have hpos := List.length_pos_of_ne_nil hpattern
  rw [List.length_drop] at hle
  omega

theorem split (h : OccursAt pattern text i) :
    text = text.take i ++ (pattern ++ text.drop (i + pattern.length)) := by
  obtain ⟨after, hafter⟩ := h
  have hdrop : text.drop (i + pattern.length) = after := by
    rw [← List.drop_drop, ← hafter, List.drop_left]
  rw [hdrop, hafter, List.take_append_drop]

/-- The mirrored place. -/
theorem reverse (h : OccursAt pattern text i) :
    OccursAt pattern.reverse text.reverse (text.length - (i + pattern.length)) := by
  have hlength : text.length - (i + pattern.length) =
      (text.drop (i + pattern.length)).reverse.length := by
    rw [List.length_reverse, List.length_drop]
  have htext : text.reverse = (text.drop (i + pattern.length)).reverse ++
      (pattern.reverse ++ (text.take i).reverse) := by
    conv_lhs => rw [h.split]
    simp only [List.reverse_append, List.append_assoc]
  rw [hlength, htext]
  exact occursAt_append _ _ _

theorem of_reverse (h : OccursAt pattern.reverse text.reverse i) :
    OccursAt pattern text (text.length - (i + pattern.length)) := by
  have hback := h.reverse
  rwa [List.reverse_reverse, List.reverse_reverse, List.length_reverse, List.length_reverse]
    at hback

end OccursAt

/-! ## The first and the last occurrence -/

theorem IsFirst.unique {j : ℕ} (hi : IsFirst pattern text i) (hj : IsFirst pattern text j) :
    i = j :=
  (hi.le hj.occurs).antisymm (hj.le hi.occurs)

theorem IsLast.unique {j : ℕ} (hi : IsLast pattern text i) (hj : IsLast pattern text j) : i = j :=
  (hj.le hi.occurs).antisymm (hi.le hj.occurs)

section First

variable [DecidableEq α]

theorem firstOccurrence_eq_none_iff :
    firstOccurrence pattern text = none ↔ ∀ i, ¬ OccursAt pattern text i := by
  simp only [firstOccurrence, List.find?_eq_none, List.mem_range, decide_eq_true_eq]
  constructor
  · intro hnone i hoccurs
    by_cases hi : i < text.length + 1
    · exact hnone i hi hoccurs
    · -- only the empty pattern occurs beyond the end
      rw [OccursAt, List.drop_of_length_le (by omega), List.prefix_nil] at hoccurs
      exact hnone 0 (by omega) (hoccurs ▸ List.nil_prefix)
  · intro hnone i _
    exact hnone i

theorem firstOccurrence_eq_some (h : firstOccurrence pattern text = some i) :
    IsFirst pattern text i ∧ i + pattern.length ≤ text.length := by
  rw [firstOccurrence, List.find?_range_eq_some] at h
  obtain ⟨hoccurs, hmem, hbefore⟩ := h
  have hi := List.mem_range.mp hmem
  have hoccurs := of_decide_eq_true hoccurs
  refine ⟨⟨hoccurs, fun {j} hj => ?_⟩, hoccurs.length_le (by omega)⟩
  by_contra hlt
  have := hbefore j (by omega)
  simp [hj] at this

theorem IsFirst.firstOccurrence_eq (h : IsFirst pattern text i) :
    firstOccurrence pattern text = some i := by
  cases hfirst : firstOccurrence pattern text with
  | none => exact absurd h.occurs (firstOccurrence_eq_none_iff.mp hfirst i)
  | some j => rw [(firstOccurrence_eq_some hfirst).1.unique h]

end First

/-- Read backwards, the last occurrence is the first one. -/
theorem IsLast.reverse (h : IsLast pattern text i) :
    IsFirst pattern.reverse text.reverse (text.length - (i + pattern.length)) := by
  refine ⟨h.occurs.reverse, fun {j} hj => ?_⟩
  have hle := h.le hj.of_reverse
  omega

theorem IsFirst.reverse (h : IsFirst pattern text i) (hpattern : pattern ≠ []) :
    IsLast pattern.reverse text.reverse (text.length - (i + pattern.length)) := by
  refine ⟨h.occurs.reverse, fun {j} hj => ?_⟩
  have hbound := hj.bound (mt List.reverse_eq_nil_iff.mp hpattern)
  have hle := h.le hj.of_reverse
  simp only [List.length_reverse] at hbound
  omega

/-- What occurs at all has a first and a last occurrence. -/
theorem exists_first_and_last [DecidableEq α] (hpattern : pattern ≠ [])
    (h : OccursAt pattern text i) : ∃ p q, IsFirst pattern text p ∧ IsLast pattern text q := by
  cases hfirst : firstOccurrence pattern text with
  | none => exact absurd h (firstOccurrence_eq_none_iff.mp hfirst i)
  | some p =>
      cases hback : firstOccurrence pattern.reverse text.reverse with
      | none =>
          exact absurd h.reverse (firstOccurrence_eq_none_iff.mp hback _)
      | some j =>
          have hreversed := mt List.reverse_eq_nil_iff.mp hpattern
          have hlast := (firstOccurrence_eq_some hback).1.reverse hreversed
          rw [List.reverse_reverse, List.reverse_reverse] at hlast
          exact ⟨p, _, (firstOccurrence_eq_some hfirst).1, hlast⟩

end Foundations
