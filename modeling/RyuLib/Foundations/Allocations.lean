import Mathlib.Logic.Function.Basic
import Mathlib.Tactic

/-!
# Allocations

The allocator knows the size of every allocation that is live, and whether something was freed
that was not.  Allocations are numbered, and no number is given twice; a pointer is the
number of what it points to, and the null pointer is `none`.
-/

namespace Foundations

structure Allocations where
  live : ℕ → Option ℕ := fun _ => none
  next : ℕ := 0
  freedDead : Bool := false

namespace Allocations

/-- The allocator and the pointer after an allocation. -/
def malloc (h : Allocations) (size : ℕ) : Allocations × ℕ :=
  ({ h with live := Function.update h.live h.next (some size), next := h.next + 1 }, h.next)

def free (h : Allocations) (pointer : ℕ) : Allocations :=
  match h.live pointer with
  | some _ => { h with live := Function.update h.live pointer none }
  | none => { h with freedDead := true }

/-- `if (pointer != nullptr) free(pointer);` -/
def release (h : Allocations) : Option ℕ → Allocations
  | some pointer => h.free pointer
  | none => h

/-- Null or a live allocation. -/
def Valid (h : Allocations) (pointer : Option ℕ) : Prop := ∀ p, pointer = some p → h.live p ≠ none

/-- The bytes that a pointer may be used for. -/
def bytes (h : Allocations) (pointer : Option ℕ) : ℕ := (pointer.bind h.live).getD 0

variable {h : Allocations} {size p q : ℕ} {pointer : Option ℕ}

theorem valid_none (h : Allocations) : h.Valid none := fun _ hp => nomatch hp

@[simp] theorem malloc_snd (h : Allocations) (size : ℕ) : (h.malloc size).2 = h.next := rfl

@[simp] theorem malloc_next (h : Allocations) (size : ℕ) :
    (h.malloc size).1.next = h.next + 1 := rfl

theorem malloc_live_self (h : Allocations) (size : ℕ) : (h.malloc size).1.live h.next = some size :=
  Function.update_self ..

theorem malloc_live_of_lt (hp : p < h.next) : (h.malloc size).1.live p = h.live p :=
  Function.update_of_ne hp.ne _ _

theorem malloc_live_ne_none :
    (h.malloc size).1.live p ≠ none ↔ p = h.next ∨ h.live p ≠ none := by
  by_cases hp : p = h.next
  · subst hp
    rw [malloc_live_self]
    exact iff_of_true (Option.some_ne_none size) (Or.inl rfl)
  · have hsame : (h.malloc size).1.live p = h.live p := Function.update_of_ne hp _ _
    rw [hsame, or_iff_right hp]

@[simp] theorem free_next (h : Allocations) (p : ℕ) : (h.free p).next = h.next := by
  unfold free
  split <;> rfl

theorem free_live_self (h : Allocations) (p : ℕ) : (h.free p).live p = none := by
  unfold free
  split
  · exact Function.update_self ..
  · assumption

theorem free_live_of_ne (hne : q ≠ p) : (h.free p).live q = h.live q := by
  unfold free
  split
  · exact Function.update_of_ne hne _ _
  · rfl

/-- What is freed while it is live is freed for the first time. -/
theorem free_freedDead (hlive : h.live p ≠ none) : (h.free p).freedDead = h.freedDead := by
  unfold free
  split
  · rfl
  · contradiction

@[simp] theorem release_next (h : Allocations) (pointer : Option ℕ) :
    (h.release pointer).next = h.next := by
  cases pointer with
  | none => rfl
  | some p => exact free_next h p

theorem release_freedDead (hvalid : h.Valid pointer) :
    (h.release pointer).freedDead = h.freedDead := by
  cases pointer with
  | none => rfl
  | some p => exact free_freedDead (hvalid p rfl)

theorem release_live_of_ne (hne : pointer ≠ some q) : (h.release pointer).live q = h.live q := by
  cases pointer with
  | none => rfl
  | some p => exact free_live_of_ne fun heq => hne (congrArg some heq.symm)

theorem release_live_eq_none :
    (h.release pointer).live q = none ↔ h.live q = none ∨ pointer = some q := by
  by_cases hq : pointer = some q
  · subst hq
    exact iff_of_true (free_live_self h q) (Or.inr rfl)
  · rw [release_live_of_ne hq, or_iff_left hq]

/-- Nothing is left of what was released. -/
@[simp] theorem bytes_release (h : Allocations) (pointer : Option ℕ) :
    (h.release pointer).bytes pointer = 0 := by
  cases pointer with
  | none => rfl
  | some p =>
      show ((h.free p).live p).getD 0 = 0
      rw [free_live_self]
      rfl

theorem bytes_congr {h' : Allocations} (hlive : ∀ p, pointer = some p → h'.live p = h.live p) :
    h'.bytes pointer = h.bytes pointer := by
  cases pointer with
  | none => rfl
  | some p =>
      show (h'.live p).getD 0 = (h.live p).getD 0
      rw [hlive p rfl]

theorem Valid.congr {h' : Allocations} (hvalid : h.Valid pointer)
    (hlive : ∀ p, pointer = some p → h'.live p = h.live p) : h'.Valid pointer := by
  intro p hp
  rw [hlive p hp]
  exact hvalid p hp

end Allocations

end Foundations
