import Mathlib.Logic.Function.Iterate
import Mathlib.Tactic

/-!
# Loops

A loop runs its body until it is done.  Whether it ends and what holds in all its
states are decided one step at a time: `terminates_iff` and `keeps_iff` go from a state
to the next one, and a state that is done stays as it is.
-/

namespace Foundations

/-- A loop over states of type `σ`. -/
structure Loop (σ : Type*) where
  done : σ → Bool
  body : σ → σ

namespace Loop

variable {σ : Type*} {L : Loop σ} {I : σ → Prop} {s : σ}

variable (L) in
def step (s : σ) : σ := if L.done s = true then s else L.body s

variable (L) in
/-- The state after `n` steps. -/
def after (n : ℕ) (s : σ) : σ := L.step^[n] s

variable (L) in
def Terminates (s : σ) : Prop := ∃ n, L.done (L.after n s) = true

variable (L) in
/-- `I` holds in every state of the loop. -/
def Keeps (I : σ → Prop) (s : σ) : Prop := ∀ n, I (L.after n s)

@[simp] theorem after_zero : L.after 0 s = s := rfl

theorem after_succ (n : ℕ) (s : σ) : L.after (n + 1) s = L.after n (L.step s) := rfl

theorem step_of_done (h : L.done s = true) : L.step s = s := if_pos h

theorem step_of_not_done (h : L.done s = false) : L.step s = L.body s := by
  rw [step, h]
  rfl

theorem after_of_done (h : L.done s = true) (n : ℕ) : L.after n s = s := by
  induction n with
  | zero => rfl
  | succ n ih => rw [after_succ, step_of_done h, ih]

/-- However often it is asked to go on, a loop ends in one state. -/
theorem after_unique {n m : ℕ} (hn : L.done (L.after n s) = true)
    (hm : L.done (L.after m s) = true) : L.after n s = L.after m s := by
  have hadd : ∀ n m, L.after (n + m) s = L.after m (L.after n s) := by
    intro n m
    rw [after, Nat.add_comm, Function.iterate_add_apply]
    rfl
  calc
    L.after n s = L.after (n + m) s := by rw [hadd, after_of_done hn]
    _ = L.after (m + n) s := by rw [Nat.add_comm]
    _ = L.after m s := by rw [hadd, after_of_done hm]

theorem terminates_of_done (h : L.done s = true) : L.Terminates s := ⟨0, h⟩

theorem keeps_of_done (h : L.done s = true) : L.Keeps I s ↔ I s := by
  constructor
  · intro hkeeps
    exact hkeeps 0
  · intro hI n
    rwa [after_of_done h]

/-- A loop that is not done ends if it does from the next state on. -/
theorem terminates_iff (h : L.done s = false) : L.Terminates s ↔ L.Terminates (L.body s) := by
  constructor
  · rintro ⟨n, hn⟩
    cases n with
    | zero => rw [after_zero, h] at hn; cases hn
    | succ n => exact ⟨n, by rwa [after_succ, step_of_not_done h] at hn⟩
  · rintro ⟨n, hn⟩
    exact ⟨n + 1, by rwa [after_succ, step_of_not_done h]⟩

theorem keeps_iff (h : L.done s = false) : L.Keeps I s ↔ I s ∧ L.Keeps I (L.body s) := by
  constructor
  · intro hkeeps
    refine ⟨hkeeps 0, fun n => ?_⟩
    have hnext := hkeeps (n + 1)
    rwa [after_succ, step_of_not_done h] at hnext
  · rintro ⟨hnow, hkeeps⟩ n
    cases n with
    | zero => exact hnow
    | succ n =>
        rw [after_succ, step_of_not_done h]
        exact hkeeps n

/-- What the body preserves holds in every state. -/
theorem keeps_of_body (hbody : ∀ s, I s → I (L.body s)) (hs : I s) : L.Keeps I s := by
  intro n
  induction n generalizing s with
  | zero => exact hs
  | succ n ih =>
      rw [after_succ]
      cases hdone : L.done s with
      | true => rw [step_of_done hdone]; exact ih hs
      | false => rw [step_of_not_done hdone]; exact ih (hbody s hs)

end Loop

end Foundations
