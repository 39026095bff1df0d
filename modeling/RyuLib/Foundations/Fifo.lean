import RyuLib.Foundations.Machine

/-!
# Flat first-in-first-out buffers

The abstract purpose of a chunked buffer: a list of items that is written at its
end and read in blocks from its front, where a block is taken whole or not at
all.  A `Component` is anything with these calls; `Refines` compares one with
the flat list and `Refines.run` carries the comparison along whole runs.
-/

namespace Foundations

/-- The calls of a first-in-first-out buffer. -/
inductive FifoCall (α : Type*)
  | write (values : List α)
  | read (length : ℕ)
  | clear

namespace Fifo

variable {α σ : Type*}

/-- One call on a flat list: what it returns, and the list after it. -/
def step (unread : List α) : FifoCall α → Option (List α) × List α
  | .write values => (none, unread ++ values)
  | .read length =>
      if unread.length < length then (none, unread)
      else (some (unread.take length), unread.drop length)
  | .clear => (none, [])

/-- An implementation of the calls. -/
structure Component (σ α : Type*) where
  init : σ
  step : σ → FifoCall α → Option (List α) × σ

/-- The flat list itself. -/
def flat (α : Type*) : Component (List α) α := ⟨[], step⟩

namespace Component

/-- The calls of a run with what each returned, and the state after them. -/
def runFrom (c : Component σ α) (s : σ) :
    List (FifoCall α) → List (FifoCall α × Option (List α)) × σ
  | [] => ([], s)
  | call :: calls =>
      let next := c.runFrom (c.step s call).2 calls
      ((call, (c.step s call).1) :: next.1, next.2)

def run (c : Component σ α) (calls : List (FifoCall α)) :
    List (FifoCall α × Option (List α)) × σ :=
  c.runFrom c.init calls

theorem runFrom_append (c : Component σ α) (s : σ) (first second : List (FifoCall α)) :
    c.runFrom s (first ++ second) =
      ((c.runFrom s first).1 ++ (c.runFrom (c.runFrom s first).2 second).1,
        (c.runFrom (c.runFrom s first).2 second).2) := by
  induction first generalizing s with
  | nil => rfl
  | cons call first ih =>
      rw [List.cons_append]
      simp only [runFrom]
      rw [ih]
      rfl

/-- The last call of a run. -/
theorem run_concat (c : Component σ α) (calls : List (FifoCall α)) (call : FifoCall α) :
    c.run (calls ++ [call]) =
      ((c.run calls).1 ++ [(call, (c.step (c.run calls).2 call).1)],
        (c.step (c.run calls).2 call).2) :=
  runFrom_append c c.init calls [call]

end Component

/-- Every call of a run is in `ok` with what is unread at that moment. -/
def Allowed (ok : List α → FifoCall α → Prop) (calls : List (FifoCall α)) : Prop :=
  ∀ first call second, calls = first ++ call :: second → ok ((flat α).run first).2 call

theorem allowed_nil (ok : List α → FifoCall α → Prop) : Allowed ok [] := by
  intro first call second hsplit
  simp at hsplit

theorem allowed_concat {ok : List α → FifoCall α → Prop} (calls : List (FifoCall α))
    (call : FifoCall α) :
    Allowed ok (calls ++ [call]) ↔ Allowed ok calls ∧ ok ((flat α).run calls).2 call :=
  Machine.forall_split_concat (R := fun first call => ok ((flat α).run first).2 call)

/-- `R` relates the states of `c` to flat lists so that every call in `ok`
returns the same on both and keeps them related. -/
structure Refines (c : Component σ α) (ok : List α → FifoCall α → Prop)
    (R : σ → List α → Prop) : Prop where
  init : R c.init []
  returns : ∀ s unread call, ok unread call → R s unread →
    (c.step s call).1 = (step unread call).1
  related : ∀ s unread call, ok unread call → R s unread →
    R (c.step s call).2 (step unread call).2

/-- A refinement returns what the flat list returns, over whole runs. -/
theorem Refines.run {c : Component σ α} {ok : List α → FifoCall α → Prop}
    {R : σ → List α → Prop} (h : Refines c ok R) {calls : List (FifoCall α)}
    (hok : Allowed ok calls) :
    (c.run calls).1 = ((flat α).run calls).1 ∧ R (c.run calls).2 ((flat α).run calls).2 := by
  induction calls using List.reverseRecOn with
  | nil => exact ⟨rfl, h.init⟩
  | append_singleton calls call ih =>
      obtain ⟨hfront, hcall⟩ := (allowed_concat calls call).mp hok
      obtain ⟨hreturns, hrelated⟩ := ih hfront
      rw [Component.run_concat, Component.run_concat, hreturns,
        h.returns _ _ _ hcall hrelated]
      exact ⟨rfl, h.related _ _ _ hcall hrelated⟩

/-! ## What goes in comes out -/

/-- What one call adds to the values written since the last `clear`. -/
def noteWritten (values : List α) : FifoCall α × Option (List α) → List α
  | (.write more, _) => values ++ more
  | (.read _, _) => values
  | (.clear, _) => []

/-- What one call adds to the values returned since the last `clear`. -/
def noteReturned (values : List α) : FifoCall α × Option (List α) → List α
  | (.write _, _) => values
  | (.read _, block) => values ++ block.getD []
  | (.clear, _) => []

/-- Everything written since the last `clear`. -/
def written (trace : List (FifoCall α × Option (List α))) : List α :=
  trace.foldl noteWritten []

/-- Everything returned since the last `clear`. -/
def returned (trace : List (FifoCall α × Option (List α))) : List α :=
  trace.foldl noteReturned []

/-- One call moves what it returns from the unread to the returned values. -/
theorem noteReturned_append_step (values unread : List α) (call : FifoCall α) :
    noteReturned values (call, (step unread call).1) ++ (step unread call).2 =
      noteWritten (values ++ unread) (call, (step unread call).1) := by
  cases call with
  | write more => exact (List.append_assoc values unread more).symm
  | read length =>
      by_cases hshort : unread.length < length
      · simp [step, hshort, noteReturned, noteWritten]
      · simp [step, hshort, noteReturned, noteWritten]
  | clear => rfl

/-- Of a flat list: what was returned, followed by what is unread, is what was
written. -/
theorem returned_append_unread (calls : List (FifoCall α)) :
    returned ((flat α).run calls).1 ++ ((flat α).run calls).2 =
      written ((flat α).run calls).1 := by
  induction calls using List.reverseRecOn with
  | nil => rfl
  | append_singleton calls call ih =>
      rw [Component.run_concat, returned, written, List.foldl_append, List.foldl_append,
        ← returned, ← written, ← ih]
      exact noteReturned_append_step _ _ call

end Fifo

end Foundations
