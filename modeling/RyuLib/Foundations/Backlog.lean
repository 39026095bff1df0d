import Mathlib.Tactic

/-!
# Queues that lose their oldest

A queue that grows at its end, and from which elements leave at the front: one that is
taken is received, and any other is discarded.  The backlog carries all that was ever added
and all that has left.

Whatever leaves and when, what has left and what is queued is what was added
(`Accounted`), from which it follows that the queue ends with the newest and that what is
received is received in order.
-/

namespace Foundations

/-- A queue, with what was added and what has left: with `true` what was taken. -/
structure Backlog (α : Type*) where
  queue : List α := []
  added : List α := []
  gone : List (α × Bool) := []

namespace Backlog

variable {α : Type*}

def add (b : Backlog α) (a : α) : Backlog α :=
  { b with queue := b.queue ++ [a], added := b.added ++ [a] }

/-- The `n` oldest leave. -/
def leave (b : Backlog α) (n : ℕ) (taken : Bool) : Backlog α :=
  { b with queue := b.queue.drop n, gone := b.gone ++ (b.queue.take n).map (·, taken) }

/-- What was taken, in the order of taking. -/
def received (b : Backlog α) : List α := (b.gone.filter Prod.snd).map Prod.fst

/-- What has left, in the order of leaving, and then what is queued is what was added. -/
def Accounted (b : Backlog α) : Prop := b.gone.map Prod.fst ++ b.queue = b.added

theorem accounted_empty : Accounted ({} : Backlog α) := rfl

theorem Accounted.add {b : Backlog α} (h : b.Accounted) (a : α) : (b.add a).Accounted := by
  unfold Accounted Backlog.add at *
  rw [← List.append_assoc, h]

theorem Accounted.leave {b : Backlog α} (h : b.Accounted) (n : ℕ) (taken : Bool) :
    (b.leave n taken).Accounted := by
  have hfirst : ((b.queue.take n).map (·, taken)).map Prod.fst = b.queue.take n := by
    rw [List.map_map]
    exact List.map_id _
  unfold Accounted Backlog.leave at *
  calc (b.gone ++ (b.queue.take n).map (·, taken)).map Prod.fst ++ b.queue.drop n
      = b.gone.map Prod.fst ++ (b.queue.take n ++ b.queue.drop n) := by
        rw [List.map_append, hfirst, List.append_assoc]
    _ = b.added := by rw [List.take_append_drop, h]

/-- The queue is the newest part of what was added. -/
theorem Accounted.suffix {b : Backlog α} (h : b.Accounted) : b.queue <:+ b.added := ⟨_, h⟩

theorem Accounted.newest {b : Backlog α} (h : b.Accounted) (hne : b.queue ≠ []) :
    b.queue.getLast? = b.added.getLast? := by
  rw [← h, List.getLast?_append_of_ne_nil _ hne]

/-- What was received was added, in the same order. -/
theorem Accounted.received {b : Backlog α} (h : b.Accounted) : List.Sublist b.received b.added := by
  have hgone : List.Sublist b.received (b.gone.map Prod.fst) := List.filter_sublist.map Prod.fst
  apply hgone.trans
  rw [← h]
  exact List.sublist_append_left _ _

theorem received_discard (b : Backlog α) (n : ℕ) : (b.leave n false).received = b.received := by
  have hnone : ((b.queue.take n).map (·, false)).filter Prod.snd = [] :=
    List.filter_eq_nil_iff.mpr fun p hp => by
      obtain ⟨a, -, rfl⟩ := List.mem_map.mp hp
      exact Bool.false_ne_true
  rw [leave, received, List.filter_append, hnone, List.append_nil]
  rfl

theorem received_take (b : Backlog α) {a : α} {rest : List α} (hqueue : b.queue = a :: rest) :
    (b.leave 1 true).received = b.received ++ [a] := by
  simp [leave, received, hqueue]

/-- Nothing was discarded so far. -/
def Lossless (b : Backlog α) : Prop := ∀ p ∈ b.gone, p.2 = true

theorem Lossless.take {b : Backlog α} (h : b.Lossless) (n : ℕ) : (b.leave n true).Lossless := by
  intro p hp
  rcases List.mem_append.mp hp with hp | hp
  · exact h p hp
  · obtain ⟨a, -, rfl⟩ := List.mem_map.mp hp
    rfl

/-- Where nothing was discarded, what was received is what was added first. -/
theorem Lossless.received_prefix {b : Backlog α} (h : b.Lossless) (haccounted : b.Accounted) :
    b.received <+: b.added := by
  have hall : b.gone.filter Prod.snd = b.gone := List.filter_eq_self.mpr h
  rw [received, hall]
  exact ⟨_, haccounted⟩

end Backlog

end Foundations
