import RyuLib.Audio.AudioOutput
import RyuLib.Foundations.Backlog

/-!
# AudioDecoder

`add` queues a copy of its data for the decoding thread.  When more than
`MAX_DELAY_LIMIT_COUNT` packets are queued it first deletes the oldest ones until two are
left, so that the queue is short and fresh, and packets are lost at its old end only
(`AudioDecoder.backlog_bounded`).

Here an `add` is one step, between which and the next the decoding thread takes as many
packets as it likes.
-/

namespace RyuLib

open Foundations

namespace AudioDecoder

def maxDelayLimitCount : ℕ := 4

/-- `while (queue_->size() > 2)`: what is deleted, and the queue after it. -/
def trim : List (List UInt8) → List (List UInt8) × List (List UInt8)
  | [] => ([], [])
  | memory :: queue =>
      if (memory :: queue).length > 2 then
        let (deleted, queue) := trim queue
        (memory :: deleted, queue)
      else ([], memory :: queue)

/-- `add(data, size)` on the queue: what is deleted, and the queue after it. -/
def add (queue : List (List UInt8)) (data : Option (Block UInt8)) (size : ℤ) :
    List (List UInt8) × List (List UInt8) :=
  let (deleted, queue) := if queue.length > maxDelayLimitCount then trim queue else ([], queue)
  (deleted, queue ++ [newMemory data size])

theorem trim_eq (queue : List (List UInt8)) :
    trim queue = (queue.take (queue.length - 2), queue.drop (queue.length - 2)) := by
  induction queue with
  | nil => rfl
  | cons memory queue ih =>
      unfold trim
      by_cases hlong : (memory :: queue).length > 2
      · have hsucc : (memory :: queue).length - 2 = (queue.length - 2) + 1 := by
          rw [List.length_cons] at hlong ⊢
          omega
        rw [if_pos hlong, ih, hsucc, List.take_succ_cons, List.drop_succ_cons]
      · have hzero : (memory :: queue).length - 2 = 0 := by omega
        rw [if_neg hlong, hzero, List.take_zero, List.drop_zero]

/-! ## Adding and taking -/

/-- The decoding thread takes a packet when it gets past `pop`. -/
inductive Call
  | add (data : Option (Block UInt8)) (size : ℤ)
  | pop

def step (s : Backlog (List UInt8)) : Call → Option (Backlog (List UInt8))
  | .add data size =>
      let (deleted, queue) := add s.queue data size
      some
        { queue := queue
          added := s.added ++ [newMemory data size]
          gone := s.gone ++ deleted.map (·, false) }
  | .pop =>
      match s.queue with
      | [] => none
      | memory :: queue =>
          some { queue := queue, added := s.added, gone := s.gone ++ [(memory, true)] }

def machine : Machine (Backlog (List UInt8)) Call := ⟨{}, step⟩

/-- How many packets an `add` deletes. -/
def excess (queue : List (List UInt8)) : ℕ :=
  if queue.length > maxDelayLimitCount then queue.length - 2 else 0

theorem add_eq (queue : List (List UInt8)) (data : Option (Block UInt8)) (size : ℤ) :
    add queue data size =
      (queue.take (excess queue), queue.drop (excess queue) ++ [newMemory data size]) := by
  unfold add excess
  by_cases hlimit : queue.length > maxDelayLimitCount
  · rw [if_pos hlimit, if_pos hlimit, trim_eq]
  · rw [if_neg hlimit, if_neg hlimit, List.take_zero, List.drop_zero]

/-- A call in terms of the backlog: packets leave at its old end, and one comes in. -/
theorem step_cases {s s' : Backlog (List UInt8)} {call : Call} (h : step s call = some s') :
    (∃ data size, call = .add data size ∧
        s' = (s.leave (excess s.queue) false).add (newMemory data size)) ∨
      call = .pop ∧ s.queue ≠ [] ∧ s' = s.leave 1 true := by
  cases call with
  | add data size =>
      left
      refine ⟨data, size, rfl, ?_⟩
      rw [step, add_eq, Option.some.injEq] at h
      exact h.symm
  | pop =>
      right
      cases hqueue : s.queue with
      | nil =>
          rw [step, hqueue] at h
          cases h
      | cons memory queue =>
          rw [step, hqueue, Option.some.injEq] at h
          refine ⟨rfl, List.cons_ne_nil memory queue, ?_⟩
          rw [← h, Backlog.leave, hqueue]
          rfl

/-- The queue is short, and it is the newest part of what was added; what the decoding
thread received was added in that order, and everything has left in it. -/
structure BoundedFresh (s : Backlog (List UInt8)) : Prop where
  bounded : s.queue.length ≤ maxDelayLimitCount + 1
  contiguous : s.queue <:+ s.added
  newest : s.queue ≠ [] → s.queue.getLast? = s.added.getLast?
  received : List.Sublist s.received s.added
  oldestFirst : s.gone.map Prod.fst ++ s.queue = s.added

theorem length_add_queue (queue : List (List UInt8)) (data : Option (Block UInt8)) (size : ℤ)
    (h : queue.length ≤ maxDelayLimitCount + 1) :
    (add queue data size).2.length ≤ maxDelayLimitCount + 1 := by
  rw [add_eq, List.length_append, List.length_drop, List.length_singleton]
  unfold excess
  by_cases hlimit : queue.length > maxDelayLimitCount
  · rw [if_pos hlimit]
    unfold maxDelayLimitCount at *
    omega
  · rw [if_neg hlimit]
    omega

/-- In every run of `add`s and takes, at any time. -/
theorem backlog_bounded {calls : List Call} {s : Backlog (List UInt8)}
    (hrun : machine.run calls = some s) : BoundedFresh s := by
  have hinvariant : s.queue.length ≤ maxDelayLimitCount + 1 ∧ s.Accounted := by
    refine Machine.invariant (M := machine)
      (I := fun s => s.queue.length ≤ maxDelayLimitCount + 1 ∧ s.Accounted)
      ⟨Nat.zero_le _, Backlog.accounted_empty⟩ ?_ hrun
    rintro s call s' ⟨hbounded, haccounted⟩ hstep
    rcases step_cases hstep with ⟨data, size, rfl, rfl⟩ | ⟨rfl, _, rfl⟩
    · have hlength := length_add_queue s.queue data size hbounded
      rw [add_eq] at hlength
      exact ⟨hlength, (haccounted.leave _ false).add _⟩
    · refine ⟨?_, haccounted.leave 1 true⟩
      calc (s.queue.drop 1).length ≤ s.queue.length := by
            rw [List.length_drop]
            exact Nat.sub_le _ _
        _ ≤ maxDelayLimitCount + 1 := hbounded
  obtain ⟨hbounded, haccounted⟩ := hinvariant
  exact
    { bounded := hbounded
      contiguous := haccounted.suffix
      newest := haccounted.newest
      received := haccounted.received
      oldestFirst := haccounted }

/-- The sixth packet finds five queued, of which it deletes three. -/
theorem backlog_bounded_six :
    BoundedFresh
      { queue := [[4], [5], [6]], added := [[1], [2], [3], [4], [5], [6]]
        gone := [([1], false), ([2], false), ([3], false)] } := by
  have hrun : machine.run
      ([1, 2, 3, 4, 5, 6].map fun value => .add (some fun _ => value) 1) = some
      { queue := [[4], [5], [6]], added := [[1], [2], [3], [4], [5], [6]]
        gone := [([1], false), ([2], false), ([3], false)] } := rfl
  exact backlog_bounded hrun

end AudioDecoder

end RyuLib
