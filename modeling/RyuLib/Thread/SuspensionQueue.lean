import RyuLib.Foundations.Threads

/-!
# SuspensionQueue

Any number of threads call `push`, the two `pop`s and `terminate` of one queue.  A point
of a thread is a place in one of these functions; between two points a thread does one
thing that others can see.  `terminate` takes no lock, so it can come between the test of
a pop and its wait.

* `SuspensionQueue.delivers_in_order`: nothing is lost, duplicated or reordered, pops give
  up only after `terminate`, and a sleeper beside a queued item has a notification under way.
* `SuspensionQueue.releases_iff`: `terminate` leaves nobody asleep exactly when no pop
  starts to wait behind it.
-/

namespace RyuLib

open Foundations

/-- `pushed` and `returned` are the items put into the queue and returned by pops so far,
and `terminates` counts the calls of `terminate` that are complete; the code has none of
the three. -/
structure SuspensionQueue (τ α : Type*) where
  isTerminated : Bool := false
  queue : List α := []
  mutex : Mutex τ := {}
  condition : Condition τ := {}
  pushed : List α := []
  returned : List α := []
  terminates : ℕ := 0

namespace SuspensionQueue

/-- `T pop()` and `bool pop(T& item)`. -/
inductive Overload
  | value
  | reference
  deriving DecidableEq

inductive Call (α : Type*)
  | push (item : α)
  | pop (overload : Overload)
  | terminate

/-- Where a thread is.  At `popped _ none` a pop has executed `return NULL` or
`return false`. -/
inductive Point (α : Type*)
  | idle
  | push (item : α)
  | enqueue (item : α)
  | unlock
  | notify
  | pop (overload : Overload)
  | test (overload : Overload)
  | wait (overload : Overload)
  | asleep (overload : Overload)
  | check (overload : Overload)
  | popped (overload : Overload) (result : Option α)
  | setFlag
  | notifyTerminated

/-- What a thread chooses: which function it calls; nothing, while it is in one; or to be
woken without a notification. -/
inductive Action (α : Type*)
  | call (call : Call α)
  | next
  | spurious

section

variable {τ α : Type*}

def Call.entry : Call α → Point α
  | .push item => .push item
  | .pop overload => .pop overload
  | .terminate => .setFlag

/-- The points at which a thread holds `mutex_`. -/
def Point.locked : Point α → Bool
  | .enqueue _ | .unlock | .test _ | .wait _ | .check _ => true
  | _ => false

def Point.isAsleep : Point α → Bool
  | .asleep _ => true
  | _ => false

/-- Between the enqueue of a push and its `notify_all`. -/
def Point.publishing : Point α → Bool
  | .unlock | .notify => true
  | _ => false

/-- Outside the functions of the queue. -/
def Point.free : Point α → Bool
  | .idle | .popped _ _ => true
  | _ => false

/-- In a push, or in no function and with nothing popped. -/
def Point.inPush : Point α → Bool
  | .idle | .push _ | .enqueue _ | .unlock | .notify => true
  | _ => false

/-- The value that `T pop()` returns. -/
def value (null : α) (result : Option α) : α := result.getD null

variable [DecidableEq τ]

/-- One step of thread `t`. -/
def act (t : τ) (q : SuspensionQueue τ α) :
    Point α → Action α → Option (SuspensionQueue τ α × Point α)
  | .idle, .call call => some (q, call.entry)
  | .popped _ _, .call call => some (q, call.entry)
  -- push
  | .push item, .next => (q.mutex.lock t).map fun m => ({ q with mutex := m }, .enqueue item)
  | .enqueue item, .next =>
      some ({ q with queue := q.queue ++ [item], pushed := q.pushed ++ [item] }, .unlock)
  | .unlock, .next => some ({ q with mutex := q.mutex.unlock }, .notify)
  | .notify, .next => some ({ q with condition := q.condition.notifyAll }, .idle)
  -- pop
  | .pop overload, .next =>
      (q.mutex.lock t).map fun m => ({ q with mutex := m }, .test overload)
  | .test overload, .next =>
      match q.queue with
      | [] => some (q, .wait overload)
      | item :: rest =>
          some ({ q with queue := rest, mutex := q.mutex.unlock, returned := q.returned ++ [item] },
            .popped overload (some item))
  | .wait overload, .next =>
      some ({ q with mutex := q.mutex.unlock, condition := q.condition.wait t }, .asleep overload)
  | .asleep overload, .next =>
      -- a woken thread locks the mutex again before `wait` returns
      if t ∈ q.condition.waiters then none
      else (q.mutex.lock t).map fun m => ({ q with mutex := m }, .check overload)
  | .asleep overload, .spurious =>
      if t ∈ q.condition.waiters then
        some ({ q with condition := q.condition.wake t }, .asleep overload)
      else none
  | .check overload, .next =>
      if q.isTerminated = true then
        some ({ q with mutex := q.mutex.unlock }, .popped overload none)
      else some (q, .test overload)
  -- terminate
  | .setFlag, .next => some ({ q with isTerminated := true }, .notifyTerminated)
  | .notifyTerminated, .next =>
      some ({ q with condition := q.condition.notifyAll, terminates := q.terminates + 1 }, .idle)
  | _, _ => none

/-- What a step does, one rule for each kind of step. -/
inductive Moves (t : τ) (q : SuspensionQueue τ α) :
    Point α → Action α → SuspensionQueue τ α → Point α → Prop
  | call {p : Point α} (hfree : p.free = true) (call : Call α) :
      Moves t q p (.call call) q call.entry
  | lockPush {m : Mutex τ} (hlock : q.mutex.lock t = some m) (item : α) :
      Moves t q (.push item) .next { q with mutex := m } (.enqueue item)
  | enqueue (item : α) :
      Moves t q (.enqueue item) .next
        { q with queue := q.queue ++ [item], pushed := q.pushed ++ [item] } .unlock
  | unlock : Moves t q .unlock .next { q with mutex := q.mutex.unlock } .notify
  | notify : Moves t q .notify .next { q with condition := q.condition.notifyAll } .idle
  | lockPop {m : Mutex τ} (hlock : q.mutex.lock t = some m) (overload : Overload) :
      Moves t q (.pop overload) .next { q with mutex := m } (.test overload)
  | empty (hempty : q.queue = []) (overload : Overload) :
      Moves t q (.test overload) .next q (.wait overload)
  | take {item : α} {rest : List α} (hqueue : q.queue = item :: rest) (overload : Overload) :
      Moves t q (.test overload) .next
        { q with queue := rest, mutex := q.mutex.unlock, returned := q.returned ++ [item] }
        (.popped overload (some item))
  | wait (overload : Overload) :
      Moves t q (.wait overload) .next
        { q with mutex := q.mutex.unlock, condition := q.condition.wait t } (.asleep overload)
  | relock {m : Mutex τ} (hawake : t ∉ q.condition.waiters) (hlock : q.mutex.lock t = some m)
      (overload : Overload) :
      Moves t q (.asleep overload) .next { q with mutex := m } (.check overload)
  | spurious (hasleep : t ∈ q.condition.waiters) (overload : Overload) :
      Moves t q (.asleep overload) .spurious { q with condition := q.condition.wake t }
        (.asleep overload)
  | giveUp (hflag : q.isTerminated = true) (overload : Overload) :
      Moves t q (.check overload) .next { q with mutex := q.mutex.unlock } (.popped overload none)
  | recheck (hflag : q.isTerminated = false) (overload : Overload) :
      Moves t q (.check overload) .next q (.test overload)
  | setFlag : Moves t q .setFlag .next { q with isTerminated := true } .notifyTerminated
  | notifyTerminated :
      Moves t q .notifyTerminated .next
        { q with condition := q.condition.notifyAll, terminates := q.terminates + 1 } .idle

theorem act_moves {t : τ} {q q' : SuspensionQueue τ α} {p p' : Point α} {a : Action α}
    (hact : act t q p a = some (q', p')) : Moves t q p a q' p' := by
  unfold act at hact
  split at hact
  all_goals try simp only [Option.some.injEq, Prod.mk.injEq, Option.map_eq_some_iff, reduceCtorEq,
    Option.ite_none_left_eq_some, Option.ite_none_right_eq_some] at hact
  · obtain ⟨rfl, rfl⟩ := hact
    exact Moves.call rfl _
  · obtain ⟨rfl, rfl⟩ := hact
    exact Moves.call rfl _
  · obtain ⟨m, hlock, rfl, rfl⟩ := hact
    exact Moves.lockPush hlock _
  · obtain ⟨rfl, rfl⟩ := hact
    exact Moves.enqueue _
  · obtain ⟨rfl, rfl⟩ := hact
    exact Moves.unlock
  · obtain ⟨rfl, rfl⟩ := hact
    exact Moves.notify
  · obtain ⟨m, hlock, rfl, rfl⟩ := hact
    exact Moves.lockPop hlock _
  · split at hact
    · rename_i hempty
      obtain ⟨rfl, rfl⟩ := Prod.mk.inj (Option.some.inj hact)
      exact Moves.empty hempty _
    · rename_i item rest hqueue
      obtain ⟨rfl, rfl⟩ := Prod.mk.inj (Option.some.inj hact)
      exact Moves.take hqueue _
  · obtain ⟨rfl, rfl⟩ := hact
    exact Moves.wait _
  · obtain ⟨hawake, m, hlock, rfl, rfl⟩ := hact
    exact Moves.relock hawake hlock _
  · obtain ⟨hasleep, rfl, rfl⟩ := hact
    exact Moves.spurious hasleep _
  · split at hact
    · rename_i hflag
      obtain ⟨rfl, rfl⟩ := Prod.mk.inj (Option.some.inj hact)
      exact Moves.giveUp hflag _
    · rename_i hflag
      obtain ⟨rfl, rfl⟩ := Prod.mk.inj (Option.some.inj hact)
      exact Moves.recheck (Bool.not_eq_true _ ▸ hflag) _
  · obtain ⟨rfl, rfl⟩ := hact
    exact Moves.setFlag
  · obtain ⟨rfl, rfl⟩ := hact
    exact Moves.notifyTerminated

/-! ## The invariant -/

/-- A thread has seen or set the flag. -/
def Point.Flagged (p : Point α) : Prop :=
  p = .notifyTerminated ∨ ∃ overload, p = .popped overload none

/-- What holds of a queue and the points of all threads.

`published` is what keeps wake-ups from getting lost: a thread goes to sleep beside the
empty queue only, so an item that is queued while it sleeps was queued after that, and
its push wakes everybody when it comes to its notification. -/
structure Inv (q : SuspensionQueue τ α) (points : τ → Point α) : Prop where
  guards : Guards q.mutex Point.locked points
  sleeps : Sleeps q.condition Point.isAsleep points
  empty : ∀ t overload, points t = .wait overload → q.queue = []
  fifo : q.pushed = q.returned ++ q.queue
  handed : ∀ t overload item, points t = .popped overload (some item) → item ∈ q.returned
  published : q.queue ≠ [] → q.condition.waiters.Nonempty → ∃ u, (points u).publishing = true
  flagged : ∀ t, (points t).Flagged → q.isTerminated = true

variable {t : τ} {q q' : SuspensionQueue τ α} {points : τ → Point α}

/-- A point in no function is neither locked nor asleep nor publishing. -/
theorem Point.of_free {p : Point α} (h : p.free = true) :
    p.locked = false ∧ p.isAsleep = false ∧ p.publishing = false := by
  cases p with
  | idle | popped => exact ⟨rfl, rfl, rfl⟩
  | _ => cases h

theorem Call.of_entry (call : Call α) :
    call.entry.locked = false ∧ call.entry.isAsleep = false ∧ call.entry.publishing = false := by
  cases call <;> exact ⟨rfl, rfl, rfl⟩

variable {p p' : Point α} {a : Action α}

theorem Moves.guards (hmove : Moves t q p a q' p') (hp : points t = p)
    (h : Guards q.mutex Point.locked points) :
    Guards q'.mutex Point.locked (Function.update points t p') := by
  cases hmove with
  | call hfree call => exact h.stay hp (call.of_entry.1.trans (Point.of_free hfree).1.symm)
  | lockPush hlock => exact h.lock hlock rfl
  | lockPop hlock => exact h.lock hlock rfl
  | relock _ hlock => exact h.lock hlock rfl
  | unlock | take | wait | giveUp => exact h.unlock hp rfl rfl
  | enqueue | notify | empty | spurious | recheck | setFlag | notifyTerminated =>
      exact h.stay hp rfl

theorem Moves.sleeps (hmove : Moves t q p a q' p') (hp : points t = p)
    (h : Sleeps q.condition Point.isAsleep points) :
    Sleeps q'.condition Point.isAsleep (Function.update points t p') := by
  cases hmove with
  | call hfree => exact h.stay hp (Or.inl (Point.of_free hfree).2.1)
  | notify | notifyTerminated => exact Sleeps.notifyAll q.condition _ _
  | wait => exact h.wait rfl
  | relock hawake => exact h.stay hp (Or.inr hawake)
  | spurious => exact h.wake
  | lockPush | enqueue | unlock | lockPop | empty | take | giveUp | recheck | setFlag =>
      exact h.stay hp (Or.inl rfl)

theorem Moves.fifo (hmove : Moves t q p a q' p') (h : q.pushed = q.returned ++ q.queue) :
    q'.pushed = q'.returned ++ q'.queue := by
  cases hmove with
  | enqueue item =>
      rw [h, List.append_assoc]
  | take hqueue =>
      rw [h, hqueue]
      simp
  | _ => exact h

theorem Moves.handed (hmove : Moves t q p a q' p')
    (h : ∀ u overload item, points u = .popped overload (some item) → item ∈ q.returned) (u : τ)
    (overload : Overload) (item : α)
    (hu : Function.update points t p' u = .popped overload (some item)) : item ∈ q'.returned := by
  rcases eq_or_ne u t with rfl | hne
  · rw [Function.update_self] at hu
    cases hmove with
    | call _ call => cases call <;> cases hu
    | take hqueue =>
        cases hu
        simp
    | _ => cases hu
  · rw [Function.update_of_ne hne] at hu
    have hmem := h u overload item hu
    cases hmove with
    | take => exact List.mem_append_left _ hmem
    | _ => exact hmem

/-- Only a thread that holds the mutex puts something into the queue. -/
theorem Moves.locked_of_queue (hmove : Moves t q p a q' p') (hempty : q.queue = [])
    (hqueue : q'.queue ≠ []) : p.locked = true := by
  cases hmove with
  | enqueue => rfl
  | take hcons =>
      rw [hempty] at hcons
      cases hcons
  | _ => exact absurd hempty hqueue

theorem Moves.still_empty (hmove : Moves t q p a q' p') (hp : points t = p)
    (hguards : Guards q.mutex Point.locked points)
    (h : ∀ u overload, points u = .wait overload → q.queue = []) (u : τ) (overload : Overload)
    (hu : Function.update points t p' u = .wait overload) : q'.queue = [] := by
  rcases eq_or_ne u t with rfl | hne
  · rw [Function.update_self] at hu
    cases hmove with
    | call _ call => cases call <;> cases hu
    | empty hempty => exact hempty
    | _ => cases hu
  · rw [Function.update_of_ne hne] at hu
    by_contra hqueue
    -- the mutex is held by the thread about to wait, and needed to fill the queue
    have hlocked := hmove.locked_of_queue (h u overload hu) hqueue
    exact hne (hguards.eq_of_locked (by rw [hu]; rfl) (hp ▸ hlocked))

/-- Who publishes keeps publishing while others move. -/
theorem publishing_update (hp : points t = p) (hidle : p.publishing = false)
    (h : ∃ u, (points u).publishing = true) :
    ∃ u, (Function.update points t p' u).publishing = true := by
  obtain ⟨u, hu⟩ := h
  have hne : u ≠ t := by
    rintro rfl
    rw [hp, hidle] at hu
    cases hu
  exact ⟨u, by rw [Function.update_of_ne hne]; exact hu⟩

theorem Moves.published (hmove : Moves t q p a q' p') (hp : points t = p)
    (hempty : ∀ u overload, points u = .wait overload → q.queue = [])
    (h : q.queue ≠ [] → q.condition.waiters.Nonempty → ∃ u, (points u).publishing = true)
    (hqueue : q'.queue ≠ []) (hwaiters : q'.condition.waiters.Nonempty) :
    ∃ u, (Function.update points t p' u).publishing = true := by
  cases hmove with
  | call hfree call =>
      exact publishing_update hp (Point.of_free hfree).2.2 (h hqueue hwaiters)
  | enqueue item => exact ⟨t, by rw [Function.update_self]; rfl⟩
  | unlock => exact ⟨t, by rw [Function.update_self]; rfl⟩
  | notify | notifyTerminated => simp [Condition.notifyAll] at hwaiters
  | take hcons =>
      exact publishing_update hp rfl (h (by rw [hcons]; simp) hwaiters)
  | wait overload => exact absurd (hempty t overload hp) hqueue
  | spurious hasleep => exact publishing_update hp rfl (h hqueue ⟨t, hasleep⟩)
  | lockPush | lockPop | empty | relock | giveUp | recheck | setFlag =>
      exact publishing_update hp rfl (h hqueue hwaiters)

/-- The flag is never taken back. -/
theorem Moves.isTerminated (hmove : Moves t q p a q' p') (h : q.isTerminated = true) :
    q'.isTerminated = true := by
  cases hmove with
  | setFlag => rfl
  | _ => exact h

theorem Moves.flagged (hmove : Moves t q p a q' p')
    (h : ∀ u, (points u).Flagged → q.isTerminated = true) (u : τ)
    (hu : (Function.update points t p' u).Flagged) : q'.isTerminated = true := by
  rcases eq_or_ne u t with rfl | hne
  · rw [Function.update_self] at hu
    cases hmove with
    | call _ call => cases call <;> simp [Point.Flagged, Call.entry] at hu
    | giveUp hflag => exact hflag
    | setFlag => rfl
    | _ => simp [Point.Flagged] at hu
  · rw [Function.update_of_ne hne] at hu
    exact hmove.isTerminated (h u hu)

theorem Inv.moves (h : Inv q points) (hp : points t = p) (hmove : Moves t q p a q' p') :
    Inv q' (Function.update points t p') where
  guards := hmove.guards hp h.guards
  sleeps := hmove.sleeps hp h.sleeps
  empty := hmove.still_empty hp h.guards h.empty
  fifo := hmove.fifo h.fifo
  handed := hmove.handed h.handed
  published := hmove.published hp h.empty h.published
  flagged := hmove.flagged h.flagged

/-- A thread outside the functions of the queue forgets what it popped. -/
theorem Inv.leave (h : Inv q points) (hp : points t = p) (hfree : p.free = true) :
    Inv q (Function.update points t .idle) where
  guards := h.guards.stay hp (Point.of_free hfree).1.symm
  sleeps := h.sleeps.stay hp (Or.inl (Point.of_free hfree).2.1)
  empty := by
    intro u overload
    rcases eq_or_ne u t with rfl | hne
    · simp
    · simpa [hne] using h.empty u overload
  fifo := h.fifo
  handed := by
    intro u overload item
    rcases eq_or_ne u t with rfl | hne
    · simp
    · simpa [hne] using h.handed u overload item
  published hqueue hwaiters :=
    publishing_update hp (Point.of_free hfree).2.2 (h.published hqueue hwaiters)
  flagged := by
    intro u hu
    rcases eq_or_ne u t with rfl | hne
    · simp [Point.Flagged] at hu
    · rw [Function.update_of_ne hne] at hu
      exact h.flagged u hu

/-- Whoever holds the mutex can go on. -/
theorem act_ne_none_of_locked (t : τ) (q : SuspensionQueue τ α) (hlocked : p.locked = true) :
    act t q p .next ≠ none := by
  cases p with
  | enqueue | unlock | wait => simp [act]
  | test => cases hqueue : q.queue <;> simp [act, hqueue]
  | check => cases hflag : q.isTerminated <;> simp [act, hflag]
  | _ => cases hlocked

omit [DecidableEq τ] in
theorem inv_start : Inv ({} : SuspensionQueue τ α) fun _ : τ => .idle where
  guards := by
    intro t
    simp [Point.locked]
  sleeps := nofun
  empty := nofun
  fifo := rfl
  handed := nofun
  published := fun h => absurd rfl h
  flagged := by
    intro t ht
    simp [Point.Flagged] at ht

end

/-! ## All interleavings -/

section

variable {τ α : Type*} [DecidableEq τ]

variable (τ α) in
/-- Threads that call the functions of one queue. -/
def program : Program τ (SuspensionQueue τ α) (Point α) (Action α) where
  shared := {}
  points := fun _ => .idle
  act := act

variable {inputs : List (τ × Action α)} {s : Threads τ (SuspensionQueue τ α) (Point α)}

theorem inv_run (hrun : (program τ α).machine.run inputs = some s) : Inv s.shared s.points := by
  refine Program.invariant (I := Inv) inv_start ?_ hrun
  intro q points t a q' p h hact
  exact h.moves rfl (act_moves hact)

/-- The flag is set by calls of `terminate` only. -/
theorem called_of_flag (hrun : (program τ α).machine.run inputs = some s) :
    (s.shared.isTerminated = true ∨ ∃ t, s.points t = .setFlag) →
      ∃ u, (u, .call .terminate) ∈ inputs := by
  refine Machine.run_induction (P := fun inputs s =>
    (s.shared.isTerminated = true ∨ ∃ t, s.points t = .setFlag) →
      ∃ u, (u, .call .terminate) ∈ inputs) ?_ ?_ inputs s hrun
  · rintro (h | ⟨t, ht⟩)
    · cases h
    · cases ht
  · rintro inputs s ⟨t, a⟩ s' hs ih hstep h
    obtain ⟨q', p', hact, rfl⟩ := Program.step_eq_some.mp hstep
    -- a step sets the flag at `setFlag` and gets there by a call
    have hcases : (s.shared.isTerminated = true ∨ ∃ u, s.points u = .setFlag) ∨
        a = .call .terminate := by
      rcases h with h | ⟨u, hu⟩
      · have hmove := act_moves hact
        generalize hp : s.points t = p at hmove
        cases hmove with
        | setFlag => exact Or.inl (Or.inr ⟨t, hp⟩)
        | _ => exact Or.inl (Or.inl h)
      · rcases eq_or_ne u t with rfl | hne
        · simp only [Function.update_self] at hu
          have hmove := act_moves hact
          generalize s.points u = p at hmove
          cases hmove with
          | call _ call =>
              cases call with
              | terminate => exact Or.inr rfl
              | push | pop => cases hu
          | _ => cases hu
        · simp only [Function.update_of_ne hne] at hu
          exact Or.inl (Or.inr ⟨u, hu⟩)
    rcases hcases with hbefore | rfl
    · obtain ⟨v, hv⟩ := ih hbefore
      exact ⟨v, List.mem_append_left _ hv⟩
    · exact ⟨t, List.mem_append_right _ (List.mem_singleton.mpr rfl)⟩

/-- A thread sleeps in `wait`. -/
def Asleep (s : Threads τ (SuspensionQueue τ α) (Point α)) (t : τ) : Prop :=
  t ∈ s.shared.condition.waiters

/-- In every state of every interleaving: the items returned by pops, in order, and then
the queued ones are the pushed ones; a pop executes `return NULL` or `return false` only
after `terminate` was called, so that a NULL from `pop()` is one that was pushed or comes
after such a call; and beside a queued item and a sleeper some push is between its
enqueue and its `notify_all`. -/
theorem delivers_in_order (hrun : (program τ α).machine.run inputs = some s) :
    s.shared.pushed = s.shared.returned ++ s.shared.queue ∧
    (∀ t overload item, s.points t = .popped overload (some item) → item ∈ s.shared.returned) ∧
    (∀ t overload, s.points t = .popped overload none → ∃ u, (u, .call .terminate) ∈ inputs) ∧
    (∀ t null result, s.points t = .popped .value result → value null result = null →
      null ∈ s.shared.pushed ∨ ∃ u, (u, .call .terminate) ∈ inputs) ∧
    (s.shared.queue ≠ [] → (∃ t, Asleep s t) → ∃ u, (s.points u).publishing = true) := by
  have hinv := inv_run hrun
  have hgaveUp : ∀ t overload, s.points t = .popped overload none →
      ∃ u, (u, .call .terminate) ∈ inputs := fun t overload ht =>
    called_of_flag hrun (Or.inl (hinv.flagged t (Or.inr ⟨overload, ht⟩)))
  refine ⟨hinv.fifo, hinv.handed, hgaveUp, ?_, hinv.published⟩
  intro t null result ht hnull
  cases result with
  | none => exact Or.inr (hgaveUp t .value ht)
  | some item =>
      obtain rfl : item = null := hnull
      rw [hinv.fifo]
      exact Or.inl (List.mem_append_left _ (hinv.handed t .value item ht))

/-- One thread pushes, then another pops. -/
def pushPop : List (ℕ × Action ℕ) :=
  [(0, .call (.push 7)), (0, .next), (0, .next), (0, .next), (0, .next),
    (1, .call (.pop .value)), (1, .next), (1, .next)]

theorem delivers_in_order_pushPop : ∃ s, (program ℕ ℕ).machine.run pushPop = some s ∧
    s.shared.returned = [7] ∧ s.shared.pushed = s.shared.returned ++ s.shared.queue :=
  ⟨_, rfl, rfl, (delivers_in_order (show (program ℕ ℕ).machine.run pushPop = some _ from rfl)).1⟩

/-! ## Who is left asleep -/

/-- A call of `terminate` is complete, and a thread sleeps beside the empty queue. -/
def Stranded (s : Threads τ (SuspensionQueue τ α) (Point α)) : Prop :=
  0 < s.shared.terminates ∧ s.shared.queue = [] ∧ ∃ t, Asleep s t

/-- The step is that of a pop which found the queue empty and starts to wait. -/
def StartsWaiting (s : Threads τ (SuspensionQueue τ α) (Point α)) (i : τ × Action α) : Prop :=
  ∃ overload, s.points i.1 = .wait overload ∧ i.2 = .next

/-- Whoever starts to wait does so before a call of `terminate` is complete. -/
def WaitsInTime (s : Threads τ (SuspensionQueue τ α) (Point α)) (i : τ × Action α) : Prop :=
  StartsWaiting s i → s.shared.terminates = 0

/-- The last thing `terminate` does is to wake everybody. -/
theorem awake_of_waitsInTime (hrun : (program τ α).machine.run inputs = some s) :
    (program τ α).machine.Always WaitsInTime inputs → 0 < s.shared.terminates →
      s.shared.condition.waiters = ∅ := by
  refine Machine.run_induction (P := fun inputs s =>
    (program τ α).machine.Always WaitsInTime inputs → 0 < s.shared.terminates →
      s.shared.condition.waiters = ∅) ?_ ?_ inputs s hrun
  · intro _ _
    rfl
  · rintro inputs s ⟨t, a⟩ s' hs ih hstep halways hterminates
    rw [Machine.always_concat] at halways
    obtain ⟨hfront, hlast⟩ := halways
    have htime := hlast s hs
    have hquiet := ih hfront
    obtain ⟨q', p', hact, rfl⟩ := Program.step_eq_some.mp hstep
    have hmove := act_moves hact
    generalize hp : s.points t = p at hmove
    cases hmove with
    | notify | notifyTerminated => rfl
    | wait overload =>
        have hzero := htime ⟨overload, hp, rfl⟩
        exact absurd hzero (Nat.pos_iff_ne_zero.mp hterminates)
    | spurious hasleep =>
        rw [hquiet hterminates] at hasleep
        simp at hasleep
    | _ => exact hquiet hterminates

/-- `terminate` leaves nobody asleep on an empty queue exactly when no pop starts to wait
after a call of it is complete. -/
theorem releases_iff (hrun : (program τ α).machine.run inputs = some s) :
    (program τ α).machine.Throughout (fun s => ¬ Stranded s) inputs ↔
      (program τ α).machine.Always WaitsInTime inputs := by
  refine Machine.throughout_iff_always ?_ ?_ hrun
  · rintro ⟨hterminates, _⟩
    exact absurd hterminates (lt_irrefl 0)
  · rintro inputs s ⟨t, a⟩ s' hs _ halways hstep
    have hs' := Machine.run_concat_eq_some.mpr ⟨s, hs, hstep⟩
    constructor
    · rintro hstranded ⟨overload, hp, rfl⟩
      by_contra hterminates
      obtain ⟨q', p', hact, rfl⟩ := Program.step_eq_some.mp hstep
      have hmove := act_moves hact
      rw [show s.points t = .wait overload from hp] at hmove
      cases hmove
      -- the queue is still empty, and the thread is asleep now
      apply hstranded
      exact ⟨Nat.pos_of_ne_zero hterminates, (inv_run hs).empty t overload hp, t,
        Finset.mem_insert_self t _⟩
    · rintro htime ⟨hterminates, _, u, hu⟩
      have halways' : (program τ α).machine.Always WaitsInTime (inputs ++ [(t, a)]) := by
        rw [Machine.always_concat]
        refine ⟨halways, ?_⟩
        intro s₁ hs₁
        rw [hs, Option.some.injEq] at hs₁
        exact hs₁ ▸ htime
      have hawake := awake_of_waitsInTime hs' halways' hterminates
      rw [Asleep, hawake] at hu
      simp at hu

/-- One thread calls `terminate`, and then another pops. -/
def latePop : List (ℕ × Action ℕ) :=
  [(0, .call .terminate), (0, .next), (0, .next),
    (1, .call (.pop .value)), (1, .next), (1, .next), (1, .next)]

theorem not_releases_latePop :
    ¬ (program ℕ ℕ).machine.Throughout (fun s => ¬ Stranded s) latePop := by
  intro h
  apply h.last (show (program ℕ ℕ).machine.run latePop = some _ from rfl)
  exact ⟨Nat.one_pos, rfl, 1, Finset.mem_insert_self 1 ∅⟩

theorem releases_iff_latePop :
    (program ℕ ℕ).machine.Throughout (fun s => ¬ Stranded s) latePop ↔
      (program ℕ ℕ).machine.Always WaitsInTime latePop :=
  releases_iff (show (program ℕ ℕ).machine.run latePop = some _ from rfl)

end

end SuspensionQueue

end RyuLib
