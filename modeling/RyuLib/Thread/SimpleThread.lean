import RyuLib.Foundations.History
import RyuLib.Foundations.Threads

/-!
# SimpleThread

A thread whose body sleeps, and the threads that wake and end it.  A point is a place in
one of the member functions; a call of `sleepTight` begins when it is entered, before it
looks at `is_terminated_`.

* `SimpleThread.protocol_iff`: in which runs sleeping, waking and ending go together.
* `SimpleThread.returns_le_wakeUps`: the count of the wake-ups follows from the order of
  the events.
-/

namespace RyuLib

open Foundations History

namespace SimpleThread

/-- What happens to `sleepTight` and around it. -/
inductive Event
  | entered
  | waited
  | returned
  | wokeUp
  | terminated
  deriving DecidableEq

end SimpleThread

/-- `joinable` says that `thread_` has been neither joined nor detached, `finished` that the
body has returned; `log` is what happened so far. -/
structure SimpleThread (τ : Type*) where
  isTerminated : Bool := false
  mutex : Mutex τ := {}
  condition : Condition τ := {}
  joinable : Bool := true
  finished : Bool := false
  log : List SimpleThread.Event := []

namespace SimpleThread

inductive Call
  | sleep
  | sleepTight
  | wakeUp
  | terminate
  | terminateAndWait
  deriving DecidableEq

/-- Where a thread is.  `tight` tells `sleepTight` from `sleep`, and `join` tells
`terminateAndWait` from the functions it shares its code with. -/
inductive Point
  | idle
  | guard (tight : Bool)
  | lockSleep (tight : Bool)
  | wait (tight : Bool)
  | asleep (tight : Bool)
  | leave (tight : Bool)
  | lockWake (join : Bool)
  | notify (join : Bool)
  | unlockWake (join : Bool)
  | setFlag (join : Bool)
  | detach
  | join
  | ended
  deriving DecidableEq

/-- What a thread chooses: which function it calls; nothing, while it is in one; that the
time of a `sleep` is over; that the body returns. -/
inductive Action
  | call (call : Call)
  | next
  | timeout
  | finish
  deriving DecidableEq

section

variable {τ : Type*}

def record (g : SimpleThread τ) (event : Event) : SimpleThread τ :=
  { g with log := g.log ++ [event] }

/-- Record an event of `sleepTight`. -/
def recordIf (g : SimpleThread τ) (tight : Bool) (event : Event) : SimpleThread τ :=
  if tight = true then g.record event else g

@[simp] theorem recordIf_isTerminated (g : SimpleThread τ) (tight : Bool) (event : Event) :
    (g.recordIf tight event).isTerminated = g.isTerminated := by
  cases tight <;> rfl

@[simp] theorem recordIf_mutex (g : SimpleThread τ) (tight : Bool) (event : Event) :
    (g.recordIf tight event).mutex = g.mutex := by
  cases tight <;> rfl

@[simp] theorem recordIf_condition (g : SimpleThread τ) (tight : Bool) (event : Event) :
    (g.recordIf tight event).condition = g.condition := by
  cases tight <;> rfl

@[simp] theorem recordIf_joinable (g : SimpleThread τ) (tight : Bool) (event : Event) :
    (g.recordIf tight event).joinable = g.joinable := by
  cases tight <;> rfl

theorem recordIf_log (g : SimpleThread τ) (tight : Bool) (event : Event) :
    (g.recordIf tight event).log = if tight = true then g.log ++ [event] else g.log := by
  cases tight <;> rfl

/-- The points at which a thread holds `mutex_`. -/
def Point.locked : Point → Bool
  | .wait _ | .leave _ | .notify _ | .unlockWake _ => true
  | _ => false

def Point.isAsleep : Point → Bool
  | .asleep _ => true
  | _ => false

/-- Behind the test of the flag in `sleep` and `sleepTight`. -/
def Point.sleeping : Point → Bool
  | .lockSleep _ | .wait _ | .asleep _ | .leave _ => true
  | _ => false

/-- In a call of `sleepTight`. -/
def Point.tight : Point → Bool
  | .guard tight | .lockSleep tight | .wait tight | .asleep tight | .leave tight => tight
  | _ => false

/-- A wake-up is pending: it has been called, and has not notified yet. -/
def Point.waking : Point → Bool
  | .lockWake _ | .notify _ => true
  | _ => false

variable [DecidableEq τ]

/-- One step of thread `t`. -/
def act (t : τ) (g : SimpleThread τ) : Point → Action → Option (SimpleThread τ × Point)
  | .idle, .call .sleep => some (g, .guard false)
  | .idle, .call .sleepTight => some (g.record .entered, .guard true)
  | .idle, .call .wakeUp => some (g, .lockWake false)
  | .idle, .call .terminate => some (g, .setFlag false)
  | .idle, .call .terminateAndWait => some (g, .setFlag true)
  | .idle, .finish => some ({ g with finished := true }, .ended)
  -- sleep and sleepTight
  | .guard tight, .next =>
      if g.isTerminated = false then some (g.recordIf tight .returned, .idle)
      else some (g, .lockSleep tight)
  | .lockSleep tight, .next => (g.mutex.lock t).map fun m => ({ g with mutex := m }, .wait tight)
  | .wait tight, .next =>
      some ({ g with mutex := g.mutex.unlock, condition := g.condition.wait t }.recordIf tight
        .waited, .asleep tight)
  | .asleep tight, .next =>
      if t ∈ g.condition.waiters then none
      else (g.mutex.lock t).map fun m => ({ g with mutex := m }, .leave tight)
  | .asleep false, .timeout => some ({ g with condition := g.condition.wake t }, .asleep false)
  | .leave tight, .next =>
      some ({ g with mutex := g.mutex.unlock }.recordIf tight .returned, .idle)
  -- wakeUp, by itself and in terminateAndWait
  | .lockWake join, .next => (g.mutex.lock t).map fun m => ({ g with mutex := m }, .notify join)
  | .notify join, .next =>
      some ({ g with condition := g.condition.notifyAll }.record .wokeUp, .unlockWake join)
  | .unlockWake join, .next =>
      some ({ g with mutex := g.mutex.unlock }, if join = true then .join else .idle)
  -- terminate and terminateAndWait
  | .setFlag join, .next =>
      some ({ g with isTerminated := true }.record .terminated,
        if join = true then .lockWake true else .detach)
  | .detach, .next =>
      -- a thread that is not joinable makes `detach` and `join` throw
      some ({ g with joinable := false }, .idle)
  | .join, .next =>
      if g.joinable = true ∧ g.finished = false then none
      else some ({ g with joinable := false }, .idle)
  | _, _ => none

/-- What a step does, one rule for each kind of step. -/
inductive Moves (t : τ) (g : SimpleThread τ) :
    Point → Action → SimpleThread τ → Point → Prop
  | sleep : Moves t g .idle (.call .sleep) g (.guard false)
  | sleepTight : Moves t g .idle (.call .sleepTight) (g.record .entered) (.guard true)
  | wakeUp : Moves t g .idle (.call .wakeUp) g (.lockWake false)
  | terminate : Moves t g .idle (.call .terminate) g (.setFlag false)
  | terminateAndWait : Moves t g .idle (.call .terminateAndWait) g (.setFlag true)
  | finish : Moves t g .idle .finish { g with finished := true } .ended
  | turnBack (hflag : g.isTerminated = false) (tight : Bool) :
      Moves t g (.guard tight) .next (g.recordIf tight .returned) .idle
  | pass (hflag : g.isTerminated = true) (tight : Bool) :
      Moves t g (.guard tight) .next g (.lockSleep tight)
  | lockSleep {m : Mutex τ} (hlock : g.mutex.lock t = some m) (tight : Bool) :
      Moves t g (.lockSleep tight) .next { g with mutex := m } (.wait tight)
  | wait (tight : Bool) :
      Moves t g (.wait tight) .next
        ({ g with mutex := g.mutex.unlock, condition := g.condition.wait t }.recordIf tight .waited)
        (.asleep tight)
  | relock {m : Mutex τ} (hawake : t ∉ g.condition.waiters) (hlock : g.mutex.lock t = some m)
      (tight : Bool) : Moves t g (.asleep tight) .next { g with mutex := m } (.leave tight)
  | timeout :
      Moves t g (.asleep false) .timeout { g with condition := g.condition.wake t } (.asleep false)
  | leave (tight : Bool) :
      Moves t g (.leave tight) .next
        ({ g with mutex := g.mutex.unlock }.recordIf tight .returned) .idle
  | lockWake {m : Mutex τ} (hlock : g.mutex.lock t = some m) (join : Bool) :
      Moves t g (.lockWake join) .next { g with mutex := m } (.notify join)
  | notify (join : Bool) :
      Moves t g (.notify join) .next
        ({ g with condition := g.condition.notifyAll }.record .wokeUp) (.unlockWake join)
  | unlockWake (join : Bool) :
      Moves t g (.unlockWake join) .next { g with mutex := g.mutex.unlock }
        (if join = true then .join else .idle)
  | setFlag (join : Bool) :
      Moves t g (.setFlag join) .next ({ g with isTerminated := true }.record .terminated)
        (if join = true then .lockWake true else .detach)
  | detach : Moves t g .detach .next { g with joinable := false } .idle
  | join (hready : g.joinable = true → g.finished = true) :
      Moves t g .join .next { g with joinable := false } .idle

theorem act_moves {t : τ} {g g' : SimpleThread τ} {p p' : Point} {a : Action}
    (hact : act t g p a = some (g', p')) : Moves t g p a g' p' := by
  unfold act at hact
  split at hact
  all_goals try simp only [Option.some.injEq, Prod.mk.injEq, Option.map_eq_some_iff, reduceCtorEq,
    Option.ite_none_left_eq_some] at hact
  · obtain ⟨rfl, rfl⟩ := hact
    exact Moves.sleep
  · obtain ⟨rfl, rfl⟩ := hact
    exact Moves.sleepTight
  · obtain ⟨rfl, rfl⟩ := hact
    exact Moves.wakeUp
  · obtain ⟨rfl, rfl⟩ := hact
    exact Moves.terminate
  · obtain ⟨rfl, rfl⟩ := hact
    exact Moves.terminateAndWait
  · obtain ⟨rfl, rfl⟩ := hact
    exact Moves.finish
  · split at hact
    · rename_i hflag
      obtain ⟨rfl, rfl⟩ := Prod.mk.inj (Option.some.inj hact)
      exact Moves.turnBack hflag _
    · rename_i hflag
      obtain ⟨rfl, rfl⟩ := Prod.mk.inj (Option.some.inj hact)
      exact Moves.pass (Bool.not_eq_false _ ▸ hflag) _
  · obtain ⟨m, hlock, rfl, rfl⟩ := hact
    exact Moves.lockSleep hlock _
  · obtain ⟨rfl, rfl⟩ := hact
    exact Moves.wait _
  · obtain ⟨hawake, m, hlock, rfl, rfl⟩ := hact
    exact Moves.relock hawake hlock _
  · obtain ⟨rfl, rfl⟩ := hact
    exact Moves.timeout
  · obtain ⟨rfl, rfl⟩ := hact
    exact Moves.leave _
  · obtain ⟨m, hlock, rfl, rfl⟩ := hact
    exact Moves.lockWake hlock _
  · obtain ⟨rfl, rfl⟩ := hact
    exact Moves.notify _
  · obtain ⟨rfl, rfl⟩ := hact
    exact Moves.unlockWake _
  · obtain ⟨rfl, rfl⟩ := hact
    exact Moves.setFlag _
  · obtain ⟨rfl, rfl⟩ := hact
    exact Moves.detach
  · obtain ⟨hready, rfl, rfl⟩ := hact
    refine Moves.join ?_
    intro hjoinable
    by_contra hnot
    exact hready ⟨hjoinable, by simpa using hnot⟩

/-! ## What steps keep -/

variable {t : τ} {g g' : SimpleThread τ} {p p' : Point} {a : Action} {points : τ → Point}

theorem Moves.guards (hmove : Moves t g p a g' p') (hp : points t = p)
    (h : Guards g.mutex Point.locked points) :
    Guards g'.mutex Point.locked (Function.update points t p') := by
  cases hmove with
  | lockSleep hlock => exact h.lock hlock rfl
  | relock _ hlock => exact h.lock hlock rfl
  | lockWake hlock => exact h.lock hlock rfl
  | wait | leave =>
      rw [recordIf_mutex]
      exact h.unlock hp rfl rfl
  | unlockWake join => exact h.unlock hp rfl (by cases join <;> rfl)
  | setFlag join => exact h.stay hp (by cases join <;> rfl)
  | turnBack =>
      rw [recordIf_mutex]
      exact h.stay hp rfl
  | _ => exact h.stay hp rfl

theorem Moves.sleeps (hmove : Moves t g p a g' p') (hp : points t = p)
    (h : Sleeps g.condition Point.isAsleep points) :
    Sleeps g'.condition Point.isAsleep (Function.update points t p') := by
  cases hmove with
  | wait =>
      rw [recordIf_condition]
      exact h.wait rfl
  | relock hawake => exact h.stay hp (Or.inr hawake)
  | timeout => exact h.wake
  | notify => exact Sleeps.notifyAll g.condition _ _
  | turnBack | leave =>
      rw [recordIf_condition]
      exact h.stay hp (Or.inl rfl)
  | _ => exact h.stay hp (Or.inl rfl)

/-- Only a thread at its wait falls asleep. -/
theorem Moves.waiters (hmove : Moves t g p a g' p') {u : τ} (hu : u ∈ g'.condition.waiters) :
    u ∈ g.condition.waiters ∨ u = t ∧ ∃ tight, p = .wait tight := by
  cases hmove with
  | wait tight =>
      rw [recordIf_condition] at hu
      rcases Finset.mem_insert.mp hu with rfl | hu
      · exact Or.inr ⟨rfl, tight, rfl⟩
      · exact Or.inl hu
  | notify => simp [record, Condition.notifyAll] at hu
  | timeout => exact Or.inl (Finset.mem_of_mem_erase hu)
  | turnBack | leave =>
      rw [recordIf_condition] at hu
      exact Or.inl hu
  | _ => exact Or.inl hu

/-- Nobody falls asleep while a `wakeUp` that has notified still holds the mutex. -/
theorem Moves.quiet (hmove : Moves t g p a g' p') (hp : points t = p)
    (hguards : Guards g.mutex Point.locked points)
    (h : ∀ u join, points u = .unlockWake join → g.condition.waiters = ∅) (u : τ) (join : Bool)
    (hu : Function.update points t p' u = .unlockWake join) : g'.condition.waiters = ∅ := by
  rcases eq_or_ne u t with rfl | hne
  · rw [Function.update_self] at hu
    cases hmove with
    | notify => rfl
    | unlockWake join => cases join <;> cases hu
    | setFlag join => cases join <;> cases hu
    | _ => cases hu
  · rw [Function.update_of_ne hne] at hu
    rw [Finset.eq_empty_iff_forall_notMem]
    intro v hv
    rcases hmove.waiters hv with hbefore | ⟨_, tight, hwait⟩
    · rw [h u join hu] at hbefore
      simp at hbefore
    · exact hne (hguards.eq_of_locked (by rw [hu]; rfl) (by rw [hp, hwait]; rfl))

/-- The flag is set when termination is in the log. -/
theorem Moves.flagged (hmove : Moves t g p a g' p')
    (h : g.isTerminated = true ↔ .terminated ∈ g.log) :
    g'.isTerminated = true ↔ .terminated ∈ g'.log := by
  cases hmove with
  | turnBack _ tight | wait tight | leave tight =>
      rw [recordIf_isTerminated, recordIf_log]
      cases tight <;> simp [h]
  | sleepTight | notify | setFlag => simp [record, h]
  | _ => exact h

/-- The flag is never taken back, -/
theorem Moves.isTerminated (hmove : Moves t g p a g' p') (h : g.isTerminated = true) :
    g'.isTerminated = true := by
  cases hmove with
  | setFlag => rfl
  | turnBack | wait | leave => rwa [recordIf_isTerminated]
  | _ => exact h

/-- and set at one place only. -/
theorem Moves.setFlag_of_isTerminated (hmove : Moves t g p a g' p')
    (h : g'.isTerminated = true) : g.isTerminated = true ∨ ∃ join, p = .setFlag join := by
  cases hmove with
  | setFlag join => exact Or.inr ⟨join, rfl⟩
  | turnBack | wait | leave =>
      rw [recordIf_isTerminated] at h
      exact Or.inl h
  | _ => exact Or.inl h

/-- Whoever has passed the guard of a sleep found the flag set. -/
theorem Moves.passed (hmove : Moves t g p a g' p')
    (h : ∀ u, (points u).sleeping = true → g.isTerminated = true) (hp : points t = p) (u : τ)
    (hu : (Function.update points t p' u).sleeping = true) : g'.isTerminated = true := by
  apply hmove.isTerminated
  rcases eq_or_ne u t with rfl | hne
  · rw [Function.update_self] at hu
    cases hmove with
    | pass hflag => exact hflag
    | lockSleep | wait | relock | timeout => exact h u (by rw [hp]; rfl)
    | unlockWake join => cases join <;> cases hu
    | setFlag join => cases join <;> cases hu
    | _ => cases hu
  · rw [Function.update_of_ne hne] at hu
    exact h u hu

/-- A thread gets into `sleepTight` by calling it. -/
theorem Moves.tight (hmove : Moves t g p a g' p') (h : p'.tight = true) :
    p.tight = true ∨ a = .call .sleepTight := by
  cases hmove with
  | sleepTight => exact Or.inr rfl
  | pass | lockSleep | wait | relock => exact Or.inl h
  | unlockWake join => cases join <;> cases h
  | setFlag join => cases join <;> cases h
  | _ => cases h

/-- A pending wake-up stays pending until it has woken everybody. -/
theorem Moves.waking (hmove : Moves t g p a g' p') (h : p.waking = true) :
    p'.waking = true ∨ g'.condition.waiters = ∅ := by
  cases hmove with
  | lockWake => exact Or.inl rfl
  | notify => exact Or.inr rfl
  | _ => cases h

/-- `join` is called behind the wake-up. -/
theorem Moves.join_cases (hmove : Moves t g p a g' p') (h : p' = .join) :
    p = .unlockWake true ∧ g'.condition = g.condition := by
  cases hmove with
  | unlockWake join =>
      cases join with
      | true => exact ⟨rfl, rfl⟩
      | false => cases h
  | setFlag join => cases join <;> cases h
  | _ => cases h

theorem Moves.asleep_cases (hmove : Moves t g p a g' p') (h : p' = .asleep true) :
    p = .wait true ∧ a = .next := by
  cases hmove with
  | wait tight =>
      obtain rfl : tight = true := by simpa using h
      exact ⟨rfl, rfl⟩
  | unlockWake join => cases join <;> cases h
  | setFlag join => cases join <;> cases h
  | _ => cases h

theorem Moves.joinable (hmove : Moves t g p a g' p') (h : g'.joinable = true) :
    g.joinable = true := by
  cases hmove with
  | turnBack | wait | leave => rwa [recordIf_joinable] at h
  | detach | join => cases h
  | _ => exact h

/-! ## The protocol -/

/-- A call entered before termination returns behind a wake-up or the termination, and one
entered after termination does not wait. -/
def Lawful (past : List Event) : Event → Prop
  | .returned => .terminated ∈ past ∨ .wokeUp ∈ since .entered past
  | .waited => .terminated ∉ upTo .entered past
  | _ => True

/-- Before termination no more calls have returned than wake-ups were made. -/
def Counted (log : List Event) : Prop :=
  ∀ past future, log = past ++ future → .terminated ∉ past →
    past.count .returned ≤ past.count .wokeUp

/-- A return answers an entry that no other return has answered. -/
def Nested (past : List Event) (event : Event) : Prop :=
  event = .returned → .returned ∉ since .entered past

/-- Every return before termination uses up a wake-up of its own call. -/
theorem returns_le_wakeUps {log : List Event} (hlawful : AtEach Lawful log)
    (hnested : AtEach Nested log) (hlog : .terminated ∉ log) :
    log.count .returned ≤ log.count .wokeUp ∧
      (.returned ∉ since .entered log → .wokeUp ∈ since .entered log →
        log.count .returned < log.count .wokeUp) := by
  induction log using List.reverseRecOn with
  | nil => simp
  | append_singleton log event ih =>
      rw [atEach_concat] at hlawful hnested
      obtain ⟨hle, hlt⟩ := ih hlawful.1 hnested.1 fun h => hlog (List.mem_append_left _ h)
      have hbefore : .terminated ∉ log := fun h => hlog (List.mem_append_left _ h)
      cases event with
      | entered => simpa using hle
      | waited =>
          rw [since_concat_of_ne (by decide)]
          simpa using ⟨hle, hlt⟩
      | returned =>
          have hwoken := hlawful.2.resolve_left hbefore
          have hless := hlt (hnested.2 rfl) hwoken
          rw [since_concat_of_ne (by decide)]
          simpa using hless
      | wokeUp =>
          simp only [List.count_append, List.count_singleton_self, List.count_singleton]
          exact ⟨Nat.le_succ_of_le hle, fun _ _ => Nat.lt_succ_of_le hle⟩
      | terminated => simp at hlog

theorem counted_of_lawful {log : List Event} (hlawful : AtEach Lawful log)
    (hnested : AtEach Nested log) : Counted log := by
  intro past future hlog hpast
  refine (returns_le_wakeUps ?_ ?_ hpast).1
  · rw [hlog] at hlawful
    exact hlawful.front
  · rw [hlog] at hnested
    exact hnested.front

/-- The law is kept by everything but a return at the guard and a wait. -/
theorem Moves.lawful (hmove : Moves t g p a g' p')
    (hflagged : g.isTerminated = true ↔ .terminated ∈ g.log)
    (hpassed : p.sleeping = true → g.isTerminated = true) :
    AtEach Lawful g'.log ↔ AtEach Lawful g.log ∧
      (p = .guard true → a = .next → g.isTerminated = false → .wokeUp ∈ since .entered g.log) ∧
      (p = .wait true → a = .next → .terminated ∉ upTo .entered g.log) := by
  cases hmove with
  | sleepTight | notify | setFlag => simp [record, atEach_concat, Lawful]
  | turnBack hflag tight =>
      have hbefore : .terminated ∉ g.log := by rw [← hflagged, hflag]; simp
      cases tight with
      | true => simp [recordIf_log, atEach_concat, Lawful, hflag, hbefore]
      | false => simp [recordIf_log]
  | pass hflag => simp [hflag]
  | wait tight => cases tight <;> simp [recordIf_log, atEach_concat, Lawful]
  | leave tight =>
      have hbefore := hflagged.mp (hpassed rfl)
      cases tight <;> simp [recordIf_log, atEach_concat, Lawful, hbefore]
  | _ => simp

/-- Returns answer entries as long as threads in a call have not returned from it. -/
theorem Moves.nested (hmove : Moves t g p a g' p')
    (h : p.tight = true → .returned ∉ since .entered g.log) (hnested : AtEach Nested g.log) :
    AtEach Nested g'.log ∧ (p'.tight = true → .returned ∉ since .entered g'.log) := by
  cases hmove with
  | sleepTight => exact ⟨by simp [record, atEach_concat, hnested, Nested], by simp [record]⟩
  | turnBack _ tight | leave tight =>
      refine ⟨?_, fun htight => nomatch htight⟩
      cases tight with
      | true => simpa [recordIf_log, atEach_concat, hnested, Nested] using h rfl
      | false => simpa [recordIf_log] using hnested
  | wait tight =>
      cases tight with
      | true =>
          refine ⟨by simp [recordIf_log, atEach_concat, hnested, Nested], fun _ => ?_⟩
          rw [recordIf_log, if_pos rfl, since_concat_of_ne (by decide)]
          simpa using h rfl
      | false => exact ⟨by simpa [recordIf_log] using hnested, fun htight => nomatch htight⟩
  | notify => exact ⟨by simp [record, atEach_concat, hnested, Nested], fun htight => nomatch htight⟩
  | setFlag join =>
      refine ⟨by simp [record, atEach_concat, hnested, Nested], ?_⟩
      cases join <;> exact fun htight => nomatch htight
  | unlockWake join =>
      refine ⟨hnested, ?_⟩
      cases join <;> exact fun htight => nomatch htight
  | pass | lockSleep | relock => exact ⟨hnested, h⟩
  | _ => exact ⟨hnested, fun htight => nomatch htight⟩

/-- Other threads leave what has returned alone. -/
theorem Moves.nested_other (hmove : Moves t g p a g' p') (htight : p.tight = false)
    (hcall : a ≠ .call .sleepTight) (h : .returned ∉ since .entered g.log) :
    .returned ∉ since .entered g'.log := by
  cases hmove with
  | sleepTight => exact absurd rfl hcall
  | turnBack _ tight | wait tight | leave tight =>
      obtain rfl : tight = false := htight
      exact h
  | notify | setFlag =>
      simp only [record]
      rw [since_concat_of_ne (by decide)]
      simpa using h
  | _ => exact h

end

/-! ## The body and its callers -/

/-- The thread that runs `on_execute_`, and the others. -/
inductive Party (κ : Type*)
  | body
  | caller (k : κ)
  deriving DecidableEq

def Call.sleeps : Call → Bool
  | .sleep | .sleepTight => true
  | _ => false

section

variable {κ : Type*}

/-- The body sleeps and returns; the others wake and end it. -/
def Party.permits : Party κ → Action → Bool
  | .body, .call call => call.sleeps
  | .caller _, .call call => !call.sleeps
  | .caller _, .finish => false
  | _, _ => true

variable [DecidableEq κ]

variable (κ) in
def program : Program (Party κ) (SimpleThread (Party κ)) Point Action where
  shared := {}
  points := fun _ => .idle
  act t g p a := if t.permits a = true then act t g p a else none

variable {inputs : List (Party κ × Action)}
  {s s' : Threads (Party κ) (SimpleThread (Party κ)) Point} {t : Party κ} {a : Action}

theorem step_cases (hstep : (program κ).machine.step s (t, a) = some s') :
    ∃ g p, t.permits a = true ∧ Moves t s.shared (s.points t) a g p ∧
      s' = ⟨g, Function.update s.points t p⟩ := by
  obtain ⟨g, p, hact, rfl⟩ := Program.step_eq_some.mp hstep
  simp only [program, Option.ite_none_right_eq_some] at hact
  exact ⟨g, p, hact.1, act_moves hact.2, rfl⟩

/-- What holds of the thread and all points. -/
structure Inv (g : SimpleThread (Party κ)) (points : Party κ → Point) : Prop where
  guards : Guards g.mutex Point.locked points
  sleeps : Sleeps g.condition Point.isAsleep points
  quiet : ∀ t join, points t = .unlockWake join → g.condition.waiters = ∅
  flagged : g.isTerminated = true ↔ .terminated ∈ g.log
  passed : ∀ t, (points t).sleeping = true → g.isTerminated = true
  callers : ∀ k, (points (.caller k)).tight = false
  nested : AtEach Nested g.log
  answered : (points .body).tight = true → .returned ∉ since .entered g.log

omit [DecidableEq κ] in
theorem not_sleepTight_of_permits {k : κ} (hpermits : (Party.caller k).permits a = true) :
    a ≠ .call .sleepTight := by
  rintro rfl
  cases hpermits

theorem Inv.moves {g g' : SimpleThread (Party κ)} {points : Party κ → Point} {p' : Point}
    (h : Inv g points) (hpermits : t.permits a = true) (hmove : Moves t g (points t) a g' p') :
    Inv g' (Function.update points t p') where
  guards := hmove.guards rfl h.guards
  sleeps := hmove.sleeps rfl h.sleeps
  quiet := hmove.quiet rfl h.guards h.quiet
  flagged := hmove.flagged h.flagged
  passed := hmove.passed h.passed rfl
  callers := by
    intro k
    apply at_update (P := (Point.tight · = false))
    · rintro rfl
      rw [Bool.eq_false_iff]
      intro htight
      rcases hmove.tight htight with hbefore | hcall
      · rw [h.callers k] at hbefore
        cases hbefore
      · exact not_sleepTight_of_permits hpermits hcall
    · exact fun _ => h.callers k
  nested := by
    refine (hmove.nested ?_ h.nested).1
    intro htight
    cases t with
    | body => exact h.answered htight
    | caller k =>
        rw [h.callers k] at htight
        cases htight
  answered := by
    cases t with
    | body =>
        rw [Function.update_self]
        exact (hmove.nested h.answered h.nested).2
    | caller k =>
        rw [Function.update_of_ne (by simp)]
        intro htight
        exact hmove.nested_other (h.callers k) (not_sleepTight_of_permits hpermits)
          (h.answered htight)

omit [DecidableEq κ] in
theorem Inv.eq_body {g : SimpleThread (Party κ)} {points : Party κ → Point} (h : Inv g points)
    (ht : (points t).tight = true) : t = .body := by
  cases t with
  | body => rfl
  | caller k =>
      rw [h.callers k] at ht
      cases ht

omit [DecidableEq κ] in
theorem inv_start : Inv ({} : SimpleThread (Party κ)) fun _ => .idle where
  guards := by
    intro t
    simp [Point.locked]
  sleeps := nofun
  quiet := nofun
  flagged := by simp
  passed := nofun
  callers _ := rfl
  nested := atEach_nil _
  answered := nofun

theorem inv_run (hrun : (program κ).machine.run inputs = some s) : Inv s.shared s.points := by
  refine Machine.invariant (I := fun s => Inv s.shared s.points) inv_start ?_ hrun
  · rintro s ⟨t, a⟩ s' h hstep
    obtain ⟨g, p, hpermits, hmove, rfl⟩ := step_cases hstep
    exact h.moves hpermits hmove

/-- Some call of `terminateAndWait` waits for the body to return. -/
def Joining (s : Threads (Party κ) (SimpleThread (Party κ)) Point) : Prop :=
  s.shared.joinable = true ∧ ∃ k, s.points (.caller k) = .join

/-- A wake-up has been called and has not notified yet. -/
def WakeUpPending (s : Threads (Party κ) (SimpleThread (Party κ)) Point) : Prop :=
  ∃ u, (s.points u).waking = true

/-- The body sleeps tight, somebody waits for it to return, and nobody is about to wake it. -/
def JoinsAsleep (s : Threads (Party κ) (SimpleThread (Party κ)) Point) : Prop :=
  Joining s ∧ (s.points .body = .asleep true ∧ .body ∈ s.shared.condition.waiters) ∧
    ¬ WakeUpPending s

/-- What the sleep and wake protocol asks of a state and what led to it. -/
structure Protocol (s : Threads (Party κ) (SimpleThread (Party κ)) Point) : Prop where
  lawful : AtEach Lawful s.shared.log
  counted : Counted s.shared.log
  joins : ¬ JoinsAsleep s

/-- A step on which the body neither turns back at the guard of `sleepTight` unwoken, nor
starts to wait in a call entered after termination, nor while it is waited for and no
wake-up is pending. -/
structure InTime (s : Threads (Party κ) (SimpleThread (Party κ)) Point) (i : Party κ × Action) :
    Prop where
  returns : i = (.body, .next) → s.points .body = .guard true → s.shared.isTerminated = false →
    .wokeUp ∈ since .entered s.shared.log
  waits : i = (.body, .next) → s.points .body = .wait true →
    .terminated ∉ upTo .entered s.shared.log ∧ (Joining s → WakeUpPending s)

/-- Steps of other threads, and of the body outside its wait, leave nobody asleep and
waited for. -/
theorem joinsAsleep_of_step (h : Inv s.shared s.points)
    (hstep : (program κ).machine.step s (t, a) = some s') (hafter : JoinsAsleep s') :
    JoinsAsleep s ∨
      t = .body ∧ a = .next ∧ s.points .body = .wait true ∧ Joining s ∧ ¬ WakeUpPending s := by
  obtain ⟨g, p, _, hmove, rfl⟩ := step_cases hstep
  obtain ⟨⟨hjoinable, k, hk⟩, ⟨hbody, hwaiter⟩, hpending⟩ := hafter
  simp only at hjoinable hk hbody hwaiter
  have hpending' : ¬ WakeUpPending s := by
    rintro ⟨u, hu⟩
    rcases eq_or_ne u t with rfl | hne
    · rcases hmove.waking hu with hwaking | hempty
      · exact hpending ⟨u, by simpa using hwaking⟩
      · rw [hempty] at hwaiter
        simp at hwaiter
    · exact hpending ⟨u, by simpa [hne] using hu⟩
  -- whoever joins has notified, and with the mutex kept anybody else asleep until then
  have hjoin : s.points (.caller k) = .join := by
    rcases eq_or_ne (Party.caller k) t with rfl | hne
    · rw [Function.update_self] at hk
      obtain ⟨hunlock, hcondition⟩ := hmove.join_cases hk
      rw [hcondition, h.quiet _ true hunlock] at hwaiter
      simp at hwaiter
    · rwa [Function.update_of_ne hne] at hk
  have hjoining : Joining s := ⟨hmove.joinable hjoinable, k, hjoin⟩
  rcases eq_or_ne Party.body t with rfl | hne
  · rw [Function.update_self] at hbody
    obtain ⟨hwait, rfl⟩ := hmove.asleep_cases hbody
    exact Or.inr ⟨rfl, rfl, hwait, hjoining, hpending'⟩
  · rw [Function.update_of_ne hne] at hbody
    have hwaiter' := (hmove.waiters hwaiter).resolve_right fun hbodyWaits => hne hbodyWaits.1
    exact Or.inl ⟨hjoining, ⟨hbody, hwaiter'⟩, hpending'⟩

/-- A body that starts to wait then is asleep and waited for. -/
theorem joinsAsleep_of_wait (hwait : s.points .body = .wait true) (hjoining : Joining s)
    (hpending : ¬ WakeUpPending s) {g : SimpleThread (Party κ)} {p : Point}
    (hmove : Moves .body s.shared (s.points .body) .next g p) :
    JoinsAsleep ⟨g, Function.update s.points .body p⟩ := by
  rw [hwait] at hmove
  obtain ⟨hjoinable, k, hk⟩ := hjoining
  cases hmove with
  | wait =>
      refine ⟨⟨hjoinable, k, ?_⟩, ⟨?_, ?_⟩, ?_⟩
      · simpa using hk
      · simp
      · exact Finset.mem_insert_self _ _
      · rintro ⟨u, hu⟩
        rcases eq_or_ne u .body with rfl | hne
        · simp [Point.waking] at hu
        · exact hpending ⟨u, by simpa [hne] using hu⟩

/-- Sleeping, waking and ending follow the protocol in exactly the runs whose steps are all
in time. -/
theorem protocol_iff (hrun : (program κ).machine.run inputs = some s) :
    (program κ).machine.Throughout Protocol inputs ↔ (program κ).machine.Always InTime inputs := by
  refine Machine.throughout_iff_always ?_ ?_ hrun
  · refine ⟨atEach_nil _, counted_of_lawful (atEach_nil _) (atEach_nil _), ?_⟩
    rintro ⟨⟨_, k, hk⟩, _⟩
    cases hk
  · rintro inputs s ⟨t, a⟩ s' hs hprotocol _ hstep
    have hinv := inv_run hs
    have hinv' := inv_run (Machine.run_concat_eq_some.mpr ⟨s, hs, hstep⟩)
    have hbefore := hprotocol.last hs
    have hjoins := joinsAsleep_of_step hinv hstep
    obtain ⟨g, p, _, hmove, rfl⟩ := step_cases hstep
    have hlawful := hmove.lawful hinv.flagged (hinv.passed t)
    constructor
    · rintro hafter
      obtain ⟨_, hreturns, hwaits⟩ := hlawful.mp hafter.lawful
      refine ⟨?_, ?_⟩
      · rintro hi hguard hflag
        obtain ⟨rfl, rfl⟩ := Prod.mk.inj hi
        exact hreturns hguard rfl hflag
      · rintro hi hwait
        obtain ⟨rfl, rfl⟩ := Prod.mk.inj hi
        refine ⟨hwaits hwait rfl, ?_⟩
        intro hjoining
        by_contra hpending
        exact hafter.joins (joinsAsleep_of_wait hwait hjoining hpending hmove)
    · intro hintime
      have hlawful' : AtEach Lawful g.log := by
        refine hlawful.mpr ⟨hbefore.lawful, ?_, ?_⟩
        · rintro hguard rfl hflag
          obtain rfl := hinv.eq_body (by rw [hguard]; rfl)
          exact hintime.returns rfl hguard hflag
        · rintro hwait rfl
          obtain rfl := hinv.eq_body (by rw [hwait]; rfl)
          exact (hintime.waits rfl hwait).1
      refine ⟨hlawful', counted_of_lawful hlawful' hinv'.nested, ?_⟩
      intro hafter
      rcases hjoins hafter with hjoins | ⟨rfl, rfl, hwait, hjoining, hpending⟩
      · exact hbefore.joins hjoins
      · exact hpending ((hintime.waits rfl hwait).2 hjoining)

/-- The body calls `sleepTight` and nobody wakes it. -/
def restless : List (Party ℕ × Action) := [(.body, .call .sleepTight), (.body, .next)]

/-- `terminateAndWait` has woken everybody when the body goes to sleep. -/
def hanging : List (Party ℕ × Action) :=
  [(.caller 0, .call .terminateAndWait), (.caller 0, .next), (.caller 0, .next),
    (.caller 0, .next), (.caller 0, .next),
    (.body, .call .sleepTight), (.body, .next), (.body, .next), (.body, .next)]

theorem not_protocol :
    ¬ (program ℕ).machine.Throughout Protocol restless ∧
      ¬ (program ℕ).machine.Throughout Protocol hanging := by
  constructor
  · intro h
    have hcounted := (h.last (show (program ℕ).machine.run restless = some _ from rfl)).counted
    have hcount := hcounted [.entered, .returned] [] rfl (by decide)
    exact absurd hcount (by decide)
  · intro h
    apply (h.last (show (program ℕ).machine.run hanging = some _ from rfl)).joins
    refine ⟨⟨rfl, 0, rfl⟩, ⟨rfl, Finset.mem_insert_self _ _⟩, ?_⟩
    rintro ⟨u, hu⟩
    cases u with
    | body => cases hu
    | caller k =>
        cases k with
        | zero => cases hu
        | succ k => cases hu

theorem protocol_iff_hanging :
    (program ℕ).machine.Throughout Protocol hanging ↔ (program ℕ).machine.Always InTime hanging :=
  protocol_iff (show (program ℕ).machine.run hanging = some _ from rfl)

end

end SimpleThread

end RyuLib
