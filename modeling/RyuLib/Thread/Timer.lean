import RyuLib.Foundations.Accumulator
import RyuLib.Foundations.Machine
import RyuLib.Foundations.Wrapping
import RyuLib.Socket.Packet

/-!
# Timer

A timer lets its scheduler repeat a handler that adds up how far the clock has gone, calls
`on_timer_` when that is more than the interval, and then takes the interval off.  The count
is in microseconds, whatever its name says.

* `Timer.no_drift`: nothing of the time that has passed since a start is lost, and the number
  of calls does not depend on when the clock was read.
* `Timer.rearms_iff`: `on_timer_` may itself start the timer anew.  The handler then takes the
  new interval off a count that has just been set to 0, so that only an interval of 0 is kept.
  The next call is late by the interval (`Timer.rearmed_late`).

A start or a stop by a client and a repetition of the handler are one step each.  The clock
may be set back, and a step of it counts in whole microseconds; a conversion to an `int` wraps.
-/

namespace RyuLib

open Foundations

/-- The values of an `int`. -/
abbrev IntValue := {n : ℤ // -2 ^ 31 ≤ n ∧ n < 2 ^ 31}

def IntValue.ofInt (n : ℤ) : IntValue :=
  ⟨toInt n, by exact_mod_cast neg_le_wrap (by norm_num : 0 < 2 ^ 31) n,
    by exact_mod_cast wrap_lt (by norm_num : 0 < 2 ^ 31) n⟩

namespace IntValue

@[simp] theorem coe_ofInt (n : ℤ) : (ofInt n : ℤ) = toInt n := rfl

@[simp] theorem toInt_coe (n : IntValue) : toInt n = n := toInt_of_bounds n.2.1 n.2.2

theorem toInt_neg_eq_zero_iff (n : IntValue) : toInt (0 - n) = 0 ↔ (n : ℤ) = 0 := by
  obtain ⟨n, hlow, hhigh⟩ := n
  dsimp only
  constructor
  · intro hzero
    have hdvd : (2 ^ 32 : ℤ) ∣ 0 - n := by exact_mod_cast Int.dvd_of_bmod_eq_zero hzero
    omega
  · intro hzero
    rw [hzero]
    rfl

end IntValue

/-- `started` is the one of the scheduler, and `onTimer` says that `on_timer_` is set. -/
structure Timer where
  interval : IntValue := .ofInt 0
  countMs : IntValue := .ofInt 0
  oldTick : ℤ := 0
  started : Bool := false
  onTimer : Bool := false

namespace Timer

/-- What `on_timer_` does with the timer; `now` is what a start reads from the clock. -/
inductive Call
  | start (interval : IntValue) (now : ℤ)
  | stop

def start (t : Timer) (interval : IntValue) (now : ℤ) : Timer :=
  { t with interval := interval, countMs := .ofInt 0, oldTick := now, started := true }

def stop (t : Timer) : Timer := { t with started := false }

def call (t : Timer) : Call → Timer
  | .start interval now => t.start interval now
  | .stop => t.stop

/-- The first half of the handler, up to the test of the count; the clock of the system has
`per` ticks in a microsecond. -/
def count (per : ℕ) (t : Timer) (newTick : ℤ) : Timer :=
  { t with
    countMs := if t.oldTick < newTick then
        .ofInt (t.countMs + (newTick - t.oldTick).tdiv per)
      else t.countMs
    oldTick := newTick }

/-- The handler; `calls` is what `on_timer_` does if it is set. -/
def onRepeat (per : ℕ) (t : Timer) (newTick : ℤ) (calls : List Call) : Timer :=
  let t := t.count per newTick
  if (t.interval : ℤ) < t.countMs then
    let t := if t.onTimer then calls.foldl call t else t
    { t with countMs := .ofInt (t.countMs - t.interval) }
  else t

/-- The count is above the interval, at a reading of the clock. -/
def Fires (per : ℕ) (t : Timer) (newTick : ℤ) : Prop :=
  ((t.count per newTick).interval : ℤ) < (t.count per newTick).countMs

instance (per : ℕ) (t : Timer) (newTick : ℤ) : Decidable (Fires per t newTick) :=
  inferInstanceAs (Decidable (_ < _))

/-- The interval of the last start among the calls. -/
def restart (calls : List Call) : Option IntValue :=
  calls.foldl
    (fun last c => match c with
      | .start interval _ => some interval
      | .stop => last)
    none

/-- `on_timer_` is called and starts the timer anew, at last with the interval. -/
def Restarts (per : ℕ) (t : Timer) (newTick : ℤ) (calls : List Call) (interval : IntValue) :
    Prop :=
  t.onTimer = true ∧ t.Fires per newTick ∧ restart calls = some interval

/-- The whole microseconds that the clock has gone ahead from one reading to the next. -/
def clockStep (per : ℕ) (oldTick newTick : ℤ) : ℤ :=
  if oldTick < newTick then (newTick - oldTick).tdiv per else 0

/-- `repeating` says that the scheduler has seen `started_` and is about to call the handler.
`firings` are the calls of `on_timer_` since the last start by a client, set or not, and
`pending` what the clock has gone ahead since the last call of `on_timer_`, if that has
started the timer anew. -/
structure State extends Timer where
  repeating : Bool := false
  firings : ℕ := 0
  pending : Option ℤ := none

inductive Input
  | start (interval : IntValue) (now : ℤ)
  | stop
  | setOnTimer (set : Bool)
  | testStarted
  | onRepeat (newTick : ℤ) (calls : List Call)

/-- `pending` after a repetition. -/
def stillPending (per : ℕ) (s : State) (newTick : ℤ) (calls : List Call) : Option ℤ :=
  if s.Fires per newTick then
    if s.onTimer then (restart calls).map fun _ => 0 else none
  else s.pending.map (· + clockStep per s.oldTick newTick)

def step (per : ℕ) (s : State) : Input → Option State
  | .start interval now =>
      some { s with toTimer := s.toTimer.start interval now, firings := 0, pending := none }
  | .stop => some { s with toTimer := s.toTimer.stop }
  | .setOnTimer set => some { s with onTimer := set }
  | .testStarted => if s.repeating then none else some { s with repeating := s.started }
  | .onRepeat newTick calls =>
      if s.repeating then
        some
          { toTimer := s.toTimer.onRepeat per newTick calls
            repeating := false
            firings := if s.Fires per newTick then s.firings + 1 else s.firings
            pending := stillPending per s newTick calls }
      else none

def machine (per : ℕ) : Machine State Input where
  init := {}
  step := step per

/-! ## One repetition -/

section

variable {per : ℕ} {t : Timer} {newTick : ℤ} {calls : List Call}

theorem clockStep_nonneg (oldTick newTick : ℤ) : 0 ≤ clockStep per oldTick newTick := by
  unfold clockStep
  split
  · apply Int.tdiv_nonneg
    · omega
    · exact Nat.cast_nonneg per
  · exact le_refl 0

theorem count_countMs (t : Timer) (newTick : ℤ) :
    ((t.count per newTick).countMs : ℤ) = toInt (t.countMs + clockStep per t.oldTick newTick) := by
  unfold count clockStep
  dsimp only
  split
  · rfl
  · rw [add_zero, IntValue.toInt_coe]

theorem fires_iff : t.Fires per newTick ↔
    (t.interval : ℤ) < toInt (t.countMs + clockStep per t.oldTick newTick) := by
  rw [← count_countMs]
  rfl

theorem onRepeat_of_not_fires (hfires : ¬ t.Fires per newTick) :
    t.onRepeat per newTick calls = t.count per newTick := if_neg hfires

theorem onRepeat_of_fires (hfires : t.Fires per newTick) :
    t.onRepeat per newTick calls =
      let called := if t.onTimer then calls.foldl call (t.count per newTick)
        else t.count per newTick
      { called with countMs := .ofInt (called.countMs - called.interval) } := if_pos hfires

/-- Calls that only stop the timer. -/
theorem foldl_call_of_stops (hstops : ∀ c ∈ calls, c = .stop) :
    ∃ started, calls.foldl call t = { t with started := started } := by
  induction calls generalizing t with
  | nil => exact ⟨t.started, rfl⟩
  | cons c calls ih =>
      obtain rfl := hstops c List.mem_cons_self
      exact ih fun c' hc' => hstops c' (List.mem_cons_of_mem _ hc')

theorem restart_concat (calls : List Call) (c : Call) :
    restart (calls ++ [c]) = match c with
      | .start interval _ => some interval
      | .stop => restart calls := List.foldl_concat _ _ _ _

/-- The last start is the one that counts. -/
theorem foldl_call_of_restart {interval : IntValue} (hrestart : restart calls = some interval) :
    (calls.foldl call t).interval = interval ∧ (calls.foldl call t).countMs = .ofInt 0 := by
  induction calls using List.reverseRecOn with
  | nil => exact absurd hrestart (by simp [restart])
  | append_singleton calls c ih =>
      rw [restart_concat] at hrestart
      rw [List.foldl_concat]
      cases c with
      | start interval' now => exact ⟨Option.some.inj hrestart, rfl⟩
      | stop => exact ih hrestart

/-- The interval of a start by `on_timer_` is taken off the count it has set to 0. -/
theorem countMs_of_restarts {interval : IntValue}
    (hrestarts : t.Restarts per newTick calls interval) :
    (t.onRepeat per newTick calls).interval = interval ∧
      ((t.onRepeat per newTick calls).countMs : ℤ) = toInt (0 - interval) := by
  obtain ⟨honTimer, hfires, hrestart⟩ := hrestarts
  obtain ⟨hinterval, hcount⟩ :=
    foldl_call_of_restart (t := t.count per newTick) hrestart
  rw [onRepeat_of_fires hfires]
  dsimp only
  rw [if_pos honTimer, hinterval, hcount]
  exact ⟨rfl, rfl⟩

variable (per t newTick) in
/-- Without a start the interval stays, and is taken off if `on_timer_` is called. -/
theorem onRepeat_of_stops (hstops : ∀ c ∈ calls, c = .stop) :
    (t.onRepeat per newTick calls).interval = t.interval ∧
      (t.onRepeat per newTick calls).oldTick = newTick ∧
      ((t.onRepeat per newTick calls).countMs : ℤ) =
        if t.Fires per newTick then toInt ((t.count per newTick).countMs - t.interval)
        else (t.count per newTick).countMs := by
  by_cases hfires : t.Fires per newTick
  · obtain ⟨started, hcalls⟩ := foldl_call_of_stops (t := t.count per newTick) hstops
    rw [onRepeat_of_fires hfires, if_pos hfires, hcalls]
    dsimp only
    split
    · exact ⟨rfl, rfl, rfl⟩
    · exact ⟨rfl, rfl, rfl⟩
  · rw [onRepeat_of_not_fires hfires, if_neg hfires]
    exact ⟨rfl, rfl, rfl⟩

end

/-! ## The time since a start -/

/-- The steps of the clock over all readings. -/
def steps (per : ℕ) (oldTick : ℤ) : List ℤ → List ℤ
  | [] => []
  | newTick :: readings => clockStep per oldTick newTick :: steps per newTick readings

/-- The readings of the clock by the handler. -/
def readings (inputs : List Input) : List ℤ :=
  inputs.filterMap fun
    | .onRepeat newTick _ => some newTick
    | _ => none

/-- What a step does: a start, a repetition, or nothing to the count. -/
inductive Moves (per : ℕ) (s : State) : Input → State → Prop
  | start (interval : IntValue) (now : ℤ) :
      Moves per s (.start interval now)
        { s with toTimer := s.toTimer.start interval now, firings := 0, pending := none }
  | onRepeat {s' : State} {newTick : ℤ} {calls : List Call}
      (htimer : s'.toTimer = s.toTimer.onRepeat per newTick calls)
      (hfirings : s'.firings = if s.Fires per newTick then s.firings + 1 else s.firings)
      (hpending : s'.pending = stillPending per s newTick calls) :
      Moves per s (.onRepeat newTick calls) s'
  | keeps {s' : State} {i : Input} (hreadings : readings [i] = [])
      (hinterval : s'.interval = s.interval) (holdTick : s'.oldTick = s.oldTick)
      (hcountMs : s'.countMs = s.countMs) (hfirings : s'.firings = s.firings)
      (hpending : s'.pending = s.pending) : Moves per s i s'

theorem moves_of_step {per : ℕ} {s s' : State} {i : Input} (hstep : step per s i = some s') :
    Moves per s i s' := by
  cases i with
  | start interval now =>
      obtain rfl := Option.some.inj hstep
      exact .start interval now
  | stop =>
      obtain rfl := Option.some.inj hstep
      exact .keeps rfl rfl rfl rfl rfl rfl
  | setOnTimer set =>
      obtain rfl := Option.some.inj hstep
      exact .keeps rfl rfl rfl rfl rfl rfl
  | testStarted =>
      rw [step] at hstep
      split at hstep
      · contradiction
      · obtain rfl := Option.some.inj hstep
        exact .keeps rfl rfl rfl rfl rfl rfl
  | onRepeat newTick calls =>
      rw [step] at hstep
      split at hstep
      · obtain rfl := Option.some.inj hstep
        exact .onRepeat rfl rfl rfl
      · contradiction

/-- A start, by a client or by `on_timer_`. -/
def Input.Starts : Input → Prop
  | .start _ _ => True
  | .onRepeat _ calls => ∃ interval now, Call.start interval now ∈ calls
  | _ => False

section

variable {per : ℕ} {interval : IntValue} {now : ℤ}

theorem steps_concat (oldTick : ℤ) (readings : List ℤ) (newTick : ℤ) :
    steps per oldTick (readings ++ [newTick]) =
      steps per oldTick readings ++ [clockStep per (readings.getLastD oldTick) newTick] := by
  induction readings generalizing oldTick with
  | nil => rfl
  | cons tick readings ih =>
      rw [List.cons_append, steps, ih, steps, List.getLastD_cons, List.cons_append]

theorem steps_nonneg {oldTick : ℤ} {readings : List ℤ} :
    ∀ d ∈ steps per oldTick readings, 0 ≤ d := by
  induction readings generalizing oldTick with
  | nil => simp [steps]
  | cons newTick readings ih =>
      intro d hd
      rcases List.mem_cons.mp hd with rfl | hd
      · exact clockStep_nonneg oldTick newTick
      · exact ih d hd

theorem stops_of_not_starts {newTick : ℤ} {calls : List Call}
    (hkept : ¬ (Input.onRepeat newTick calls).Starts) : ∀ c ∈ calls, c = .stop := by
  intro c hc
  cases c with
  | start interval now => exact absurd ⟨interval, now, hc⟩ hkept
  | stop => rfl

/-- The time since the start, in microseconds. -/
def elapsed (per : ℕ) (now : ℤ) (after : List Input) : ℤ := (steps per now (readings after)).sum

/-- An accumulator of the clock steps since the start. -/
def accumulator (per : ℕ) (interval : IntValue) (now : ℤ) (after : List Input) : Accumulator :=
  .total interval (steps per now (readings after))

/-- The timer holds, and has given out, what the accumulator has. -/
structure Accumulates (per : ℕ) (interval : IntValue) (now : ℤ) (after : List Input) (s : State) :
    Prop where
  sameInterval : s.interval = interval
  oldTick : s.oldTick = (readings after).getLastD now
  countMs : (s.countMs : ℤ) = (accumulator per interval now after).rest
  firings : s.firings = (accumulator per interval now after).taken

theorem steps_onRepeat (now : ℤ) (after : List Input) (newTick : ℤ) (calls : List Call) :
    steps per now (readings (after ++ [.onRepeat newTick calls])) =
      steps per now (readings after) ++
        [clockStep per ((readings after).getLastD now) newTick] := by
  rw [readings, List.filterMap_append]
  exact steps_concat now (readings after) newTick

/-- The next time the handler is called. -/
theorem accumulator_onRepeat (per : ℕ) (interval : IntValue) (now : ℤ) (after : List Input)
    (newTick : ℤ) (calls : List Call) :
    accumulator per interval now (after ++ [.onRepeat newTick calls]) =
      (accumulator per interval now after).add interval
        (clockStep per ((readings after).getLastD now) newTick) := by
  unfold accumulator
  rw [steps_onRepeat, Accumulator.total_concat]

/-- A count that the time since the start bounds does not wrap. -/
theorem accumulates_count {after : List Input} {s : State} {newTick : ℤ} {calls : List Call}
    (hinterval : 0 ≤ (interval : ℤ)) (h : Accumulates per interval now after s)
    (hfits : elapsed per now (after ++ [.onRepeat newTick calls]) < 2 ^ 31) :
    toInt (s.countMs + clockStep per s.oldTick newTick) =
      (accumulator per interval now after).rest +
        clockStep per ((readings after).getLastD now) newTick := by
  have hrest : 0 ≤ (accumulator per interval now after).rest :=
    Accumulator.rest_nonneg steps_nonneg
  have hstep : 0 ≤ clockStep per ((readings after).getLastD now) newTick := clockStep_nonneg _ _
  have hgiven : 0 ≤ (interval : ℤ) * (accumulator per interval now after).taken :=
    mul_nonneg hinterval (Nat.cast_nonneg _)
  have hconserved : (interval : ℤ) * (accumulator per interval now after).taken +
      (accumulator per interval now after).rest = (steps per now (readings after)).sum :=
    Accumulator.total_conserved _
  rw [elapsed, steps_onRepeat, List.sum_append, List.sum_singleton] at hfits
  rw [h.countMs, h.oldTick]
  apply toInt_of_bounds
  · omega
  · omega

theorem accumulates_onRepeat {after : List Input} {s s' : State} {newTick : ℤ} {calls : List Call}
    (hinterval : 0 ≤ (interval : ℤ)) (h : Accumulates per interval now after s)
    (hstops : ∀ c ∈ calls, c = .stop)
    (hfits : elapsed per now (after ++ [.onRepeat newTick calls]) < 2 ^ 31)
    (htimer : s'.toTimer = s.toTimer.onRepeat per newTick calls)
    (hfirings : s'.firings = if s.Fires per newTick then s.firings + 1 else s.firings) :
    Accumulates per interval now (after ++ [.onRepeat newTick calls]) s' := by
  have hcount := accumulates_count hinterval h hfits
  have hfires : s.Fires per newTick ↔ (interval : ℤ) <
      (accumulator per interval now after).rest +
        clockStep per ((readings after).getLastD now) newTick := by
    rw [fires_iff, hcount, h.sameInterval]
  have hlast : (readings (after ++ [.onRepeat newTick calls])).getLastD now = newTick := by
    rw [readings, List.filterMap_append]
    exact List.getLastD_concat
  obtain ⟨hsame, holdTick, hcountMs⟩ := onRepeat_of_stops per s.toTimer newTick hstops
  rw [count_countMs, hcount, h.sameInterval] at hcountMs
  rw [← htimer] at hsame holdTick hcountMs
  have hadd := accumulator_onRepeat per interval now after newTick calls
  by_cases hfires' : s.Fires per newTick
  · have hlimit := hfires.mp hfires'
    rw [Accumulator.add, if_pos hlimit] at hadd
    rw [if_pos hfires'] at hcountMs hfirings
    refine ⟨hsame.trans h.sameInterval, holdTick.trans hlast.symm, ?_, ?_⟩
    · have hbound := (IntValue.ofInt (s.countMs + clockStep per s.oldTick newTick)).2.2
      rw [IntValue.coe_ofInt, hcount] at hbound
      rw [hcountMs, hadd]
      apply toInt_of_bounds
      · omega
      · omega
    · rw [hfirings, h.firings, hadd]
  · rw [Accumulator.add, if_neg (mt hfires.mpr hfires')] at hadd
    rw [if_neg hfires'] at hcountMs hfirings
    refine ⟨hsame.trans h.sameInterval, holdTick.trans hlast.symm, ?_, ?_⟩
    · rw [hcountMs, hadd]
    · rw [hfirings, h.firings, hadd]

theorem accumulates_step {after : List Input} {s s' : State} {i : Input}
    (hinterval : 0 ≤ (interval : ℤ)) (h : Accumulates per interval now after s)
    (hkept : ¬ i.Starts) (hfits : elapsed per now (after ++ [i]) < 2 ^ 31)
    (hmoves : Moves per s i s') : Accumulates per interval now (after ++ [i]) s' := by
  cases hmoves with
  | start interval' now' => exact absurd trivial hkept
  | onRepeat htimer hfirings hpending =>
      exact accumulates_onRepeat hinterval h (stops_of_not_starts hkept) hfits htimer hfirings
  | keeps hreadings hsame holdTick hcountMs hfirings hpending =>
      have hkept : readings (after ++ [i]) = readings after := by
        rw [readings, List.filterMap_append]
        exact (congrArg (readings after ++ ·) hreadings).trans (List.append_nil _)
      constructor
      · rw [hsame, h.sameInterval]
      · rw [holdTick, h.oldTick, hkept]
      · rw [hcountMs, h.countMs, accumulator, accumulator, hkept]
      · rw [hfirings, h.firings, accumulator, accumulator, hkept]

theorem elapsed_front (now : ℤ) (after : List Input) (i : Input) :
    elapsed per now after ≤ elapsed per now (after ++ [i]) := by
  cases i with
  | onRepeat newTick calls =>
      unfold elapsed
      rw [steps_onRepeat, List.sum_append, List.sum_singleton]
      exact le_add_of_nonneg_right (clockStep_nonneg _ _)
  | _ =>
      unfold elapsed readings
      rw [List.filterMap_append]
      exact le_of_eq (by rw [List.filterMap_cons]; simp)

/-- From a start on the timer does what the accumulator does. -/
theorem accumulates_of_run {before after : List Input} {s : State}
    (hinterval : 0 ≤ (interval : ℤ))
    (hrun : (machine per).run (before ++ .start interval now :: after) = some s)
    (hkept : ∀ i ∈ after, ¬ i.Starts) (hfits : elapsed per now after < 2 ^ 31) :
    Accumulates per interval now after s := by
  induction after using List.reverseRecOn generalizing s with
  | nil =>
      obtain ⟨s₀, _, hstep⟩ := Machine.run_concat_eq_some.mp hrun
      obtain rfl := Option.some.inj hstep
      exact ⟨rfl, rfl, rfl, rfl⟩
  | append_singleton after i ih =>
      rw [← List.cons_append, ← List.append_assoc] at hrun
      obtain ⟨s₁, hs₁, hstep⟩ := Machine.run_concat_eq_some.mp hrun
      have hbefore := ih hs₁ (fun j hj => hkept j (List.mem_append_left _ hj))
        ((elapsed_front now after i).trans_lt hfits)
      exact accumulates_step hinterval hbefore (hkept i (by simp)) hfits (moves_of_step hstep)

/-- For every interval above 0, every run up to the start, and every order of readings and
stops after it. -/
theorem no_drift {before after : List Input} {s : State} (hinterval : 0 < (interval : ℤ))
    (hrun : (machine per).run (before ++ .start interval now :: after) = some s)
    (hkept : ∀ i ∈ after, ¬ i.Starts) (hfits : elapsed per now after < 2 ^ 31) :
    (interval : ℤ) * s.firings + s.countMs = elapsed per now after ∧ 0 ≤ (s.countMs : ℤ) ∧
      ((∀ d ∈ steps per now (readings after), d ≤ interval) →
        (s.countMs : ℤ) ≤ interval ∧ (0 < elapsed per now after →
          (s.firings : ℤ) = ⌈(elapsed per now after : ℚ) / (interval : ℤ)⌉ - 1)) := by
  have h := accumulates_of_run hinterval.le hrun hkept hfits
  rw [h.firings, h.countMs]
  refine ⟨Accumulator.total_conserved _, Accumulator.rest_nonneg steps_nonneg, ?_⟩
  intro hsteps
  refine ⟨Accumulator.rest_le hinterval.le hsteps, ?_⟩
  intro hpos
  exact Accumulator.taken_eq_ceil hinterval steps_nonneg hsteps hpos

/-- Of 5 microseconds, the last of which was also set back, an interval of 2 is given out
twice. -/
theorem no_drift_two :
    let inputs : List Input :=
      [.start (.ofInt 3) 0, .testStarted, .onRepeat 4 [.stop], .start ⟨2, by decide⟩ 0,
        .testStarted, .onRepeat 2 [], .testStarted, .onRepeat 4 [], .testStarted, .onRepeat 3 [],
        .testStarted, .onRepeat 4 []]
    ∃ s, (machine 1).run inputs = some s ∧ 2 * (s.firings : ℤ) + s.countMs = 5 ∧
      (s.firings : ℤ) = ⌈(5 : ℚ) / 2⌉ - 1 := by
  intro inputs
  let after := inputs.drop 4
  have hrun : ∃ s, (machine 1).run (inputs.take 3 ++ .start ⟨2, by decide⟩ 0 :: after) = some s :=
    ⟨_, rfl⟩
  obtain ⟨s, hs⟩ := hrun
  have hkept : ∀ i ∈ after, ¬ i.Starts := by
    simp [after, inputs, Input.Starts]
  have hsteps : ∀ d ∈ steps 1 0 (readings after), d ≤ 2 := by decide
  obtain ⟨hconserved, _, hcalls⟩ := no_drift (by decide) hs hkept (by decide)
  have hfirings := (hcalls hsteps).2 (by decide)
  refine ⟨s, hs, hconserved, ?_⟩
  simpa [show elapsed 1 0 after = 5 by decide] using hfirings

/-- After a start by a client the first call comes as soon as more than the interval has
passed. -/
theorem start_on_time {before after : List Input} {s : State} (hinterval : 0 ≤ (interval : ℤ))
    (hrun : (machine per).run (before ++ .start interval now :: after) = some s)
    (hkept : ∀ i ∈ after, ¬ i.Starts) (hfits : elapsed per now after < 2 ^ 31) :
    s.firings = 0 ↔ elapsed per now after ≤ interval := by
  rw [(accumulates_of_run hinterval hrun hkept hfits).firings]
  exact Accumulator.taken_eq_zero_iff hinterval steps_nonneg

end

/-! ## Starts by the handler -/

/-- After a start by `on_timer_` nothing is counted yet, and until it is called again it is
called as soon as more than the interval has passed. -/
def Rearms (per : ℕ) (s : State) : Input → Prop
  | .onRepeat newTick calls =>
      (∀ passed, s.pending = some passed →
        (s.Fires per newTick ↔ (s.interval : ℤ) < passed + clockStep per s.oldTick newTick)) ∧
      ∀ interval, s.Restarts per newTick calls interval →
        ((s.onRepeat per newTick calls).countMs : ℤ) = 0
  | _ => True

/-- Every start by `on_timer_` has the interval 0, and until it is called again the clock does
not go so far ahead at once that an `int` is no longer above 0. -/
def RearmFits (per : ℕ) (s : State) : Input → Prop
  | .onRepeat newTick calls =>
      (s.pending ≠ none → 0 < clockStep per s.oldTick newTick →
        0 < toInt (clockStep per s.oldTick newTick)) ∧
      ∀ interval, s.Restarts per newTick calls interval → (interval : ℤ) = 0
  | _ => True

/-- While a call is pending that a start by `on_timer_` has asked for, nothing has been
counted, and nothing has to be. -/
def Idle (s : State) : Prop :=
  ∀ passed, s.pending = some passed →
    passed = 0 ∧ (s.interval : ℤ) = 0 ∧ (s.countMs : ℤ) = 0

section

variable {per : ℕ} {s s' : State}

/-- Idle, the timer calls `on_timer_` as soon as the clock goes ahead, if it sees that. -/
theorem fires_of_idle (per : ℕ) {passed : ℤ} (newTick : ℤ) (hidle : Idle s)
    (hpassed : s.pending = some passed) :
    (s.Fires per newTick ↔ 0 < toInt (clockStep per s.oldTick newTick)) ∧
      ((s.interval : ℤ) < passed + clockStep per s.oldTick newTick ↔
        0 < clockStep per s.oldTick newTick) := by
  obtain ⟨rfl, hinterval, hcount⟩ := hidle passed hpassed
  rw [fires_iff, hinterval, hcount, zero_add]
  exact ⟨Iff.rfl, Iff.rfl⟩

theorem rearms_iff_fits {i : Input} (hidle : Idle s) : Rearms per s i ↔ RearmFits per s i := by
  cases i with
  | onRepeat newTick calls =>
      apply and_congr
      · have hstep : 0 ≤ clockStep per s.oldTick newTick := clockStep_nonneg _ _
        constructor
        · intro honTime hpending hpos
          obtain ⟨passed, hpassed⟩ := Option.ne_none_iff_exists'.mp hpending
          obtain ⟨hfires, hmore⟩ := fires_of_idle per newTick hidle hpassed
          exact hfires.mp ((honTime passed hpassed).mpr (hmore.mpr hpos))
        · intro hfits passed hpassed
          obtain ⟨hfires, hmore⟩ := fires_of_idle per newTick hidle hpassed
          rw [hfires, hmore]
          constructor
          · intro hseen
            by_contra hnone
            rw [show clockStep per s.oldTick newTick = 0 by omega] at hseen
            exact absurd hseen (lt_irrefl 0)
          · exact hfits (by rw [hpassed]; exact Option.some_ne_none passed)
      · apply forall_congr'
        intro interval
        apply imp_congr_right
        intro hrestarts
        rw [(countMs_of_restarts hrestarts).2]
        exact IntValue.toInt_neg_eq_zero_iff interval
  | _ => exact Iff.rfl

/-- What is pending after a repetition was asked for in it, or is pending still. -/
theorem stillPending_cases {newTick passed : ℤ} {calls : List Call}
    (hpassed : stillPending per s newTick calls = some passed) :
    (∃ interval, s.Restarts per newTick calls interval ∧ passed = 0) ∨
      ¬ s.Fires per newTick ∧ ∃ before, s.pending = some before ∧
        passed = before + clockStep per s.oldTick newTick := by
  unfold stillPending at hpassed
  by_cases hfires : s.Fires per newTick
  · rw [if_pos hfires] at hpassed
    split at hpassed
    · rename_i honTimer
      obtain ⟨interval, hrestart, hzero⟩ := Option.map_eq_some_iff.mp hpassed
      exact Or.inl ⟨interval, ⟨honTimer, hfires, hrestart⟩, hzero.symm⟩
    · contradiction
  · rw [if_neg hfires] at hpassed
    obtain ⟨before, hbefore, hmore⟩ := Option.map_eq_some_iff.mp hpassed
    exact Or.inr ⟨hfires, before, hbefore, hmore.symm⟩

theorem idle_onRepeat {newTick : ℤ} {calls : List Call} (hidle : Idle s)
    (hfits : RearmFits per s (.onRepeat newTick calls))
    (htimer : s'.toTimer = s.toTimer.onRepeat per newTick calls)
    (hpending : s'.pending = stillPending per s newTick calls) : Idle s' := by
  intro passed hpassed
  rw [htimer]
  rcases stillPending_cases (hpending.symm.trans hpassed) with
    ⟨interval, hrestarts, rfl⟩ | ⟨hfires, before, hbefore, rfl⟩
  · obtain ⟨hinterval, hcount⟩ := countMs_of_restarts hrestarts
    have hzero := hfits.2 interval hrestarts
    rw [hinterval, hcount, hzero]
    exact ⟨rfl, rfl, rfl⟩
  · obtain ⟨rfl, hinterval, hcount⟩ := hidle before hbefore
    -- the clock has not gone ahead, or the step would have been seen
    have hstep : clockStep per s.oldTick newTick = 0 := by
      by_contra hnonzero
      have hpos := lt_of_le_of_ne (clockStep_nonneg _ _) (Ne.symm hnonzero)
      have hseen := hfits.1 (by rw [hbefore]; exact Option.some_ne_none 0) hpos
      exact hfires ((fires_of_idle per newTick hidle hbefore).1.mpr hseen)
    rw [onRepeat_of_not_fires hfires, count_countMs, hcount, hstep]
    exact ⟨rfl, hinterval, rfl⟩

theorem idle_step {i : Input} (hidle : Idle s) (hfits : RearmFits per s i)
    (hmoves : Moves per s i s') : Idle s' := by
  cases hmoves with
  | start interval now =>
      intro passed hpassed
      exact absurd hpassed (Option.some_ne_none passed).symm
  | onRepeat htimer hfirings hpending => exact idle_onRepeat hidle hfits htimer hpending
  | keeps hreadings hsame holdTick hcountMs hfirings hpending =>
      intro passed hpassed
      rw [hpending] at hpassed
      rw [hsame, hcountMs]
      exact hidle passed hpassed

end

/-- For every run, whatever the clients, the clock and `on_timer_` do. -/
theorem rearms_iff {per : ℕ} {inputs : List Input} {s : State}
    (hrun : (machine per).run inputs = some s) :
    (machine per).Always (Rearms per) inputs ↔ (machine per).Always (RearmFits per) inputs := by
  apply Machine.always_iff_always (I := Idle) _ _ _ hrun
  · intro passed hnone
    exact absurd hnone (Option.some_ne_none passed).symm
  · intro s i hidle
    exact rearms_iff_fits hidle
  · intro s i s' hidle hfits hstep
    exact idle_step hidle hfits (moves_of_step hstep)

theorem rearms_iff_client :
    let inputs : List Input :=
      [.setOnTimer true, .start ⟨5, by decide⟩ 0, .testStarted, .onRepeat 6 [.start (.ofInt 0) 6],
        .testStarted, .onRepeat 7 [.stop]]
    (machine 1).Always (Rearms 1) inputs ↔ (machine 1).Always (RearmFits 1) inputs := by
  intro inputs
  exact rearms_iff rfl

/-- Started anew with an interval of 10, the count is at -10. -/
theorem rearmed_below_zero :
    let inputs : List Input :=
      [.setOnTimer true, .start ⟨5, by decide⟩ 0, .testStarted,
        .onRepeat 6 [.start ⟨10, by decide⟩ 6]]
    (∃ s, (machine 1).run inputs = some s ∧ (s.countMs : ℤ) = -10) ∧
      ¬ (machine 1).Always (Rearms 1) inputs := by
  intro inputs
  refine ⟨⟨_, rfl, by decide⟩, ?_⟩
  intro h
  have hrearms := h (inputs.take 3) _ [] rfl _ rfl
  exact absurd (hrearms.2 ⟨10, by decide⟩ ⟨rfl, by decide, rfl⟩) (by decide)

/-! ## How late -/

/-- While a call is pending that a start by `on_timer_` has asked for, the count is behind by
the interval. -/
def Behind (s : State) : Prop :=
  ∀ passed, s.pending = some passed →
    0 ≤ passed ∧ (s.countMs : ℤ) = toInt (passed - s.interval)

section

variable {per : ℕ} {s s' : State}

theorem behind_onRepeat {newTick : ℤ} {calls : List Call} (hbehind : Behind s)
    (htimer : s'.toTimer = s.toTimer.onRepeat per newTick calls)
    (hpending : s'.pending = stillPending per s newTick calls) : Behind s' := by
  intro passed hpassed
  rw [htimer]
  rcases stillPending_cases (hpending.symm.trans hpassed) with
    ⟨interval, hrestarts, rfl⟩ | ⟨hfires, before, hbefore, rfl⟩
  · obtain ⟨hinterval, hcount⟩ := countMs_of_restarts hrestarts
    rw [hinterval, hcount]
    exact ⟨le_refl 0, rfl⟩
  · obtain ⟨hnonneg, hcount⟩ := hbehind before hbefore
    refine ⟨add_nonneg hnonneg (clockStep_nonneg _ _), ?_⟩
    rw [onRepeat_of_not_fires hfires, count_countMs, hcount, toInt, toInt, Int.bmod_add_bmod,
      sub_add_eq_add_sub]
    rfl

theorem behind_of_run {inputs : List Input} (hrun : (machine per).run inputs = some s) :
    Behind s := by
  apply Machine.invariant _ _ hrun
  · intro passed hnone
    exact absurd hnone (Option.some_ne_none passed).symm
  · intro s i s' hbehind hstep
    cases moves_of_step hstep with
    | start interval now =>
        intro passed hpassed
        exact absurd hpassed (Option.some_ne_none passed).symm
    | onRepeat htimer hfirings hpending => exact behind_onRepeat hbehind htimer hpending
    | keeps hreadings hsame holdTick hcountMs hfirings hpending =>
        intro passed hpassed
        rw [hpending] at hpassed
        rw [hsame, hcountMs]
        exact hbehind passed hpassed

/-- What comes of it: the call is late by a whole interval. -/
theorem rearmed_late {inputs : List Input} (hrun : (machine per).run inputs = some s)
    {passed newTick : ℤ} (hpassed : s.pending = some passed) (hinterval : 0 ≤ (s.interval : ℤ))
    (hfits : passed + clockStep per s.oldTick newTick < 2 ^ 31) :
    s.Fires per newTick ↔ 2 * (s.interval : ℤ) < passed + clockStep per s.oldTick newTick := by
  obtain ⟨hnonneg, hcount⟩ := behind_of_run hrun passed hpassed
  have hstep : 0 ≤ clockStep per s.oldTick newTick := clockStep_nonneg _ _
  have hint := s.interval.2.2
  have hahead : toInt (s.countMs + clockStep per s.oldTick newTick) =
      passed - s.interval + clockStep per s.oldTick newTick := by
    rw [hcount, toInt, toInt, Int.bmod_add_bmod]
    apply toInt_of_bounds
    · omega
    · omega
  rw [fires_iff, hahead]
  constructor
  · intro hfires
    omega
  · intro htwice
    omega

end

end Timer

end RyuLib
