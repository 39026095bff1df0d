import RyuLib.Audio.AudioDecoder
import RyuLib.Foundations.Threads

/-!
# The two threads on the decoder's queue

`AudioDecoder::add` asks for the size of the queue and then pops, each under the lock of the
queue and with nothing held between the two.  Here each of these operations is a step of its
own, and the decoding thread takes packets at any time.  `pop` puts its thread to sleep while
the queue is empty, and only `add` pushes: a thread that falls asleep inside `add` is never
woken.

* `AudioDecoder.add_sleeps_iff`: that happens exactly when all the packets that a test has
  counted are taken before the `pop` that follows it.
* `AudioDecoder.add_alone`: an `add` that nothing comes between is the step of `AudioDecoder`.

One thread calls `add`.  The decoding thread is never terminated.
-/

namespace RyuLib.AudioDecoder

open Foundations

inductive Party
  | caller
  | decoder
  deriving DecidableEq

/-- Where a thread is: the next operation on the queue that it makes, or has fallen asleep in. -/
inductive Point
  | idle
  | limit (data : Option (Block UInt8)) (size : ℤ)
  | test (data : Option (Block UInt8)) (size : ℤ)
  | pop (data : Option (Block UInt8)) (size : ℤ)
  | asleep (data : Option (Block UInt8)) (size : ℤ)
  | push (data : Option (Block UInt8)) (size : ℤ)
  | take
  | sleeping
  | decode (memory : List UInt8)

/-- The decoding thread's `pop` is told apart from its other steps. -/
inductive Action
  | add (data : Option (Block UInt8)) (size : ℤ)
  | take
  | next

/-- `pop()`: the thread sleeps on the empty queue, and goes on once there is something. -/
def popOr (queue : List (List UInt8)) (onEmpty : Option (List (List UInt8) × Point))
    (onPacket : List UInt8 → Point) : Option (List (List UInt8) × Point) :=
  match queue with
  | [] => onEmpty
  | memory :: queue => some (queue, onPacket memory)

/-- `add`. -/
def actCaller (queue : List (List UInt8)) : Point → Action → Option (List (List UInt8) × Point)
  | .idle, .add data size => some (queue, .limit data size)
  | .limit data size, .next =>
      if queue.length > maxDelayLimitCount then some (queue, .test data size)
      else some (queue, .push data size)
  | .test data size, .next =>
      if queue.length > 2 then some (queue, .pop data size) else some (queue, .push data size)
  | .pop data size, .next =>
      popOr queue (some (queue, .asleep data size)) fun _ => .test data size
  | .asleep data size, .next => popOr queue none fun _ => .test data size
  | .push data size, .next => some (queue ++ [newMemory data size], .idle)
  | _, _ => none

/-- `thread_OnExecute`. -/
def actDecoder (queue : List (List UInt8)) : Point → Action → Option (List (List UInt8) × Point)
  | .take, .take => popOr queue (some (queue, .sleeping)) .decode
  | .sleeping, .take => popOr queue none .decode
  | .decode _, .next => some (queue, .take)
  | _, _ => none

def program : Program Party (List (List UInt8)) Point Action where
  shared := []
  points
    | .caller => .idle
    | .decoder => .take
  act
    | .caller => actCaller
    | .decoder => actDecoder

/-- The thread inside `add` sleeps in `pop` on the empty queue. -/
def AddSleeps (s : Threads Party (List (List UInt8)) Point) : Prop :=
  (∃ data size, s.points .caller = .asleep data size) ∧ s.shared = []

def Action.isTake : Action → Bool
  | .take => true
  | _ => false

/-- How often the decoding thread has come to its `pop`. -/
def takes (inputs : List (Party × Action)) : ℕ := inputs.countP fun i => i.2.isTake

/-- The test before the `pop` that the caller comes to next has counted `n` packets, more than
two, and in `middle`, since then, only the decoding thread has moved. -/
def Tested (inputs : List (Party × Action)) (n : ℕ) (middle : List (Party × Action)) : Prop :=
  ∃ before s data size, inputs = before ++ (.caller, .next) :: middle ∧
    program.machine.run before = some s ∧ s.points .caller = .test data size ∧
    s.shared.length = n ∧ 2 < n ∧ ∀ i ∈ middle, i.1 = Party.decoder

/-- Between a test and the `pop` that follows it the decoding thread takes as many packets as
the test has counted. -/
def Outpaced (inputs : List (Party × Action)) : Prop :=
  ∃ front n middle after, inputs = front ++ (.caller, .next) :: after ∧
    Tested front n middle ∧ n ≤ takes middle

/-! ## What a step does -/

/-- `pop` takes the front packet, or does what it does on the empty queue. -/
theorem popOr_eq_some {queue queue' : List (List UInt8)}
    {onEmpty : Option (List (List UInt8) × Point)} {onPacket : List UInt8 → Point} {p' : Point} :
    popOr queue onEmpty onPacket = some (queue', p') ↔
      (queue = [] ∧ onEmpty = some (queue', p')) ∨
        ∃ memory, queue = memory :: queue' ∧ onPacket memory = p' := by
  cases queue with
  | nil => simp [popOr]
  | cons memory queue => simp [popOr]

/-- What `add` does, one rule for each kind of step. -/
inductive CallerMoves (queue : List (List UInt8)) :
    Point → Action → List (List UInt8) → Point → Prop
  | add (data : Option (Block UInt8)) (size : ℤ) :
      CallerMoves queue .idle (.add data size) queue (.limit data size)
  | within (hshort : queue.length ≤ maxDelayLimitCount) (data : Option (Block UInt8)) (size : ℤ) :
      CallerMoves queue (.limit data size) .next queue (.push data size)
  | beyond (hlong : maxDelayLimitCount < queue.length) (data : Option (Block UInt8)) (size : ℤ) :
      CallerMoves queue (.limit data size) .next queue (.test data size)
  | more (htwo : 2 < queue.length) (data : Option (Block UInt8)) (size : ℤ) :
      CallerMoves queue (.test data size) .next queue (.pop data size)
  | enough (htwo : queue.length ≤ 2) (data : Option (Block UInt8)) (size : ℤ) :
      CallerMoves queue (.test data size) .next queue (.push data size)
  | sleep (hempty : queue = []) (data : Option (Block UInt8)) (size : ℤ) :
      CallerMoves queue (.pop data size) .next [] (.asleep data size)
  | pop {p : Point} {memory : List UInt8} {rest : List (List UInt8)}
      (hqueue : queue = memory :: rest) (data : Option (Block UInt8)) (size : ℤ)
      (hp : p = .pop data size ∨ p = .asleep data size) :
      CallerMoves queue p .next rest (.test data size)
  | push (data : Option (Block UInt8)) (size : ℤ) :
      CallerMoves queue (.push data size) .next (queue ++ [newMemory data size]) .idle

theorem actCaller_moves {queue queue' : List (List UInt8)} {p p' : Point} {a : Action}
    (hact : actCaller queue p a = some (queue', p')) : CallerMoves queue p a queue' p' := by
  unfold actCaller at hact
  split at hact
  · cases hact
    exact CallerMoves.add _ _
  · split at hact
    · rename_i hlong
      cases hact
      exact CallerMoves.beyond hlong _ _
    · rename_i hshort
      cases hact
      exact CallerMoves.within (Nat.le_of_not_lt hshort) _ _
  · split at hact
    · rename_i htwo
      cases hact
      exact CallerMoves.more htwo _ _
    · rename_i htwo
      cases hact
      exact CallerMoves.enough (Nat.le_of_not_lt htwo) _ _
  · rcases popOr_eq_some.mp hact with ⟨rfl, hasleep⟩ | ⟨memory, rfl, rfl⟩
    · cases hasleep
      exact CallerMoves.sleep rfl _ _
    · exact CallerMoves.pop rfl _ _ (Or.inl rfl)
  · rcases popOr_eq_some.mp hact with ⟨_, hasleep⟩ | ⟨memory, rfl, rfl⟩
    · cases hasleep
    · exact CallerMoves.pop rfl _ _ (Or.inr rfl)
  · cases hact
    exact CallerMoves.push _ _
  · cases hact

theorem CallerMoves.to_pop {queue queue' : List (List UInt8)} {p : Point} {a : Action}
    {data : Option (Block UInt8)} {size : ℤ}
    (h : CallerMoves queue p a queue' (.pop data size)) :
    p = .test data size ∧ a = .next ∧ 2 < queue.length := by
  cases h with
  | more htwo => exact ⟨rfl, rfl, htwo⟩

theorem CallerMoves.to_asleep {queue queue' : List (List UInt8)} {p : Point} {a : Action}
    {data : Option (Block UInt8)} {size : ℤ}
    (h : CallerMoves queue p a queue' (.asleep data size)) :
    p = .pop data size ∧ a = .next ∧ queue = [] := by
  cases h with
  | sleep hempty => exact ⟨rfl, rfl, hempty⟩

/-- The decoding thread takes one packet, if there is one, whenever it comes to its `pop`. -/
theorem actDecoder_length {queue queue' : List (List UInt8)} {p p' : Point} {a : Action}
    (hact : actDecoder queue p a = some (queue', p')) :
    queue'.length = queue.length - if a.isTake = true then 1 else 0 := by
  unfold actDecoder at hact
  split at hact
  · rcases popOr_eq_some.mp hact with ⟨rfl, hasleep⟩ | ⟨memory, rfl, _⟩
    · cases hasleep
      rfl
    · rfl
  · rcases popOr_eq_some.mp hact with ⟨_, hasleep⟩ | ⟨memory, rfl, _⟩
    · cases hasleep
    · rfl
  · cases hact
    rfl
  · cases hact

/-- A step of the decoding thread: the caller stays where it is. -/
theorem step_decoder {s s' : Threads Party (List (List UInt8)) Point} {a : Action}
    (hstep : program.machine.step s (.decoder, a) = some s') :
    s'.points .caller = s.points .caller ∧
      s'.shared.length = s.shared.length - if a.isTake = true then 1 else 0 := by
  obtain ⟨queue, p, hact, rfl⟩ := Program.step_eq_some.mp hstep
  refine ⟨?_, actDecoder_length hact⟩
  show Function.update s.points .decoder p .caller = s.points .caller
  rw [Function.update_of_ne (by decide)]

theorem step_caller {s s' : Threads Party (List (List UInt8)) Point} {a : Action}
    (hstep : program.machine.step s (.caller, a) = some s') :
    CallerMoves s.shared (s.points .caller) a s'.shared (s'.points .caller) := by
  obtain ⟨queue, p, hact, rfl⟩ := Program.step_eq_some.mp hstep
  show CallerMoves s.shared (s.points .caller) a queue (Function.update s.points .caller p .caller)
  rw [Function.update_self]
  exact actCaller_moves hact

/-! ## From the test to the sleep -/

@[simp] theorem takes_nil : takes [] = 0 := rfl

theorem takes_concat (inputs : List (Party × Action)) (t : Party) (a : Action) :
    takes (inputs ++ [(t, a)]) = takes inputs + if a.isTake = true then 1 else 0 := by
  rw [takes, takes, List.countP_append, List.countP_singleton]

/-- After the test the caller is at `pop`, and what the decoding thread has taken since is
missing from what was counted. -/
theorem Tested.state {inputs middle : List (Party × Action)} {n : ℕ} (h : Tested inputs n middle)
    {s : Threads Party (List (List UInt8)) Point} (hrun : program.machine.run inputs = some s) :
    (∃ data size, s.points .caller = .pop data size) ∧ s.shared.length = n - takes middle := by
  obtain ⟨before, s₀, data, size, rfl, hbefore, hpoint, hcounted, htwo, hdecoder⟩ := h
  induction middle using List.reverseRecOn generalizing s with
  | nil =>
      obtain ⟨t, ht, hstep⟩ := Machine.run_concat_eq_some.mp hrun
      rw [hbefore, Option.some.injEq] at ht
      subst ht
      obtain ⟨queue, p, hact, rfl⟩ := Program.step_eq_some.mp hstep
      have htest : actCaller s₀.shared (.test data size) .next = some (queue, p) := hpoint ▸ hact
      rw [actCaller, if_pos (by omega)] at htest
      cases htest
      refine ⟨⟨data, size, ?_⟩, by rw [takes_nil, Nat.sub_zero, hcounted]⟩
      exact Function.update_self Party.caller (Point.pop data size) s₀.points
  | append_singleton middle i ih =>
      obtain ⟨t, a⟩ := i
      obtain rfl : t = Party.decoder := hdecoder (t, a) (by simp)
      rw [← List.cons_append, ← List.append_assoc] at hrun
      obtain ⟨s₁, hs₁, hstep⟩ := Machine.run_concat_eq_some.mp hrun
      obtain ⟨hpop, hlength⟩ := ih hs₁ fun i hi => hdecoder i (List.mem_append_left _ hi)
      obtain ⟨hstays, htaken⟩ := step_decoder hstep
      refine ⟨hstays ▸ hpop, ?_⟩
      rw [htaken, hlength, takes_concat, Nat.sub_sub]

theorem Tested.decoder {inputs middle : List (Party × Action)} {n : ℕ}
    (h : Tested inputs n middle) (a : Action) :
    Tested (inputs ++ [(.decoder, a)]) n (middle ++ [(.decoder, a)]) := by
  obtain ⟨before, s, data, size, rfl, hrun, hpoint, hcounted, htwo, hdecoder⟩ := h
  refine ⟨before, s, data, size, by simp, hrun, hpoint, hcounted, htwo, ?_⟩
  intro i hi
  rcases List.mem_append.mp hi with hi | hi
  · exact hdecoder i hi
  · rw [List.mem_singleton.mp hi]

theorem Outpaced.append {inputs : List (Party × Action)} (h : Outpaced inputs)
    (more : List (Party × Action)) : Outpaced (inputs ++ more) := by
  obtain ⟨front, n, middle, after, rfl, htested⟩ := h
  exact ⟨front, n, middle, after ++ more, by simp, htested⟩

/-- The caller comes to `pop` from a test, and it is asleep there if it was outpaced. -/
theorem tested_and_outpaced {inputs : List (Party × Action)}
    {s : Threads Party (List (List UInt8)) Point} (hrun : program.machine.run inputs = some s) :
    (∀ data size, s.points .caller = .pop data size → ∃ n middle, Tested inputs n middle) ∧
      ∀ data size, s.points .caller = .asleep data size → Outpaced inputs := by
  refine Machine.run_induction (M := program.machine)
    (P := fun inputs s =>
      (∀ data size, s.points .caller = .pop data size → ∃ n middle, Tested inputs n middle) ∧
        ∀ data size, s.points .caller = .asleep data size → Outpaced inputs) ?_ ?_ inputs s hrun
  · constructor
    · intro data size hpop
      cases hpop
    · intro data size hasleep
      cases hasleep
  · rintro inputs s ⟨t, a⟩ s' hs ⟨htested, houtpaced⟩ hstep
    cases t with
    | decoder =>
        rw [(step_decoder hstep).1]
        constructor
        · intro data size hpop
          obtain ⟨n, middle, h⟩ := htested data size hpop
          exact ⟨n, middle ++ [(.decoder, a)], h.decoder a⟩
        · intro data size hasleep
          exact (houtpaced data size hasleep).append _
    | caller =>
        have hmove := step_caller hstep
        constructor
        · intro data size hpop
          rw [hpop] at hmove
          obtain ⟨hpoint, rfl, htwo⟩ := hmove.to_pop
          exact ⟨s.shared.length, [], inputs, s, data, size, rfl, hs, hpoint, rfl, htwo, by simp⟩
        · intro data size hasleep
          rw [hasleep] at hmove
          obtain ⟨hpop, rfl, hempty⟩ := hmove.to_asleep
          obtain ⟨n, middle, h⟩ := htested data size hpop
          -- nothing is left of what was counted
          have hlength := (h.state hs).2
          rw [hempty, List.length_nil] at hlength
          exact ⟨inputs, n, middle, [], rfl, h, by omega⟩

/-- A caller that is outpaced falls asleep. -/
theorem Outpaced.sleeps {inputs : List (Party × Action)} (h : Outpaced inputs)
    {s : Threads Party (List (List UInt8)) Point} (hrun : program.machine.run inputs = some s) :
    ∃ first second s', inputs = first ++ second ∧ program.machine.run first = some s' ∧
      AddSleeps s' := by
  obtain ⟨front, n, middle, after, rfl, htested, hle⟩ := h
  rw [List.append_cons] at hrun ⊢
  obtain ⟨s', hs'⟩ := Machine.run_front hrun
  refine ⟨_, after, s', rfl, hs', ?_⟩
  obtain ⟨t, ht, hstep⟩ := Machine.run_concat_eq_some.mp hs'
  obtain ⟨⟨data, size, hpop⟩, hlength⟩ := htested.state ht
  have hempty : t.shared = [] := List.eq_nil_of_length_eq_zero (by omega)
  obtain ⟨queue, p, hact, rfl⟩ := Program.step_eq_some.mp hstep
  have hsleep : actCaller [] (.pop data size) .next = some (queue, p) := hempty ▸ hpop ▸ hact
  cases hsleep
  exact ⟨⟨data, size, Function.update_self Party.caller (Point.asleep data size) t.points⟩, rfl⟩

/-- In no state of a run does the thread inside `add` sleep on the empty queue, if and only if
the decoding thread never takes, between a test and the `pop` after it, as many packets as the
test has counted. -/
theorem add_sleeps_iff {inputs : List (Party × Action)}
    {s : Threads Party (List (List UInt8)) Point} (hrun : program.machine.run inputs = some s) :
    program.machine.Throughout (fun s => ¬ AddSleeps s) inputs ↔ ¬ Outpaced inputs := by
  constructor
  · intro hawake houtpaced
    obtain ⟨first, second, s', hsplit, hs', hsleeps⟩ := houtpaced.sleeps hrun
    exact hawake first second hsplit s' hs' hsleeps
  · intro hkeepsUp first second hsplit s' hs' hsleeps
    obtain ⟨⟨data, size, hasleep⟩, _⟩ := hsleeps
    rw [hsplit] at hkeepsUp
    exact hkeepsUp (((tested_and_outpaced hs').2 data size hasleep).append second)

/-- `count` packets are added one after the other. -/
def adds (count : ℕ) : List (Party × Action) :=
  (List.replicate count [(.caller, .add (some fun _ => 7) 1), (.caller, .next),
    (.caller, .next)]).flatten

/-- The sixth `add` deletes three packets and nothing comes between. -/
theorem add_sleeps_iff_undisturbed :
    let inputs := adds 5 ++ [(.caller, .add (some fun _ => 7) 1)] ++
      List.replicate 9 (Party.caller, Action.next)
    program.machine.Throughout (fun s => ¬ AddSleeps s) inputs ↔ ¬ Outpaced inputs :=
  add_sleeps_iff rfl

/-- The sixth `add` counts five packets, the decoding thread takes them all, and `add` falls
asleep in `pop`. -/
theorem add_falls_asleep :
    let inputs := adds 5 ++ [(.caller, .add (some fun _ => 7) 1), (.caller, .next),
        (.caller, .next)] ++
      (List.replicate 5 [(Party.decoder, Action.take), (Party.decoder, Action.next)]).flatten ++
      [(.caller, .next)]
    ∃ s, program.machine.run inputs = some s ∧ AddSleeps s := by
  refine ⟨_, rfl, ⟨some fun _ => 7, 1, ?_⟩, ?_⟩
  · rfl
  · rfl

/-- Nothing wakes it: whatever is done afterwards, the thread that calls `add` sleeps. -/
theorem addSleeps_stays {first second : List (Party × Action)}
    {s s' : Threads Party (List (List UInt8)) Point} (hfirst : program.machine.run first = some s)
    (hsleeps : AddSleeps s) (hrun : program.machine.run (first ++ second) = some s') :
    AddSleeps s' := by
  refine Machine.run_relation (M := program.machine) (R := fun s s' => AddSleeps s → AddSleeps s')
    (fun _ h => h) ?_ hfirst hrun hsleeps
  rintro _ s₀ s ⟨t, a⟩ s' _ ih hstep hsleeps₀
  obtain ⟨⟨data, size, hasleep⟩, hempty⟩ := ih hsleeps₀
  cases t with
  | decoder =>
      obtain ⟨hstays, hlength⟩ := step_decoder hstep
      refine ⟨⟨data, size, hstays ▸ hasleep⟩, List.eq_nil_of_length_eq_zero ?_⟩
      rw [hlength, hempty, List.length_nil, Nat.zero_sub]
  | caller =>
      obtain ⟨queue, p, hact, rfl⟩ := Program.step_eq_some.mp hstep
      -- there is nothing to take, so that it cannot move
      have hstuck : actCaller [] (.asleep data size) a = some (queue, p) :=
        hempty ▸ hasleep ▸ hact
      cases a <;> cases hstuck

/-! ## An `add` that nothing comes between -/

/-- The caller moves `k` times. -/
def alone (k : ℕ) : List (Party × Action) := List.replicate k (.caller, .next)

theorem runFrom_alone {queue queue' : List (List UInt8)} {points : Party → Point} {p p' : Point}
    {k : ℕ} {s : Threads Party (List (List UInt8)) Point}
    (hact : actCaller queue p .next = some (queue', p'))
    (hrest : program.machine.runFrom ⟨queue', Function.update points .caller p'⟩ (alone k) =
      some s) :
    program.machine.runFrom ⟨queue, Function.update points .caller p⟩ (alone (k + 1)) = some s := by
  have hstep : program.machine.step ⟨queue, Function.update points .caller p⟩ (.caller, .next) =
      some ⟨queue', Function.update points .caller p'⟩ := by
    apply Program.step_eq_some.mpr
    refine ⟨queue', p', ?_, ?_⟩
    · show actCaller queue (Function.update points .caller p .caller) .next = _
      rw [Function.update_self]
      exact hact
    · rw [Function.update_idem]
  rw [alone, List.replicate_succ, Machine.runFrom, hstep]
  exact hrest

/-- The loop deletes what `trim` does. -/
theorem trim_alone (queue : List (List UInt8)) (points : Party → Point)
    (data : Option (Block UInt8)) (size : ℤ) :
    ∃ k, program.machine.runFrom ⟨queue, Function.update points .caller (.test data size)⟩
        (alone k) =
      some ⟨(trim queue).2, Function.update points .caller (.push data size)⟩ := by
  induction queue with
  | nil => exact ⟨1, runFrom_alone rfl rfl⟩
  | cons memory queue ih =>
      unfold trim
      by_cases hmore : (memory :: queue).length > 2
      · obtain ⟨k, hk⟩ := ih
        have htest : actCaller (memory :: queue) (.test data size) .next =
            some (memory :: queue, .pop data size) := if_pos hmore
        rw [if_pos hmore]
        exact ⟨k + 1 + 1, runFrom_alone htest (runFrom_alone rfl hk)⟩
      · have htest : actCaller (memory :: queue) (.test data size) .next =
            some (memory :: queue, .push data size) := if_neg hmore
        rw [if_neg hmore]
        exact ⟨1, runFrom_alone htest rfl⟩

/-- The steps of an `add` that nothing comes between are the one step of `AudioDecoder`. -/
theorem add_alone (s : Threads Party (List (List UInt8)) Point) (hidle : s.points .caller = .idle)
    (data : Option (Block UInt8)) (size : ℤ) :
    ∃ k, program.machine.runFrom s ((.caller, .add data size) :: alone k) =
      some { s with shared := (add s.shared data size).2 } := by
  have hcalled : program.machine.step s (.caller, .add data size) =
      some ⟨s.shared, Function.update s.points .caller (.limit data size)⟩ := by
    apply Program.step_eq_some.mpr
    refine ⟨s.shared, .limit data size, ?_, rfl⟩
    show actCaller s.shared (s.points .caller) (.add data size) = _
    rw [hidle]
    rfl
  have hpush : ∀ queue, program.machine.runFrom
      ⟨queue, Function.update s.points .caller (.push data size)⟩ (alone 1) =
        some { s with shared := queue ++ [newMemory data size] } := by
    intro queue
    apply runFrom_alone rfl
    rw [← hidle, Function.update_eq_self]
    rfl
  simp only [Machine.runFrom, hcalled, Option.bind_some]
  unfold add
  by_cases hlong : s.shared.length > maxDelayLimitCount
  · obtain ⟨k, hk⟩ := trim_alone s.shared s.points data size
    have hlimit : actCaller s.shared (.limit data size) .next =
        some (s.shared, .test data size) := if_pos hlong
    have hrest : program.machine.runFrom
        ⟨s.shared, Function.update s.points .caller (.test data size)⟩ (alone (k + 1)) =
          some { s with shared := (trim s.shared).2 ++ [newMemory data size] } := by
      rw [alone, List.replicate_add, Machine.runFrom_append]
      exact (congrArg (Option.bind · _) hk).trans (hpush _)
    rw [if_pos hlong]
    exact ⟨k + 1 + 1, runFrom_alone hlimit hrest⟩
  · have hlimit : actCaller s.shared (.limit data size) .next =
        some (s.shared, .push data size) := if_neg hlong
    rw [if_neg hlong]
    exact ⟨1 + 1, runFrom_alone hlimit (hpush _)⟩

end RyuLib.AudioDecoder
