import RyuLib.Thread.SimpleThread

/-!
# Scheduler

A `SimpleThread` that executes the tasks of a `ThreadQueue` in its loop and repeats a
handler while there are none.  The clients add tasks, start, stop and end it, and set its
handlers.  `push` and `pop` of a `ThreadQueue` are one step each: both hold its mutex from
their first line to their last.

* `Scheduler.runs_in_order`: the calls of `on_task_` are a prefix of the tasks added, and
  those of `on_repeat_` come directly behind an empty pop and a set `started_`.
-/

namespace RyuLib

open Foundations History

/-- A queue behind a mutex; `T` is a pointer type, whose NULL no queue holds. -/
structure ThreadQueue (α : Type*) where
  queue : List α := []

namespace ThreadQueue

variable {α : Type*}

def push (q : ThreadQueue α) (item : α) : ThreadQueue α := ⟨q.queue ++ [item]⟩

/-- `T pop()`, with `none` for NULL. -/
def pop (q : ThreadQueue α) : Option α × ThreadQueue α :=
  match q.queue with
  | [] => (none, q)
  | item :: rest => (some item, ⟨rest⟩)

/-- A pop takes the oldest item, if there is one, and leaves the others. -/
theorem pop_queue (q : ThreadQueue α) : q.pop.1.toList ++ q.pop.2.queue = q.queue := by
  unfold pop
  split
  · rename_i hnil
    rw [hnil]
    rfl
  · rename_i item rest hcons
    rw [hcons]
    rfl

end ThreadQueue

/-- `data` is an address, and 0 the null pointer. -/
structure TaskOfScheduler where
  task : ℤ
  text : String
  data : ℕ
  size : ℤ
  tag : ℤ
  deriving DecidableEq

namespace Scheduler

/-- The overloads of `add`. -/
inductive AddCall
  | ofTask (task : ℤ)
  | ofText (task : ℤ) (text : String)
  | ofData (task : ℤ) (data : ℕ)
  | ofAll (task : ℤ) (text : String) (data : ℕ) (size tag : ℤ)
  deriving DecidableEq

/-- The task that an `add` pushes. -/
def AddCall.toTask : AddCall → TaskOfScheduler
  | .ofTask task => ⟨task, "", 0, 0, 0⟩
  | .ofText task text => ⟨task, text, 0, 0, 0⟩
  | .ofData task data => ⟨task, "", data, 0, 0⟩
  | .ofAll task text data size tag => ⟨task, text, data, size, tag⟩

inductive Party (κ : Type*)
  | scheduler
  | client (k : κ)
  deriving DecidableEq

namespace Party

variable {κ β : Type*} [DecidableEq κ] (points : Party κ → β) (p : β) (k : κ)

@[simp] theorem update_scheduler_client :
    Function.update points .scheduler p (.client k) = points (.client k) :=
  Function.update_of_ne (by simp) ..

@[simp] theorem update_client_scheduler :
    Function.update points (.client k) p .scheduler = points .scheduler :=
  Function.update_of_ne (by simp) ..

end Party

/-- What the loop sees and does: what a pop finds, the call of `on_task_` with its
arguments, the value of `started_`, and the call of `on_repeat_`. -/
inductive Event
  | popped (task : TaskOfScheduler)
  | poppedNothing
  | onTask (task : ℤ) (text : String) (data : ℕ) (size tag : ℤ)
  | sawStarted (started : Bool)
  | onRepeat
  deriving DecidableEq

end Scheduler

/-- `onTask` and `onRepeat` say that the handlers are set; `added` are the tasks in the
order in which they were pushed, and `log` is what the loop did. -/
structure Scheduler (κ : Type*) where
  thread : SimpleThread (Scheduler.Party κ) := {}
  queue : ThreadQueue TaskOfScheduler := {}
  started : Bool := false
  onTask : Bool := false
  onRepeat : Bool := false
  added : List TaskOfScheduler := []
  log : List Scheduler.Event := []

namespace Scheduler

/-- The calls of a client; the handlers are set to something or to `nullptr`. -/
inductive Call
  | add (call : AddCall)
  | start
  | stop
  | setOnTask (set : Bool)
  | setOnRepeat (set : Bool)
  | terminate
  | terminateAndWait
  deriving DecidableEq

/-- Where a thread is: the scheduler in its loop and in the calls it makes from there, a
client in `add` or in a function of the thread. -/
inductive Point
  | loop
  | pop (inLoop : Bool)
  | handle (task : TaskOfScheduler)
  | handling (task : TaskOfScheduler)
  | testStarted
  | testRepeat
  | repeating
  | sleeping (p : SimpleThread.Point)
  | ended
  | client (p : SimpleThread.Point)
  | push (task : TaskOfScheduler)

inductive Action
  | call (call : Call)
  | next
  | timeout
  deriving DecidableEq

def Action.ofThread : Action → Option SimpleThread.Action
  | .call _ => none
  | .next => some .next
  | .timeout => some .timeout

section

variable {κ : Type*} [DecidableEq κ]

def record (g : Scheduler κ) (event : Event) : Scheduler κ := { g with log := g.log ++ [event] }

/-- A step inside a function of the thread. -/
def actThread (t : Party κ) (g : Scheduler κ) (p : SimpleThread.Point) (a : Action) :
    Option (Scheduler κ × SimpleThread.Point) :=
  a.ofThread.bind fun a => (SimpleThread.act t g.thread p a).map fun next =>
    ({ g with thread := next.1 }, next.2)

/-- A call of a client. -/
def enter (g : Scheduler κ) : Call → Scheduler κ × Point
  | .add call => (g, .push call.toTask)
  | .start => ({ g with started := true }, .client .idle)
  | .stop => ({ g with started := false }, .client .idle)
  | .setOnTask set => ({ g with onTask := set }, .client .idle)
  | .setOnRepeat set => ({ g with onRepeat := set }, .client .idle)
  | .terminate => (g, .client (.setFlag false))
  | .terminateAndWait => ({ g with started := false }, .client (.setFlag true))

/-- One step of thread `t`. -/
def act (t : Party κ) (g : Scheduler κ) : Point → Action → Option (Scheduler κ × Point)
  -- on_thread_execute
  | .loop, .next =>
      if g.thread.isTerminated = false then some (g, .pop false)
      else some ({ g with thread := { g.thread with finished := true } }, .ended)
  | .pop _, .next =>
      match g.queue.pop with
      | (some task, queue) => some ({ g with queue := queue }.record (.popped task), .handle task)
      | (none, _) => some (g.record .poppedNothing, .testStarted)
  | .handle task, .next =>
      if g.onTask = true then
        some (g.record (.onTask task.task task.text task.data task.size task.tag), .handling task)
      else some (g, .pop true)
  | .handling _, .next => some (g, .pop true)
  | .testStarted, .next =>
      some (g.record (.sawStarted g.started),
        if g.started = true then .testRepeat else .sleeping (.guard false))
  | .testRepeat, .next =>
      if g.onRepeat = true then some (g.record .onRepeat, .repeating)
      else some (g, .sleeping (.guard false))
  | .repeating, .next => some (g, .loop)
  | .sleeping .idle, .next => some (g, .loop)
  | .sleeping p, a => (actThread t g p a).map fun next => (next.1, .sleeping next.2)
  -- the clients
  | .client .idle, .call call => some (g.enter call)
  | .push task, .next =>
      some ({ g with queue := g.queue.push task, added := g.added ++ [task] },
        .client (.lockWake false))
  | .client p, a => (actThread t g p a).map fun next => (next.1, .client next.2)
  | _, _ => none

/-- What a step does, one rule for each kind of step. -/
inductive Moves (t : Party κ) (g : Scheduler κ) : Point → Action → Scheduler κ → Point → Prop
  | check (hflag : g.thread.isTerminated = false) : Moves t g .loop .next g (.pop false)
  | finish (hflag : g.thread.isTerminated = true) :
      Moves t g .loop .next { g with thread := { g.thread with finished := true } } .ended
  | popTask {task : TaskOfScheduler} {rest : List TaskOfScheduler}
      (hqueue : g.queue.queue = task :: rest) (inLoop : Bool) :
      Moves t g (.pop inLoop) .next ({ g with queue := ⟨rest⟩ }.record (.popped task))
        (.handle task)
  | popNothing (hempty : g.queue.queue = []) (inLoop : Bool) :
      Moves t g (.pop inLoop) .next (g.record .poppedNothing) .testStarted
  | handle (hset : g.onTask = true) (task : TaskOfScheduler) :
      Moves t g (.handle task) .next
        (g.record (.onTask task.task task.text task.data task.size task.tag)) (.handling task)
  | skip (hset : g.onTask = false) (task : TaskOfScheduler) :
      Moves t g (.handle task) .next g (.pop true)
  | handled (task : TaskOfScheduler) : Moves t g (.handling task) .next g (.pop true)
  | testStarted :
      Moves t g .testStarted .next (g.record (.sawStarted g.started))
        (if g.started = true then .testRepeat else .sleeping (.guard false))
  | callRepeat : Moves t g .testRepeat .next (g.record .onRepeat) .repeating
  | noRepeat : Moves t g .testRepeat .next g (.sleeping (.guard false))
  | repeated : Moves t g .repeating .next g .loop
  | awake : Moves t g (.sleeping .idle) .next g .loop
  | sleep {p p' : SimpleThread.Point} {a : Action} {thread : SimpleThread (Party κ)} :
      Moves t g (.sleeping p) a { g with thread := thread } (.sleeping p')
  | call (call : Call) : Moves t g (.client .idle) (.call call) (g.enter call).1 (g.enter call).2
  | push (task : TaskOfScheduler) :
      Moves t g (.push task) .next
        { g with queue := g.queue.push task, added := g.added ++ [task] }
        (.client (.lockWake false))
  | callThread {p p' : SimpleThread.Point} {a : Action} {thread : SimpleThread (Party κ)} :
      Moves t g (.client p) a { g with thread := thread } (.client p')

theorem actThread_eq_some {t : Party κ} {g g' : Scheduler κ} {p p' : SimpleThread.Point}
    {a : Action} (hact : actThread t g p a = some (g', p')) :
    ∃ thread, g' = { g with thread := thread } := by
  obtain ⟨b, _, hact⟩ := Option.bind_eq_some_iff.mp hact
  obtain ⟨⟨thread, p''⟩, _, hnext⟩ := Option.map_eq_some_iff.mp hact
  exact ⟨thread, (Prod.mk.inj hnext).1.symm⟩

theorem act_moves {t : Party κ} {g g' : Scheduler κ} {p p' : Point} {a : Action}
    (hact : act t g p a = some (g', p')) : Moves t g p a g' p' := by
  unfold act at hact
  split at hact
  · split at hact
    · rename_i hflag
      obtain ⟨rfl, rfl⟩ := Prod.mk.inj (Option.some.inj hact)
      exact Moves.check hflag
    · rename_i hflag
      obtain ⟨rfl, rfl⟩ := Prod.mk.inj (Option.some.inj hact)
      exact Moves.finish (Bool.not_eq_false _ ▸ hflag)
  · cases hqueue : g.queue.queue with
    | nil =>
        simp only [ThreadQueue.pop, hqueue, Option.some.injEq, Prod.mk.injEq] at hact
        obtain ⟨rfl, rfl⟩ := hact
        exact Moves.popNothing hqueue _
    | cons task rest =>
        simp only [ThreadQueue.pop, hqueue, Option.some.injEq, Prod.mk.injEq] at hact
        obtain ⟨rfl, rfl⟩ := hact
        exact Moves.popTask hqueue _
  · split at hact
    · rename_i hset
      obtain ⟨rfl, rfl⟩ := Prod.mk.inj (Option.some.inj hact)
      exact Moves.handle hset _
    · rename_i hset
      obtain ⟨rfl, rfl⟩ := Prod.mk.inj (Option.some.inj hact)
      exact Moves.skip (Bool.not_eq_true _ ▸ hset) _
  · obtain ⟨rfl, rfl⟩ := Prod.mk.inj (Option.some.inj hact)
    exact Moves.handled _
  · obtain ⟨rfl, rfl⟩ := Prod.mk.inj (Option.some.inj hact)
    exact Moves.testStarted
  · split at hact
    · obtain ⟨rfl, rfl⟩ := Prod.mk.inj (Option.some.inj hact)
      exact Moves.callRepeat
    · obtain ⟨rfl, rfl⟩ := Prod.mk.inj (Option.some.inj hact)
      exact Moves.noRepeat
  · obtain ⟨rfl, rfl⟩ := Prod.mk.inj (Option.some.inj hact)
    exact Moves.repeated
  · obtain ⟨rfl, rfl⟩ := Prod.mk.inj (Option.some.inj hact)
    exact Moves.awake
  · obtain ⟨⟨g₁, p₁⟩, hthread, hnext⟩ := Option.map_eq_some_iff.mp hact
    obtain ⟨rfl, rfl⟩ := Prod.mk.inj hnext
    obtain ⟨thread, rfl⟩ := actThread_eq_some hthread
    exact Moves.sleep
  · simp only [Option.some.injEq] at hact
    obtain ⟨rfl, rfl⟩ := Prod.mk.inj hact
    exact Moves.call _
  · obtain ⟨rfl, rfl⟩ := Prod.mk.inj (Option.some.inj hact)
    exact Moves.push _
  · obtain ⟨⟨g₁, p₁⟩, hthread, hnext⟩ := Option.map_eq_some_iff.mp hact
    obtain ⟨rfl, rfl⟩ := Prod.mk.inj hnext
    obtain ⟨thread, rfl⟩ := actThread_eq_some hthread
    exact Moves.callThread
  · cases hact

theorem actThread_moves {t : Party κ} {g g' : Scheduler κ} {p p' : SimpleThread.Point}
    {a : Action} (hact : actThread t g p a = some (g', p')) :
    ∃ b, b ≠ .finish ∧ SimpleThread.Moves t g.thread p b g'.thread p' := by
  obtain ⟨b, hb, hact⟩ := Option.bind_eq_some_iff.mp hact
  obtain ⟨⟨thread, p''⟩, hthread, hnext⟩ := Option.map_eq_some_iff.mp hact
  obtain ⟨rfl, rfl⟩ := Prod.mk.inj hnext
  refine ⟨b, ?_, SimpleThread.act_moves hthread⟩
  cases a with
  | call call => cases hb
  | next | timeout =>
      obtain rfl := Option.some.inj hb
      simp

theorem act_client {t : Party κ} {g : Scheduler κ} {q : SimpleThread.Point} {a : Action}
    (hq : q ≠ .idle) :
    act t g (.client q) a = (actThread t g q a).map fun next => (next.1, .client next.2) := by
  cases q with
  | idle => exact absurd rfl hq
  | _ => rfl

theorem act_sleeping {t : Party κ} {g : Scheduler κ} {q : SimpleThread.Point} {a : Action}
    (hq : q ≠ .idle) :
    act t g (.sleeping q) a = (actThread t g q a).map fun next => (next.1, .sleeping next.2) := by
  cases q with
  | idle => exact absurd rfl hq
  | _ => rfl

/-- What a step does to the thread. -/
inductive ThreadMoves (t : Party κ) (g g' : Scheduler κ) : Point → Point → Prop
  | none {p p' : Point} (hthread : g'.thread = g.thread) (hclient : ∀ q, p ≠ .client q)
      (hended : p ≠ .ended) : ThreadMoves t g g' p p'
  | finish (hthread : g'.thread = { g.thread with finished := true }) :
      ThreadMoves t g g' .loop .ended
  | client {q q' : SimpleThread.Point} {b : SimpleThread.Action}
      (hb : b ≠ .finish) (hmove : SimpleThread.Moves t g.thread q b g'.thread q') :
      ThreadMoves t g g' (.client q) (.client q')
  | sleeping {q q' : SimpleThread.Point} {b : SimpleThread.Action}
      (hb : b ≠ .finish) (hmove : SimpleThread.Moves t g.thread q b g'.thread q') :
      ThreadMoves t g g' (.sleeping q) (.sleeping q')

theorem threadMoves_of_act {t : Party κ} {g g' : Scheduler κ} {p p' : Point} {a : Action}
    (hact : act t g p a = some (g', p')) (hidle : p ≠ .client .idle) :
    ThreadMoves t g g' p p' := by
  have hmove := act_moves hact
  cases hmove with
  | finish => exact .finish rfl
  | call => exact absurd rfl hidle
  | @sleep q q' a thread =>
      rcases eq_or_ne q .idle with rfl | hq
      · cases a with
        | next => cases (Prod.mk.inj (Option.some.inj hact)).2
        | timeout | call => cases hact
      · rw [act_sleeping hq] at hact
        obtain ⟨⟨g₁, q₁⟩, hthread, hnext⟩ := Option.map_eq_some_iff.mp hact
        obtain ⟨rfl, hq₁⟩ := Prod.mk.inj hnext
        cases hq₁
        obtain ⟨b, hb, hmove⟩ := actThread_moves hthread
        exact .sleeping hb hmove
  | @callThread q q' a thread =>
      have hq : q ≠ .idle := by
        rintro rfl
        exact hidle rfl
      rw [act_client hq] at hact
      obtain ⟨⟨g₁, q₁⟩, hthread, hnext⟩ := Option.map_eq_some_iff.mp hact
      obtain ⟨rfl, hq₁⟩ := Prod.mk.inj hnext
      cases hq₁
      obtain ⟨b, hb, hmove⟩ := actThread_moves hthread
      exact .client hb hmove
  | _ => exact .none rfl (by simp) (by simp)

end

/-! ## The invariants -/

section

variable {κ : Type*}

/-- The tasks that `on_task_` was called with. -/
def executed (log : List Event) : List TaskOfScheduler :=
  log.filterMap fun
    | .onTask task text data size tag => some ⟨task, text, data, size, tag⟩
    | _ => none

/-- The task that is popped and not yet handled. -/
def Point.inHand : Point → List TaskOfScheduler
  | .handle task => [task]
  | _ => []

def Point.isClient : Point → Bool
  | .client _ | .push _ => true
  | _ => false

/-- `on_repeat_` is called directly behind an empty pop and a set `started_`. -/
def Prompted (past : List Event) (event : Event) : Prop :=
  event = .onRepeat → ∃ earlier, past = earlier ++ [.poppedNothing, .sawStarted true]

/-- How far the loop has come since its last pop. -/
def Point.Follows : Point → List Event → Prop
  | .testStarted, log => ∃ earlier, log = earlier ++ [.poppedNothing]
  | .testRepeat, log => ∃ earlier, log = earlier ++ [.poppedNothing, .sawStarted true]
  | _, _ => True

theorem Point.inHand_of_isClient {p : Point} (hclient : p.isClient = true) : p.inHand = [] := by
  cases p with
  | client | push => rfl
  | _ => cases hclient

variable {t : Party κ} {g g' : Scheduler κ} {p p' : Point} {a : Action}

theorem Moves.isClient (hmove : Moves t g p a g' p') : p'.isClient = p.isClient := by
  cases hmove with
  | testStarted => cases g.started <;> rfl
  | call call => cases call <;> rfl
  | _ => rfl

/-- A client leaves the log alone. -/
theorem Moves.client_log (hmove : Moves t g p a g' p') (hclient : p.isClient = true) :
    g'.log = g.log := by
  cases hmove with
  | call call => cases call <;> rfl
  | push | callThread => rfl
  | _ => cases hclient

theorem Moves.follows (hmove : Moves t g p a g' p') (h : p.Follows g.log) :
    p'.Follows g'.log := by
  cases hmove with
  | popNothing => exact ⟨g.log, rfl⟩
  | testStarted =>
      obtain ⟨earlier, hlog⟩ := h
      cases hstarted : g.started with
      | true => exact ⟨earlier, by simp [record, hlog]⟩
      | false => trivial
  | call call => cases call <;> trivial
  | _ => trivial

theorem Moves.prompted (hmove : Moves t g p a g' p') (hfollows : p.Follows g.log)
    (h : AtEach Prompted g.log) : AtEach Prompted g'.log := by
  cases hmove with
  | callRepeat =>
      rw [record, atEach_concat]
      exact ⟨h, fun _ => hfollows⟩
  | popTask | popNothing | handle | testStarted =>
      rw [record, atEach_concat]
      exact ⟨h, nofun⟩
  | call call => cases call <;> exact h
  | _ => exact h

theorem executed_record (g : Scheduler κ) (event : Event) :
    executed (g.record event).log = executed g.log ++ executed [event] :=
  List.filterMap_append

theorem executed_record_of_none {g : Scheduler κ} {event : Event} (hnone : executed [event] = []) :
    executed (g.record event).log = executed g.log := by
  rw [executed_record, hnone, List.append_nil]

/-- Only a push adds a task, only a pop takes one into the hand, and only `on_task_` lets go
of it. -/
theorem Moves.fifo (hmove : Moves t g p a g' p') (hset : p.inHand ≠ [] → g.onTask = true)
    {hand : List TaskOfScheduler} (hhand : p.isClient = false → hand = p.inHand)
    (h : g.added = executed g.log ++ hand ++ g.queue.queue) :
    g'.added = executed g'.log ++ (if p.isClient = true then hand else p'.inHand) ++
      g'.queue.queue := by
  cases hmove with
  | popTask hqueue =>
      obtain rfl := hhand rfl
      rw [executed_record_of_none rfl]
      simpa [record, Point.inHand, Point.isClient, hqueue] using h
  | skip hnot =>
      rw [hset (by simp [Point.inHand])] at hnot
      cases hnot
  | handle hset task =>
      obtain rfl := hhand rfl
      have hone : executed [.onTask task.task task.text task.data task.size task.tag] = [task] :=
        rfl
      rw [executed_record, hone]
      simpa [record, Point.inHand, Point.isClient] using h
  | popNothing | callRepeat =>
      obtain rfl := hhand rfl
      rw [executed_record_of_none rfl]
      exact h
  | testStarted =>
      obtain rfl := hhand rfl
      rw [executed_record_of_none rfl]
      cases g.started <;> exact h
  | call call => cases call <;> simpa [enter, Point.isClient] using h
  | push task => simp [ThreadQueue.push, Point.isClient, h]
  | callThread => simpa [Point.isClient] using h
  | _ =>
      obtain rfl := hhand rfl
      simpa [Point.inHand, Point.isClient] using h

end

/-! ## All interleavings -/

section

variable {κ : Type*} [DecidableEq κ] {inputs : List (Party κ × Action)}
  {s s' : Threads (Party κ) (Scheduler κ) Point}

def start : Party κ → Point
  | .scheduler => .loop
  | .client _ => .client .idle

variable (κ) in
def program : Program (Party κ) (Scheduler κ) Point Action where
  shared := {}
  points := start
  act := act

/-- What holds of the scheduler and all points in every run. -/
structure Inv (g : Scheduler κ) (points : Party κ → Point) : Prop where
  scheduler : (points .scheduler).isClient = false
  clients : ∀ k, (points (.client k)).isClient = true
  follows : (points .scheduler).Follows g.log
  prompted : AtEach Prompted g.log

theorem inv_run (hrun : (program κ).machine.run inputs = some s) : Inv s.shared s.points := by
  refine Program.invariant (I := Inv) ?_ ?_ hrun
  · exact ⟨rfl, fun k => rfl, trivial, atEach_nil _⟩
  · intro g points t a g' p h hact
    have hmove := act_moves hact
    cases t with
    | scheduler =>
        refine ⟨?_, ?_, ?_, hmove.prompted h.follows h.prompted⟩
        · rw [Function.update_self, hmove.isClient]
          exact h.scheduler
        · intro k
          rw [Party.update_scheduler_client]
          exact h.clients k
        · rw [Function.update_self]
          exact hmove.follows h.follows
    | client k =>
        have hlog := hmove.client_log (h.clients k)
        refine ⟨?_, ?_, ?_, ?_⟩
        · rw [Party.update_client_scheduler]
          exact h.scheduler
        · intro j
          apply at_update (P := (Point.isClient · = true))
          · rintro ⟨⟩
            rw [hmove.isClient]
            exact h.clients k
          · exact fun _ => h.clients j
        · rw [Party.update_client_scheduler, hlog]
          exact h.follows
        · rw [hlog]
          exact h.prompted

/-- `on_task_` is set when a task is added, and stays set. -/
def HandlerSet (s : Threads (Party κ) (Scheduler κ) Point) (i : Party κ × Action) : Prop :=
  match i.2 with
  | .call (.add _) => s.shared.onTask = true
  | .call (.setOnTask set) => set = true
  | _ => True

instance decidableHandlerSet (s : Threads (Party κ) (Scheduler κ) Point) :
    ∀ i, Decidable (HandlerSet s i)
  | (_, .call (.add _)) => inferInstanceAs (Decidable (s.shared.onTask = true))
  | (_, .call (.setOnTask set)) => inferInstanceAs (Decidable (set = true))
  | (_, .call .start) | (_, .call .stop) | (_, .call (.setOnRepeat _)) => isTrue trivial
  | (_, .call .terminate) | (_, .call .terminateAndWait) => isTrue trivial
  | (_, .next) | (_, .timeout) => isTrue trivial

/-- A task is added, or about to be. -/
def Coming (s : Threads (Party κ) (Scheduler κ) Point) : Prop :=
  s.shared.added ≠ [] ∨ ∃ t task, s.points t = .push task

/-- As long as handlers are set in time, no task comes before `on_task_`. -/
theorem onTask_of_coming (hrun : (program κ).machine.run inputs = some s) :
    (program κ).machine.Always HandlerSet inputs → Coming s → s.shared.onTask = true := by
  refine Machine.run_induction (P := fun inputs s =>
    (program κ).machine.Always HandlerSet inputs → Coming s → s.shared.onTask = true) ?_ ?_
    inputs s hrun
  · rintro _ (hadded | ⟨t, task, ht⟩)
    · exact absurd rfl hadded
    · cases t <;> cases ht
  · rintro inputs s ⟨t, a⟩ s' hs ih hstep halways hcoming
    rw [Machine.always_concat] at halways
    have hset := halways.2 s hs
    obtain ⟨g, p, hact, rfl⟩ := Program.step_eq_some.mp hstep
    have hmove := act_moves hact
    -- a task comes with a call of `add`, and then the handler is set
    have hcases : Coming s ∨ ∃ call, a = .call (.add call) := by
      rcases hcoming with hadded | ⟨u, task, hu⟩
      · generalize hp : s.points t = q at hmove
        cases hmove with
        | push task => exact Or.inl (Or.inr ⟨t, task, hp⟩)
        | call call => cases call <;> exact Or.inl (Or.inl hadded)
        | _ => exact Or.inl (Or.inl hadded)
      · rcases eq_or_ne u t with rfl | hne
        · simp only [Function.update_self] at hu
          generalize s.points u = q at hmove
          cases hmove with
          | testStarted => split at hu <;> cases hu
          | call call =>
              cases call with
              | add call => exact Or.inr ⟨call, rfl⟩
              | _ => cases hu
          | _ => cases hu
        · simp only [Function.update_of_ne hne] at hu
          exact Or.inl (Or.inr ⟨u, task, hu⟩)
    have hbefore : s.shared.onTask = true := by
      rcases hcases with hbefore | ⟨call, rfl⟩
      · exact ih halways.1 hbefore
      · exact hset
    generalize s.points t = q at hmove
    cases hmove with
    | call call =>
        cases call with
        | setOnTask set => exact hset
        | _ => exact hbefore
    | _ => exact hbefore

/-- In every state of every interleaving: the tasks handed to `on_task_`, each with its own
fields, then the one in hand and the queued ones are those added, in order, if `on_task_`
is set before the first of them; and every call of `on_repeat_` comes directly behind a
pop that found nothing and a look at `started_` that saw it set. -/
theorem runs_in_order (hrun : (program κ).machine.run inputs = some s)
    (halways : (program κ).machine.Always HandlerSet inputs) :
    s.shared.added =
        executed s.shared.log ++ (s.points .scheduler).inHand ++ s.shared.queue.queue ∧
      AtEach Prompted s.shared.log := by
  refine ⟨?_, (inv_run hrun).prompted⟩
  refine Machine.run_induction (P := fun inputs s =>
    (program κ).machine.Always HandlerSet inputs → s.shared.added =
      executed s.shared.log ++ (s.points .scheduler).inHand ++ s.shared.queue.queue) ?_ ?_
    inputs s hrun halways
  · intro _
    rfl
  · rintro inputs s ⟨t, a⟩ s' hs ih hstep halways
    rw [Machine.always_concat] at halways
    have hfifo := ih halways.1
    have hinv := inv_run hs
    obtain ⟨g, p, hact, rfl⟩ := Program.step_eq_some.mp hstep
    have hmove := act_moves hact
    cases t with
    | scheduler =>
        have hset : (s.points .scheduler).inHand ≠ [] → s.shared.onTask = true := by
          intro hhand
          refine onTask_of_coming hs halways.1 (Or.inl ?_)
          rw [hfifo]
          simp [hhand]
        have hafter := hmove.fifo hset (fun _ => rfl) hfifo
        rw [if_neg (by simp [hinv.scheduler])] at hafter
        simpa using hafter
    | client k =>
        have hclient := hinv.clients k
        have hset : (s.points (.client k)).inHand ≠ [] → s.shared.onTask = true :=
          fun hhand => absurd (Point.inHand_of_isClient hclient) hhand
        have hafter := hmove.fifo hset (fun hnot => by rw [hclient] at hnot; cases hnot) hfifo
        rw [if_pos hclient] at hafter
        simpa using hafter

/-- Three clients add a task each, while the scheduler executes the first, calls `on_repeat_`
and takes the second out of the queue. -/
def threeTasks : List (Party ℕ × Action) :=
  [(.client 0, .call (.setOnTask true)), (.client 0, .call (.setOnRepeat true)),
    (.client 0, .call .start), (.client 0, .call (.add (.ofText 5 "a"))), (.client 0, .next),
    (.scheduler, .next), (.scheduler, .next), (.scheduler, .next), (.scheduler, .next),
    (.scheduler, .next), (.scheduler, .next), (.scheduler, .next), (.scheduler, .next),
    (.client 1, .call (.add (.ofData 6 9))), (.client 1, .next), (.scheduler, .next),
    (.scheduler, .next), (.client 2, .call (.add (.ofTask 7))), (.client 2, .next)]

theorem runs_in_order_threeTasks : ∃ s, (program ℕ).machine.run threeTasks = some s ∧
    (s.shared.log, (s.points .scheduler).inHand, s.shared.queue.queue) =
      ([.popped ⟨5, "a", 0, 0, 0⟩, .onTask 5 "a" 0 0 0, .poppedNothing, .sawStarted true, .onRepeat,
        .popped ⟨6, "", 9, 0, 0⟩], [⟨6, "", 9, 0, 0⟩], [⟨7, "", 0, 0, 0⟩]) ∧
    s.shared.added =
      executed s.shared.log ++ (s.points .scheduler).inHand ++ s.shared.queue.queue ∧
    AtEach Prompted s.shared.log := by
  have halways : (program ℕ).machine.Always HandlerSet threeTasks := by decide +kernel
  have hrun : ((program ℕ).machine.run threeTasks).map (fun s =>
      (s.shared.log, (s.points .scheduler).inHand, s.shared.queue.queue)) =
      some ([.popped ⟨5, "a", 0, 0, 0⟩, .onTask 5 "a" 0 0 0, .poppedNothing, .sawStarted true,
        .onRepeat, .popped ⟨6, "", 9, 0, 0⟩], [⟨6, "", 9, 0, 0⟩], [⟨7, "", 0, 0, 0⟩]) := by
    decide +kernel
  obtain ⟨s, hs, hparts⟩ := Option.map_eq_some_iff.mp hrun
  exact ⟨s, hs, hparts, runs_in_order hs halways⟩

end

end Scheduler

end RyuLib
