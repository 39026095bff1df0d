import RyuLib.Foundations.Sessions
import RyuLib.Thread.Worker

/-!
# PipeSender

A `Worker` that opens and closes named pipes and writes to the open one.  The clients create
the pipes and add the tasks; `send` adds one only while `is_connected_` is set, which the
worker changes later than they call.  What the operating system answers is part of a step: the
handle of a new pipe is one that is not in use, so that the handle of a closed pipe can come
again, and `ConnectNamedPipe` succeeds or not.

* `PipeSender.keeps_sessions`: every message goes to the pipe that was opened last before it in
  the queue, if that is connected and not closed.
-/

namespace RyuLib

open Foundations History

namespace PipeSender

abbrev INVALID_HANDLE_VALUE : ℤ := -1

/-- The bytes of a `send`.  `serial` is the number of the call, and `earlier` are the calls of
`send` that had returned before it; no step looks at them. -/
structure Message where
  bytes : List UInt8
  serial : ℕ
  earlier : List ℕ
  deriving DecidableEq

/-- TASK_OPEN, TASK_CLOSE and TASK_SEND with their arguments.  A pipe has the number of the
call of `open` that created it; no step looks at it. -/
inductive PipeTask
  | taskOpen (handle : ℤ) (pipe : ℕ)
  | taskClose
  | taskSend (message : Message)
  deriving DecidableEq

def PipeTask.isSend : PipeTask → Bool
  | .taskSend _ => true
  | _ => false

/-- The number of the call that added a task. -/
def PipeTask.serial : PipeTask → Option ℕ
  | .taskOpen _ pipe => some pipe
  | .taskClose => none
  | .taskSend message => some message.serial

end PipeSender

/-- `handles` are the pipes that the handles in use stand for.  `calls` numbers the calls of
`open` and `send`, and `returned` are those of `send` that have returned.  `processed` are the
tasks that the worker is through with, each with whether a pipe was connected, and `writes`
what was written to which pipe. -/
structure PipeSender (κ : Type*) where
  thread : SimpleThread (Worker.Party κ) := {}
  queue : SuspensionQueue (Worker.Party κ) PipeSender.PipeTask := {}
  pipe : ℤ := PipeSender.INVALID_HANDLE_VALUE
  isConnected : Bool := false
  onConnected : Bool := false
  handles : ℤ → Option ℕ := fun _ => none
  calls : ℕ := 0
  returned : List ℕ := []
  processed : List (PipeSender.PipeTask × Bool) := []
  writes : List (ℕ × PipeSender.Message) := []

namespace PipeSender

/-- The calls of a client; `created` is what `CreateNamedPipe` returns, with `none` for
`INVALID_HANDLE_VALUE`. -/
inductive Call
  | openPipe (name : String) (created : Option ℤ)
  | close
  | send (bytes : List UInt8)
  | setOnConnected (set : Bool)

/-- Where a thread is: the worker in its loop, in `queue_.pop()` or in a handler; a client
between its calls or in a `push`, with the number of the `send` that it is in; the closer
before `terminateAndWait` and in it. -/
inductive Point
  | loop
  | popping (p : SuspensionQueue.Point PipeTask)
  | opening (handle : ℤ) (pipe : ℕ)
  | connecting (handle : ℤ) (pipe : ℕ)
  | refused (handle : ℤ) (pipe : ℕ)
  | connected (handle : ℤ) (pipe : ℕ)
  | notifying
  | closing
  | flushing
  | sending (message : Message)
  | ended
  | client (sends : Option ℕ) (p : SuspensionQueue.Point PipeTask)
  | opened
  | terminating (p : SimpleThread.Point)

/-- A thread calls a function, goes on, is woken without a notification, or learns whether its
pipe is connected. -/
inductive Action
  | call (call : Call)
  | next
  | spurious
  | connect (succeeds : Bool)

def Action.ofQueue : Action → Option (SuspensionQueue.Action PipeTask)
  | .next => some .next
  | .spurious => some .spurious
  | _ => none

section

variable {κ : Type*} [DecidableEq κ]

/-- A step inside a function of the queue. -/
def actQueue (t : Worker.Party κ) (g : PipeSender κ) (p : SuspensionQueue.Point PipeTask)
    (a : Action) : Option (PipeSender κ × SuspensionQueue.Point PipeTask) :=
  a.ofQueue.bind fun a => (SuspensionQueue.act t g.queue p a).map fun next =>
    ({ g with queue := next.1 }, next.2)

/-- A call of a client. -/
def enter (g : PipeSender κ) : Call → Option (PipeSender κ × Point)
  | .openPipe _ none => some (g, .client none .idle)
  | .openPipe _ (some handle) =>
      -- the system gives out no handle in use, and none that the cast to `int` changes
      if g.handles handle = none ∧ handle ≠ INVALID_HANDLE_VALUE ∧
          -2 ^ 31 ≤ handle ∧ handle < 2 ^ 31 then
        some ({ g with
            handles := Function.update g.handles handle (some g.calls)
            calls := g.calls + 1 },
          .client none (.push (.taskOpen handle g.calls)))
      else none
  | .close => some (g, .client none (.push .taskClose))
  | .send bytes =>
      if g.isConnected = true then
        some ({ g with calls := g.calls + 1 },
          .client (some g.calls) (.push (.taskSend ⟨bytes, g.calls, g.returned⟩)))
      else some (g, .client none .idle)
  | .setOnConnected set => some ({ g with onConnected := set }, .client none .idle)

/-- The handler of a task. -/
def handler : PipeTask → Point
  | .taskOpen handle pipe => .opening handle pipe
  | .taskClose => .closing
  | .taskSend message => .sending message

/-- The worker is through with a task. -/
def finish (g : PipeSender κ) (task : PipeTask) (connected : Bool) : PipeSender κ :=
  { g with processed := g.processed ++ [(task, connected)] }

/-- `CloseHandle(pipe_)`, and `pipe_` is invalid. -/
def closeHandle (g : PipeSender κ) : PipeSender κ :=
  { g with handles := Function.update g.handles g.pipe none, pipe := INVALID_HANDLE_VALUE }

/-- `WriteFile(pipe_, ...)`. -/
def write (g : PipeSender κ) (message : Message) : PipeSender κ :=
  { g with writes := g.writes ++ (g.handles g.pipe).toList.map fun pipe => (pipe, message) }

/-- One step of thread `t`. -/
def act (t : Worker.Party κ) (g : PipeSender κ) : Point → Action → Option (PipeSender κ × Point)
  -- on_thread_execute
  | .loop, .next =>
      if g.thread.isTerminated = false then some (g, .popping (.pop .value))
      else some ({ g with thread := { g.thread with finished := true } }, .ended)
  | .popping (.popped _ (some task)), .next => some (g, handler task)
  | .popping p, a => (actQueue t g p a).map fun next => (next.1, .popping next.2)
  -- do_open
  | .opening handle pipe, .next => some ({ g with pipe := handle }, .connecting handle pipe)
  | .connecting handle pipe, .connect succeeds =>
      some (g, if succeeds = true then .connected handle pipe else .refused handle pipe)
  | .refused handle pipe, .next => some (g.closeHandle.finish (.taskOpen handle pipe) false, .loop)
  | .connected handle pipe, .next =>
      some ({ g with isConnected := true }.finish (.taskOpen handle pipe) true,
        if g.onConnected = true then .notifying else .loop)
  | .notifying, .next => some (g, .loop)
  -- do_close
  | .closing, .next => some ({ g with isConnected := false }, .flushing)
  | .flushing, .next =>
      if g.pipe = INVALID_HANDLE_VALUE then some (g.finish .taskClose false, .loop)
      else some (g.closeHandle.finish .taskClose false, .loop)
  -- do_send
  | .sending message, .next =>
      if g.pipe = INVALID_HANDLE_VALUE then some (g.finish (.taskSend message) false, .loop)
      else some ((g.write message).finish (.taskSend message) false, .loop)
  -- the clients
  | .client none .idle, .call call => g.enter call
  | .client (some serial) .idle, .next =>
      some ({ g with returned := g.returned ++ [serial] }, .client none .idle)
  | .client sends p, a => (actQueue t g p a).map fun next => (next.1, .client sends next.2)
  -- terminateAndWait
  | .opened, .next => some (g, .terminating (.setFlag true))
  | .terminating p, .next =>
      (SimpleThread.act t g.thread p .next).map fun next =>
        ({ g with thread := next.1 }, .terminating next.2)
  | _, _ => none

/-- What a step does, one rule for each kind of step. -/
inductive Moves (t : Worker.Party κ) (g : PipeSender κ) :
    Point → Action → PipeSender κ → Point → Prop
  | check (hflag : g.thread.isTerminated = false) :
      Moves t g .loop .next g (.popping (.pop .value))
  | stop (hflag : g.thread.isTerminated = true) :
      Moves t g .loop .next { g with thread := { g.thread with finished := true } } .ended
  | handle (overload : SuspensionQueue.Overload) (task : PipeTask) :
      Moves t g (.popping (.popped overload (some task))) .next g (handler task)
  | pop {p p' : SuspensionQueue.Point PipeTask} {a : Action} {b : SuspensionQueue.Action PipeTask}
      {q : SuspensionQueue (Worker.Party κ) PipeTask} (hb : ∀ call, b ≠ .call call)
      (hmove : SuspensionQueue.Moves t g.queue p b q p') :
      Moves t g (.popping p) a { g with queue := q } (.popping p')
  | setPipe (handle : ℤ) (pipe : ℕ) :
      Moves t g (.opening handle pipe) .next { g with pipe := handle } (.connecting handle pipe)
  | connect (handle : ℤ) (pipe : ℕ) (succeeds : Bool) :
      Moves t g (.connecting handle pipe) (.connect succeeds) g
        (if succeeds = true then .connected handle pipe else .refused handle pipe)
  | refuse (handle : ℤ) (pipe : ℕ) :
      Moves t g (.refused handle pipe) .next (g.closeHandle.finish (.taskOpen handle pipe) false)
        .loop
  | setConnected (handle : ℤ) (pipe : ℕ) :
      Moves t g (.connected handle pipe) .next
        ({ g with isConnected := true }.finish (.taskOpen handle pipe) true)
        (if g.onConnected = true then .notifying else .loop)
  | notified : Moves t g .notifying .next g .loop
  | clearConnected : Moves t g .closing .next { g with isConnected := false } .flushing
  | notOpen (hpipe : g.pipe = INVALID_HANDLE_VALUE) :
      Moves t g .flushing .next (g.finish .taskClose false) .loop
  | close (hpipe : g.pipe ≠ INVALID_HANDLE_VALUE) :
      Moves t g .flushing .next (g.closeHandle.finish .taskClose false) .loop
  | drop (hpipe : g.pipe = INVALID_HANDLE_VALUE) (message : Message) :
      Moves t g (.sending message) .next (g.finish (.taskSend message) false) .loop
  | write (hpipe : g.pipe ≠ INVALID_HANDLE_VALUE) (message : Message) :
      Moves t g (.sending message) .next ((g.write message).finish (.taskSend message) false) .loop
  | call {call : Call} {g' : PipeSender κ} {p' : Point} (henter : g.enter call = some (g', p')) :
      Moves t g (.client none .idle) (.call call) g' p'
  | leave (serial : ℕ) :
      Moves t g (.client (some serial) .idle) .next
        { g with returned := g.returned ++ [serial] } (.client none .idle)
  | push {sends : Option ℕ} {p p' : SuspensionQueue.Point PipeTask} {a : Action}
      {b : SuspensionQueue.Action PipeTask} {q : SuspensionQueue (Worker.Party κ) PipeTask}
      (hb : ∀ call, b ≠ .call call) (hmove : SuspensionQueue.Moves t g.queue p b q p') :
      Moves t g (.client sends p) a { g with queue := q } (.client sends p')
  | terminateAndWait : Moves t g .opened .next g (.terminating (.setFlag true))
  | terminate {p p' : SimpleThread.Point} {thread : SimpleThread (Worker.Party κ)}
      (hmove : SimpleThread.Moves t g.thread p .next thread p') :
      Moves t g (.terminating p) .next { g with thread := thread } (.terminating p')

theorem actQueue_eq_some {t : Worker.Party κ} {g g' : PipeSender κ}
    {p p' : SuspensionQueue.Point PipeTask} {a : Action}
    (hact : actQueue t g p a = some (g', p')) :
    ∃ b q, (∀ call, b ≠ .call call) ∧ SuspensionQueue.Moves t g.queue p b q p' ∧
      g' = { g with queue := q } := by
  obtain ⟨b, hb, hact⟩ := Option.bind_eq_some_iff.mp hact
  obtain ⟨⟨q, p''⟩, hqueue, hnext⟩ := Option.map_eq_some_iff.mp hact
  obtain ⟨rfl, rfl⟩ := Prod.mk.inj hnext
  refine ⟨b, q, ?_, SuspensionQueue.act_moves hqueue, rfl⟩
  rintro call rfl
  cases a <;> cases hb

theorem act_moves {t : Worker.Party κ} {g g' : PipeSender κ} {p p' : Point} {a : Action}
    (hact : act t g p a = some (g', p')) : Moves t g p a g' p' := by
  unfold act at hact
  split at hact
  · split at hact
    · rename_i hflag
      obtain ⟨rfl, rfl⟩ := Prod.mk.inj (Option.some.inj hact)
      exact .check hflag
    · rename_i hflag
      obtain ⟨rfl, rfl⟩ := Prod.mk.inj (Option.some.inj hact)
      exact .stop (Bool.not_eq_false _ ▸ hflag)
  · obtain ⟨rfl, rfl⟩ := Prod.mk.inj (Option.some.inj hact)
    exact .handle _ _
  · obtain ⟨⟨g₁, p₁⟩, hqueue, hnext⟩ := Option.map_eq_some_iff.mp hact
    obtain ⟨rfl, rfl⟩ := Prod.mk.inj hnext
    obtain ⟨b, q, hb, hmove, rfl⟩ := actQueue_eq_some hqueue
    exact .pop hb hmove
  · obtain ⟨rfl, rfl⟩ := Prod.mk.inj (Option.some.inj hact)
    exact .setPipe _ _
  · obtain ⟨rfl, rfl⟩ := Prod.mk.inj (Option.some.inj hact)
    exact .connect _ _ _
  · obtain ⟨rfl, rfl⟩ := Prod.mk.inj (Option.some.inj hact)
    exact .refuse _ _
  · obtain ⟨rfl, rfl⟩ := Prod.mk.inj (Option.some.inj hact)
    exact .setConnected _ _
  · obtain ⟨rfl, rfl⟩ := Prod.mk.inj (Option.some.inj hact)
    exact .notified
  · obtain ⟨rfl, rfl⟩ := Prod.mk.inj (Option.some.inj hact)
    exact .clearConnected
  · split at hact
    · rename_i hpipe
      obtain ⟨rfl, rfl⟩ := Prod.mk.inj (Option.some.inj hact)
      exact .notOpen hpipe
    · rename_i hpipe
      obtain ⟨rfl, rfl⟩ := Prod.mk.inj (Option.some.inj hact)
      exact .close hpipe
  · split at hact
    · rename_i hpipe
      obtain ⟨rfl, rfl⟩ := Prod.mk.inj (Option.some.inj hact)
      exact .drop hpipe _
    · rename_i hpipe
      obtain ⟨rfl, rfl⟩ := Prod.mk.inj (Option.some.inj hact)
      exact .write hpipe _
  · exact .call hact
  · obtain ⟨rfl, rfl⟩ := Prod.mk.inj (Option.some.inj hact)
    exact .leave _
  · obtain ⟨⟨g₁, p₁⟩, hqueue, hnext⟩ := Option.map_eq_some_iff.mp hact
    obtain ⟨rfl, rfl⟩ := Prod.mk.inj hnext
    obtain ⟨b, q, hb, hmove, rfl⟩ := actQueue_eq_some hqueue
    exact .push hb hmove
  · obtain ⟨rfl, rfl⟩ := Prod.mk.inj (Option.some.inj hact)
    exact .terminateAndWait
  · obtain ⟨⟨thread, p₁⟩, hthread, hnext⟩ := Option.map_eq_some_iff.mp hact
    obtain ⟨rfl, rfl⟩ := Prod.mk.inj hnext
    exact .terminate (SimpleThread.act_moves hthread)
  · cases hact

end

/-! ## Views of a point -/

section

variable {κ : Type*} [DecidableEq κ]

/-- The task that the worker is at. -/
def Point.hand : Point → List PipeTask
  | .popping (.popped _ (some task)) => [task]
  | .opening handle pipe | .connecting handle pipe | .refused handle pipe
  | .connected handle pipe => [.taskOpen handle pipe]
  | .closing | .flushing => [.taskClose]
  | .sending message => [.taskSend message]
  | _ => []

/-- The task that a client is about to queue. -/
def Point.holds : Point → List PipeTask
  | .client _ (.push task) | .client _ (.enqueue task) => [task]
  | _ => []

/-- The number of the `send` that a client is in. -/
def Point.sends : Point → Option ℕ
  | .client sends _ => sends
  | _ => none

/-- The worker is in no function of the queue but `pop`. -/
def Point.isWorker : Point → Bool
  | .popping (.pop _) | .popping (.test _) | .popping (.wait _) | .popping (.asleep _)
  | .popping (.check _) | .popping (.popped _ _) => true
  | .popping _ | .client _ _ | .opened | .terminating _ => false
  | _ => true

/-- A client is between two calls or in a `push`. -/
def Point.isClient : Point → Bool
  | .client _ p => p.inPush
  | _ => false

def Point.isCloser : Point → Bool
  | .opened | .terminating _ => true
  | _ => false

/-- The numbers of the calls that added the tasks. -/
def serials (tasks : List PipeTask) : List ℕ := tasks.filterMap PipeTask.serial

/-- The messages among the tasks. -/
def messages (tasks : List PipeTask) : List Message :=
  tasks.filterMap fun
    | .taskSend message => some message
    | _ => none

variable {t : Worker.Party κ} {g g' : PipeSender κ} {p p' : Point} {a : Action}

@[simp] theorem hand_handler (task : PipeTask) : (handler task).hand = [task] := by
  cases task <;> rfl

theorem isWorker_handler (task : PipeTask) : (handler task).isWorker = true := by
  cases task <;> rfl

/-- What the worker does to the tasks: it moves them on. -/
theorem Moves.worker_cases (hmove : Moves t g p a g' p') (hworker : p.isWorker = true) :
    p'.isWorker = true ∧ g'.calls = g.calls ∧ g'.returned = g.returned ∧
      g'.queue.pushed = g.queue.pushed ∧
      g'.processed.map Prod.fst ++ p'.hand ++ g'.queue.queue =
        g.processed.map Prod.fst ++ p.hand ++ g.queue.queue := by
  cases hmove with
  | check | stop | setPipe | notified | clearConnected => exact ⟨rfl, rfl, rfl, rfl, rfl⟩
  | handle overload task =>
      exact ⟨isWorker_handler task, rfl, rfl, rfl, by rw [hand_handler]; rfl⟩
  | pop hb hmove =>
      cases hmove with
      | call _ call => exact absurd rfl (hb call)
      | take hqueue => exact ⟨rfl, rfl, rfl, rfl, by simp [Point.hand, hqueue]⟩
      | lockPush | enqueue | unlock | notify | setFlag | notifyTerminated => cases hworker
      | _ => exact ⟨rfl, rfl, rfl, rfl, rfl⟩
  | connect handle pipe succeeds => cases succeeds <;> exact ⟨rfl, rfl, rfl, rfl, rfl⟩
  | setConnected handle pipe =>
      split <;> exact ⟨rfl, rfl, rfl, rfl, by simp [finish, Point.hand]⟩
  | refuse | notOpen | close | drop | write =>
      exact ⟨rfl, rfl, rfl, rfl, by simp [finish, closeHandle, PipeSender.write, Point.hand]⟩
  | _ => cases hworker

/-- What a client does: it numbers a call, queues the task, and ends the call. -/
inductive ClientMoves (g g' : PipeSender κ) (p p' : Point) : Prop
  | quiet (hqueue : g'.queue.pushed = g.queue.pushed ∧ g'.queue.queue = g.queue.queue)
      (hcalls : g'.calls = g.calls) (hreturned : g'.returned = g.returned)
      (hholds : p'.holds = p.holds) (hsends : p'.sends = p.sends ∨ p'.sends = none)
  | begins {task : PipeTask} (hqueue : g'.queue = g.queue) (hreturned : g'.returned = g.returned)
      (hholds : p.holds = [] ∧ p'.holds = [task])
      (hcalls : task.serial = none ∧ g'.calls = g.calls ∨
        task.serial = some g.calls ∧ g'.calls = g.calls + 1)
      (hsends : ∀ n, p'.sends = some n → task.serial = some n)
      (hearlier : ∀ m, task = .taskSend m → m.earlier = g.returned)
  | queues {task : PipeTask} (hpushed : g'.queue.pushed = g.queue.pushed ++ [task])
      (hqueue : g'.queue.queue = g.queue.queue ++ [task]) (hcalls : g'.calls = g.calls)
      (hreturned : g'.returned = g.returned)
      (hholds : p.holds = [task] ∧ p'.holds = []) (hsends : p'.sends = p.sends)
  | returns {n : ℕ} (hqueue : g'.queue = g.queue) (hcalls : g'.calls = g.calls)
      (hreturned : g'.returned = g.returned ++ [n]) (hholds : p.holds = [] ∧ p'.holds = [])
      (hsends : p.sends = some n ∧ p'.sends = none)

theorem Moves.client_cases (hmove : Moves t g p a g' p') (hclient : p.isClient = true) :
    p'.isClient = true ∧ g'.processed = g.processed ∧ g'.pipe = g.pipe ∧ g'.writes = g.writes ∧
      ClientMoves g g' p p' := by
  cases hmove with
  | @call call _ _ henter =>
      unfold enter at henter
      split at henter
      · obtain ⟨rfl, rfl⟩ := Prod.mk.inj (Option.some.inj henter)
        exact ⟨rfl, rfl, rfl, rfl, .quiet ⟨rfl, rfl⟩ rfl rfl rfl (Or.inl rfl)⟩
      · split at henter
        · obtain ⟨rfl, rfl⟩ := Prod.mk.inj (Option.some.inj henter)
          exact ⟨rfl, rfl, rfl, rfl, .begins rfl rfl ⟨rfl, rfl⟩ (Or.inr ⟨rfl, rfl⟩) nofun nofun⟩
        · cases henter
      · obtain ⟨rfl, rfl⟩ := Prod.mk.inj (Option.some.inj henter)
        exact ⟨rfl, rfl, rfl, rfl, .begins rfl rfl ⟨rfl, rfl⟩ (Or.inl ⟨rfl, rfl⟩) nofun nofun⟩
      · split at henter
        · obtain ⟨rfl, rfl⟩ := Prod.mk.inj (Option.some.inj henter)
          refine ⟨rfl, rfl, rfl, rfl, .begins rfl rfl ⟨rfl, rfl⟩ (Or.inr ⟨rfl, rfl⟩) ?_ ?_⟩
          · intro n hn
            exact hn
          · rintro m hm
            cases hm
            rfl
        · obtain ⟨rfl, rfl⟩ := Prod.mk.inj (Option.some.inj henter)
          exact ⟨rfl, rfl, rfl, rfl, .quiet ⟨rfl, rfl⟩ rfl rfl rfl (Or.inl rfl)⟩
      · obtain ⟨rfl, rfl⟩ := Prod.mk.inj (Option.some.inj henter)
        exact ⟨rfl, rfl, rfl, rfl, .quiet ⟨rfl, rfl⟩ rfl rfl rfl (Or.inl rfl)⟩
  | leave serial => exact ⟨rfl, rfl, rfl, rfl, .returns rfl rfl rfl ⟨rfl, rfl⟩ ⟨rfl, rfl⟩⟩
  | push hb hmove =>
      cases hmove with
      | call _ call => exact absurd rfl (hb call)
      | enqueue task => exact ⟨rfl, rfl, rfl, rfl, .queues rfl rfl rfl rfl ⟨rfl, rfl⟩ rfl⟩
      | lockPush | unlock | notify =>
          exact ⟨rfl, rfl, rfl, rfl, .quiet ⟨rfl, rfl⟩ rfl rfl rfl (Or.inl rfl)⟩
      | _ => cases hclient
  | _ => cases hclient

/-- The closer does nothing to the tasks. -/
theorem Moves.closer_cases (hmove : Moves t g p a g' p') (hcloser : p.isCloser = true) :
    p'.isCloser = true ∧ ∃ thread, g' = { g with thread := thread } := by
  cases hmove with
  | terminateAndWait => exact ⟨rfl, g.thread, rfl⟩
  | terminate => exact ⟨rfl, _, rfl⟩
  | _ => cases hcloser

end

/-! ## The tasks on their way -/

section

variable {κ : Type*} [DecidableEq κ]

theorem serials_append (first second : List PipeTask) :
    serials (first ++ second) = serials first ++ serials second :=
  List.filterMap_append

theorem messages_append (first second : List PipeTask) :
    messages (first ++ second) = messages first ++ messages second :=
  List.filterMap_append

@[simp] theorem mem_serials_singleton {task : PipeTask} {n : ℕ} :
    n ∈ serials [task] ↔ task.serial = some n := by
  simp [serials]

@[simp] theorem mem_messages {tasks : List PipeTask} {m : Message} :
    m ∈ messages tasks ↔ .taskSend m ∈ tasks := by
  rw [messages, List.mem_filterMap]
  constructor
  · rintro ⟨task, htask, hm⟩
    cases task with
    | taskSend message =>
        cases hm
        exact htask
    | taskOpen | taskClose => cases hm
  · intro hm
    exact ⟨_, hm, rfl⟩

theorem serials_singleton_nodup (task : PipeTask) : (serials [task]).Nodup := by
  cases task with
  | taskClose => exact List.nodup_nil
  | _ => exact List.nodup_singleton _

/-- What holds of the queue and all points in every run.

A call gets its number before its task is queued, so a task that is about to be queued is
not behind any that was sent after its call had returned: `earlier` keeps the numbers that a
message was sent after among the queued ones. -/
structure Queued (g : PipeSender κ) (points : Worker.Party κ → Point) : Prop where
  worker : (points .worker).isWorker = true
  clients : ∀ k, (points (.client k)).isClient = true
  closer : (points .closer).isCloser = true
  fifo : g.queue.pushed = g.processed.map Prod.fst ++ (points .worker).hand ++ g.queue.queue
  nodup : (serials g.queue.pushed).Nodup
  below : ∀ n ∈ serials g.queue.pushed, n < g.calls
  held : ∀ k, ∀ n ∈ serials (points (.client k)).holds,
    n < g.calls ∧ n ∉ serials g.queue.pushed
  apart : ∀ j k n, n ∈ serials (points (.client j)).holds →
    n ∈ serials (points (.client k)).holds → j = k
  earlier : ∀ m, .taskSend m ∈ g.queue.pushed ∨
    (∃ k, .taskSend m ∈ (points (.client k)).holds) → ∀ n ∈ m.earlier, n ∈ serials g.queue.pushed
  returned : ∀ n ∈ g.returned, n ∈ serials g.queue.pushed
  sends : ∀ k n, (points (.client k)).sends = some n →
    n ∈ serials g.queue.pushed ∨ n ∈ serials (points (.client k)).holds
  inOrder : (messages g.queue.pushed).Pairwise fun m m' => m'.serial ∉ m.earlier

variable {t : Worker.Party κ} {g g' : PipeSender κ} {p p' : Point} {a : Action}
  {points : Worker.Party κ → Point}

omit [DecidableEq κ] in
/-- Where the clients stay, only the classes of the points and the order of the queue are at
stake. -/
theorem Queued.of_clients {points' : Worker.Party κ → Point} (h : Queued g points)
    (hclients : ∀ k, points' (.client k) = points (.client k))
    (hcalls : g'.calls = g.calls) (hreturned : g'.returned = g.returned)
    (hpushed : g'.queue.pushed = g.queue.pushed)
    (hworker : (points' .worker).isWorker = true) (hcloser : (points' .closer).isCloser = true)
    (hfifo : g.queue.pushed =
      g'.processed.map Prod.fst ++ (points' .worker).hand ++ g'.queue.queue) :
    Queued g' points' := by
  constructor
  case worker => exact hworker
  case closer => exact hcloser
  all_goals simp only [hclients, hpushed, hcalls, hreturned]
  case fifo => exact hfifo
  case clients => exact h.clients
  case nodup => exact h.nodup
  case below => exact h.below
  case held => exact h.held
  case apart => exact h.apart
  case earlier => exact h.earlier
  case returned => exact h.returned
  case sends => exact h.sends
  case inOrder => exact h.inOrder

theorem queued_worker (h : Queued g points) (hp : points .worker = p)
    (hmove : Moves .worker g p a g' p') : Queued g' (Function.update points .worker p') := by
  obtain ⟨hworker, hcalls, hreturned, hpushed, hmoved⟩ := hmove.worker_cases (hp ▸ h.worker)
  refine h.of_clients (fun k => Worker.Party.update_worker_client points p' k) hcalls hreturned
    hpushed ?_ ?_ ?_
  · rw [Function.update_self]
    exact hworker
  · rw [Function.update_of_ne (by simp)]
    exact h.closer
  · rw [Function.update_self, hmoved, ← hp]
    exact h.fifo

theorem queued_closer (h : Queued g points) (hp : points .closer = p)
    (hmove : Moves .closer g p a g' p') : Queued g' (Function.update points .closer p') := by
  obtain ⟨hcloser, thread, rfl⟩ := hmove.closer_cases (hp ▸ h.closer)
  refine h.of_clients (fun k => Worker.Party.update_closer_client points p' k) rfl rfl rfl ?_ ?_ ?_
  · rw [Worker.Party.update_closer_worker]
    exact h.worker
  · rw [Function.update_self]
    exact hcloser
  · rw [Worker.Party.update_closer_worker]
    exact h.fifo

/-- A step queues tasks of those that are held, no number twice and at most one message. -/
structure Queues (g g' : PipeSender κ) (holds tasks : List PipeTask) : Prop where
  pushed : g'.queue.pushed = g.queue.pushed ++ tasks
  queue : g'.queue.queue = g.queue.queue ++ tasks
  held : tasks ⊆ holds
  nodup : (serials tasks).Nodup
  one : (messages tasks).length ≤ 1

omit [DecidableEq κ] in
theorem queues_nil {holds : List PipeTask} (hpushed : g'.queue.pushed = g.queue.pushed)
    (hqueue : g'.queue.queue = g.queue.queue) : Queues g g' holds [] where
  pushed := hpushed.trans (List.append_nil _).symm
  queue := hqueue.trans (List.append_nil _).symm
  held := List.nil_subset _
  nodup := List.nodup_nil
  one := Nat.zero_le _

omit [DecidableEq κ] in
theorem Queues.serials_pushed {holds tasks : List PipeTask} (h : Queues g g' holds tasks) :
    serials g'.queue.pushed = serials g.queue.pushed ++ serials tasks := by
  rw [h.pushed, serials_append]

omit [DecidableEq κ] in
/-- A number that is held has been given out and is not queued yet. -/
theorem Queued.fresh {k : κ} {tasks : List PipeTask} (h : Queued g points)
    (hheld : tasks ⊆ (points (.client k)).holds) :
    ∀ n ∈ serials tasks, n < g.calls ∧ n ∉ serials g.queue.pushed :=
  fun n hn => h.held k n (List.filterMap_subset _ hheld hn)

omit [DecidableEq κ] in
/-- What was sent before a queued message was sent was queued before it. -/
theorem Queued.inOrder_queues {k : κ} {tasks : List PipeTask} (h : Queued g points)
    (hqueues : Queues g g' (points (.client k)).holds tasks) :
    (messages g'.queue.pushed).Pairwise fun m m' => m'.serial ∉ m.earlier := by
  rw [hqueues.pushed, messages_append, List.pairwise_append]
  refine ⟨h.inOrder, ?_, ?_⟩
  · match messages tasks, hqueues.one with
    | [], _ => exact List.Pairwise.nil
    | [m], _ => exact List.pairwise_singleton _ m
  · intro m hm m' hm' hserial
    have hqueued := h.earlier m (Or.inl (mem_messages.mp hm)) m'.serial hserial
    refine (h.fresh hqueues.held m'.serial ?_).2 hqueued
    exact List.mem_filterMap.mpr ⟨.taskSend m', mem_messages.mp hm', rfl⟩

/-- The fields that a client's own point decides, with the points of the others as they
were. -/
theorem Queued.of_client {k : κ} {tasks : List PipeTask} (h : Queued g points)
    (hprocessed : g'.processed = g.processed) (hclient : p'.isClient = true)
    (hqueues : Queues g g' (points (.client k)).holds tasks)
    (hcalls : g.calls ≤ g'.calls)
    (hheld : ∀ n ∈ serials p'.holds, n < g'.calls ∧ n ∉ serials g'.queue.pushed)
    (hapart : ∀ n ∈ serials p'.holds, n ∈ serials (points (.client k)).holds ∨ g.calls ≤ n)
    (hearlier : ∀ m, .taskSend m ∈ p'.holds → ∀ n ∈ m.earlier, n ∈ serials g'.queue.pushed)
    (hreturned : ∀ n ∈ g'.returned, n ∈ serials g'.queue.pushed)
    (hsends : ∀ n, p'.sends = some n → n ∈ serials g'.queue.pushed ∨ n ∈ serials p'.holds) :
    Queued g' (Function.update points (.client k) p') := by
  have hserials := hqueues.serials_pushed
  have hself : Function.update points (.client k) p' (.client k) = p' := Function.update_self ..
  have hother : ∀ j, j ≠ k →
      Function.update points (.client k) p' (.client j) = points (.client j) :=
    fun j hne => Function.update_of_ne (by simpa using hne) _ _
  have hmono : ∀ n ∈ serials g.queue.pushed, n ∈ serials g'.queue.pushed := by
    intro n hn
    rw [hserials]
    exact List.mem_append_left _ hn
  have hheld' : ∀ n ∈ serials tasks, n ∈ serials (points (.client k)).holds :=
    fun n hn => List.filterMap_subset _ hqueues.held hn
  have hfresh := h.fresh hqueues.held
  have hbefore : ∀ j n, n ∈ serials (Function.update points (.client k) p' (.client j)).holds →
      n ∈ serials (points (.client j)).holds ∨ j = k ∧ g.calls ≤ n := by
    intro j n hn
    rcases eq_or_ne j k with rfl | hne
    · rw [hself] at hn
      exact (hapart n hn).imp_right fun hcalls => ⟨rfl, hcalls⟩
    · rw [hother j hne] at hn
      exact Or.inl hn
  constructor
  case worker =>
    rw [Worker.Party.update_client_worker]
    exact h.worker
  case clients =>
    intro j
    apply at_update (P := (Point.isClient · = true))
    · exact fun _ => hclient
    · exact fun _ => h.clients j
  case closer =>
    rw [Function.update_of_ne (by simp)]
    exact h.closer
  case fifo =>
    rw [Worker.Party.update_client_worker, hqueues.pushed, hqueues.queue, hprocessed, h.fifo]
    simp
  case nodup =>
    rw [hserials, List.nodup_append']
    refine ⟨h.nodup, hqueues.nodup, ?_⟩
    intro n hn hn'
    exact (hfresh n hn').2 hn
  case below =>
    intro n hn
    rw [hserials, List.mem_append] at hn
    rcases hn with hn | hn
    · exact (h.below n hn).trans_le hcalls
    · exact (hfresh n hn).1.trans_le hcalls
  case held =>
    intro j n hn
    rcases eq_or_ne j k with rfl | hne
    · rw [hself] at hn
      exact hheld n hn
    · rw [hother j hne] at hn
      obtain ⟨hlt, hnot⟩ := h.held j n hn
      refine ⟨hlt.trans_le hcalls, ?_⟩
      rw [hserials, List.mem_append, not_or]
      exact ⟨hnot, fun hn' => hne (h.apart j k n hn (hheld' n hn'))⟩
  case apart =>
    intro i j n hi hj
    rcases hbefore i n hi with hi' | ⟨rfl, hcalls⟩
    · rcases hbefore j n hj with hj' | ⟨rfl, hcalls⟩
      · exact h.apart i j n hi' hj'
      · exact absurd (h.held i n hi').1 (not_lt.mpr hcalls)
    · rcases hbefore j n hj with hj' | ⟨rfl, -⟩
      · exact absurd (h.held j n hj').1 (not_lt.mpr hcalls)
      · rfl
  case earlier =>
    rintro m (hm | ⟨j, hm⟩) n hn
    · rw [hqueues.pushed, List.mem_append] at hm
      rcases hm with hm | hm
      · exact hmono n (h.earlier m (Or.inl hm) n hn)
      · exact hmono n (h.earlier m (Or.inr ⟨k, hqueues.held hm⟩) n hn)
    · rcases eq_or_ne j k with rfl | hne
      · rw [hself] at hm
        exact hearlier m hm n hn
      · rw [hother j hne] at hm
        exact hmono n (h.earlier m (Or.inr ⟨j, hm⟩) n hn)
  case returned => exact hreturned
  case sends =>
    intro j n hn
    rcases eq_or_ne j k with rfl | hne
    · rw [hself] at hn ⊢
      exact hsends n hn
    · rw [hother j hne] at hn ⊢
      exact (h.sends j n hn).imp_left (hmono n)
  case inOrder => exact h.inOrder_queues hqueues

theorem queued_client {k : κ} (h : Queued g points) (hp : points (.client k) = p)
    (hmove : Moves (.client k) g p a g' p') :
    Queued g' (Function.update points (.client k) p') := by
  obtain ⟨hclient, hprocessed, -, -, hcases⟩ := hmove.client_cases (hp ▸ h.clients k)
  have hheld := h.held k
  have hsends := h.sends k
  have hearlier : ∀ m, .taskSend m ∈ (points (.client k)).holds → ∀ n ∈ m.earlier,
      n ∈ serials g.queue.pushed := fun m hm => h.earlier m (Or.inr ⟨k, hm⟩)
  rw [hp] at hheld hsends hearlier
  cases hcases with
  | quiet hqueue hcalls hreturned hholds hsends' =>
      obtain ⟨hpushed, hqueue⟩ := hqueue
      refine h.of_client hprocessed hclient (queues_nil hpushed hqueue) hcalls.ge ?_ ?_ ?_ ?_ ?_
      · rw [hholds, hcalls, hpushed]
        exact hheld
      · rw [hholds, hp]
        exact fun n hn => Or.inl hn
      · rw [hholds, hpushed]
        exact hearlier
      · rw [hreturned, hpushed]
        exact h.returned
      · rw [hholds, hpushed]
        rcases hsends' with hsame | hnone
        · rw [hsame]
          exact hsends
        · rw [hnone]
          nofun
  | @begins task hqueue hreturned hholds hcalls hsends' hearlier' =>
      have hnumber : ∀ n, task.serial = some n → n = g.calls ∧ g'.calls = g.calls + 1 := by
        intro n hn
        rcases hcalls with ⟨hnone, -⟩ | ⟨hsome, hcalls⟩
        · rw [hnone] at hn
          cases hn
        · rw [hsome] at hn
          exact ⟨(Option.some.inj hn).symm, hcalls⟩
      have hqueues : Queues g g' (points (.client k)).holds [] :=
        queues_nil (hqueue ▸ rfl) (hqueue ▸ rfl)
      refine h.of_client hprocessed hclient hqueues ?_ ?_ ?_ ?_ ?_ ?_
      · rcases hcalls with ⟨-, hcalls⟩ | ⟨-, hcalls⟩ <;> omega
      · intro n hn
        rw [hholds.2, mem_serials_singleton] at hn
        obtain ⟨rfl, hcalls⟩ := hnumber n hn
        rw [hqueue]
        exact ⟨by omega, fun hmem => lt_irrefl _ (h.below _ hmem)⟩
      · intro n hn
        rw [hholds.2, mem_serials_singleton] at hn
        exact Or.inr (hnumber n hn).1.ge
      · intro m hm n hn
        rw [hholds.2, List.mem_singleton] at hm
        rw [hearlier' m hm.symm] at hn
        rw [hqueue]
        exact h.returned n hn
      · rw [hreturned, hqueue]
        exact h.returned
      · intro n hn
        rw [hholds.2, mem_serials_singleton]
        exact Or.inr (hsends' n hn)
  | @queues task hpushed hqueue hcalls hreturned hholds hsends' =>
      have hmono : ∀ n ∈ serials g.queue.pushed, n ∈ serials g'.queue.pushed := by
        intro n hn
        rw [hpushed, serials_append]
        exact List.mem_append_left _ hn
      have hqueues : Queues g g' (points (.client k)).holds [task] := by
        rw [hp, hholds.1]
        exact ⟨hpushed, hqueue, fun _ htask => htask, serials_singleton_nodup task,
          List.length_filterMap_le _ _⟩
      refine h.of_client hprocessed hclient hqueues hcalls.ge ?_ ?_ ?_ ?_ ?_
      · rw [hholds.2]
        nofun
      · rw [hholds.2]
        nofun
      · rw [hholds.2]
        nofun
      · rw [hreturned]
        exact fun n hn => hmono n (h.returned n hn)
      · rw [hsends']
        intro n hn
        rcases hsends n hn with hqueued | hheld
        · exact Or.inl (hmono n hqueued)
        · rw [hholds.1] at hheld
          rw [hpushed, serials_append]
          exact Or.inl (List.mem_append_right _ hheld)
  | @returns n hqueue hcalls hreturned hholds hsends' =>
      have hqueues : Queues g g' (points (.client k)).holds [] :=
        queues_nil (hqueue ▸ rfl) (hqueue ▸ rfl)
      refine h.of_client hprocessed hclient hqueues hcalls.ge ?_ ?_ ?_ ?_ ?_
      · rw [hholds.2]
        nofun
      · rw [hholds.2]
        nofun
      · rw [hholds.2]
        nofun
      · intro n' hn'
        rw [hreturned, List.mem_append, List.mem_singleton] at hn'
        rw [hqueue]
        rcases hn' with hn' | rfl
        · exact h.returned n' hn'
        · rcases hsends n' hsends'.1 with hqueued | hheld
          · exact hqueued
          · rw [hholds.1] at hheld
            cases hheld
      · rw [hsends'.2]
        nofun

end

/-! ## The pipe and its session -/

section

variable {κ : Type*}

/-- A pipe that is connected is a session; one that is refused ends the session before it, as
a close does. -/
def toSession : PipeTask × Bool → SessionTask ℕ Message
  | (.taskOpen _ pipe, true) => .enter pipe
  | (.taskOpen _ _, false) => .leave
  | (.taskClose, _) => .leave
  | (.taskSend message, _) => .message message

/-- The tasks that the worker is through with, as tasks of sessions. -/
def sessionTasks (g : PipeSender κ) : List (SessionTask ℕ Message) := g.processed.map toSession

/-- `pipe_` is the pipe of the present session. -/
def InSession (g : PipeSender κ) : Prop :=
  match SessionTask.current (sessionTasks g) with
  | none => g.pipe = INVALID_HANDLE_VALUE
  | some pipe => g.pipe ≠ INVALID_HANDLE_VALUE ∧ g.handles g.pipe = some pipe

/-- What `pipe_` is while the worker is at a point: in `do_open` it is ahead of the session. -/
def Point.Pipe (g : PipeSender κ) : Point → Prop
  | .connecting handle _ | .refused handle _ | .connected handle _ => g.pipe = handle
  | _ => InSession g

/-- The task is to come. -/
def Coming (g : PipeSender κ) (points : Worker.Party κ → Point) (task : PipeTask) : Prop :=
  task ∈ g.queue.queue ∨ ∃ k, task ∈ (points (.client k)).holds

/-- What holds of the pipes and the written messages in every run. -/
structure Carried (g : PipeSender κ) (points : Worker.Party κ → Point) : Prop where
  pending : ∀ handle pipe, .taskOpen handle pipe ∈ (points .worker).hand ∨
    Coming g points (.taskOpen handle pipe) →
      g.handles handle = some pipe ∧ handle ≠ INVALID_HANDLE_VALUE
  session : (points .worker).Pipe g
  writes : g.writes = SessionTask.delivered (sessionTasks g)

variable {t : Worker.Party κ} {g g' : PipeSender κ} {p p' : Point} {a : Action}
  {points : Worker.Party κ → Point}

theorem sessionTasks_of_finish {task : PipeTask} {connected : Bool}
    (hprocessed : g'.processed = g.processed ++ [(task, connected)]) :
    sessionTasks g' = sessionTasks g ++ [toSession (task, connected)] := by
  rw [sessionTasks, hprocessed, List.map_append]
  rfl

theorem current_of_finish {task : PipeTask} {connected : Bool}
    (hprocessed : g'.processed = g.processed ++ [(task, connected)]) :
    SessionTask.current (sessionTasks g') =
      SessionTask.after (SessionTask.current (sessionTasks g)) (toSession (task, connected)) := by
  rw [sessionTasks_of_finish hprocessed, SessionTask.current_concat]

theorem inSession_iff : InSession g ↔
    (g.pipe = INVALID_HANDLE_VALUE ∧ SessionTask.current (sessionTasks g) = none) ∨
      ∃ pipe, (g.pipe ≠ INVALID_HANDLE_VALUE ∧ g.handles g.pipe = some pipe) ∧
        SessionTask.current (sessionTasks g) = some pipe := by
  unfold InSession
  cases SessionTask.current (sessionTasks g) <;> simp

/-- The session is that of a processed task. -/
theorem mem_serials_of_current {pipe : ℕ}
    (hcurrent : SessionTask.current (sessionTasks g) = some pipe) :
    pipe ∈ serials (g.processed.map Prod.fst) := by
  obtain ⟨past, task, future, hsplit, rfl, -⟩ := SessionTask.current_eq_some_iff.mp hcurrent
  have hmem : SessionTask.enter pipe ∈ sessionTasks g := by
    rw [hsplit]
    simp
  obtain ⟨⟨task, connected⟩, hprocessed, htask⟩ := List.mem_map.mp hmem
  refine List.mem_filterMap.mpr ⟨task, List.mem_map_of_mem hprocessed, ?_⟩
  cases task with
  | taskOpen handle pipe' =>
      cases connected with
      | true =>
          cases htask
          rfl
      | false => cases htask
  | taskClose | taskSend => cases htask

/-- A pipe to come is none that the worker is through with or at. -/
theorem Coming.fresh {handle : ℤ} {pipe pipe' : ℕ} (hqueued : Queued g points)
    (hcoming : Coming g points (.taskOpen handle pipe))
    (hpipe' : pipe' ∈ serials (g.processed.map Prod.fst ++ (points .worker).hand)) :
    pipe' ≠ pipe := by
  rintro rfl
  have hfifo := congrArg serials hqueued.fifo
  rw [serials_append] at hfifo
  rcases hcoming with hqueue | ⟨k, hheld⟩
  · have hnodup := hqueued.nodup
    rw [hfifo, List.nodup_append'] at hnodup
    exact hnodup.2.2 hpipe' (List.mem_filterMap.mpr ⟨_, hqueue, rfl⟩)
  · refine (hqueued.held k pipe' (List.mem_filterMap.mpr ⟨_, hheld, rfl⟩)).2 ?_
    rw [hfifo]
    exact List.mem_append_left _ hpipe'

/-- Closing a pipe leaves those to come alone. -/
theorem pending_closeHandle {handle : ℤ} {pipe pipe' : ℕ} (hqueued : Queued g points)
    (h : Carried g points) (hcoming : Coming g points (.taskOpen handle pipe))
    (hhandle : g.handles g.pipe = some pipe')
    (hpipe' : pipe' ∈ serials (g.processed.map Prod.fst ++ (points .worker).hand)) :
    g.closeHandle.handles handle = some pipe ∧ handle ≠ INVALID_HANDLE_VALUE := by
  obtain ⟨hpending, hvalid⟩ := h.pending handle pipe (Or.inr hcoming)
  refine ⟨?_, hvalid⟩
  have hne : handle ≠ g.pipe := by
    rintro rfl
    rw [hhandle, Option.some.injEq] at hpending
    exact hcoming.fresh hqueued hpipe' hpending
  exact (Function.update_of_ne hne _ _).trans hpending

variable [DecidableEq κ]

/-- The worker goes on without changing pipes or sessions. -/
theorem carried_of_same (hqueued : Queued g points) (h : Carried g points)
    (hqueued' : Queued g' (Function.update points .worker p'))
    (hhandles : g'.handles = g.handles) (hprocessed : g'.processed = g.processed)
    (hpushed : g'.queue.pushed = g.queue.pushed) (hwrites : g'.writes = g.writes)
    (hpipe : p'.Pipe g') : Carried g' (Function.update points .worker p') := by
  -- the tasks behind those that are processed are the same
  have htasks : p'.hand ++ g'.queue.queue = (points .worker).hand ++ g.queue.queue := by
    have hfifo := hqueued'.fifo
    rw [Function.update_self, hpushed, hprocessed, hqueued.fifo, List.append_assoc,
      List.append_assoc, List.append_cancel_left_eq] at hfifo
    exact hfifo.symm
  refine ⟨?_, ?_, ?_⟩
  · intro handle pipe hpending
    rw [hhandles]
    refine h.pending handle pipe ?_
    simp only [Function.update_self, Coming, Worker.Party.update_worker_client] at hpending
    rw [← or_assoc, ← List.mem_append, htasks, List.mem_append, or_assoc] at hpending
    exact hpending
  · rw [Function.update_self]
    exact hpipe
  · rw [hwrites, sessionTasks, hprocessed]
    exact h.writes

/-- The worker is through with a task. -/
theorem carried_of_finish {task : PipeTask} {connected : Bool} (h : Carried g points)
    (hhand : p'.hand = []) (hqueue : g'.queue = g.queue)
    (hhandles : ∀ handle pipe, Coming g points (.taskOpen handle pipe) →
      g'.handles handle = some pipe ∧ handle ≠ INVALID_HANDLE_VALUE)
    (hprocessed : g'.processed = g.processed ++ [(task, connected)]) (hpipe : p'.Pipe g')
    (hwrites : g'.writes = g.writes ++
      SessionTask.deliver (SessionTask.current (sessionTasks g)) (toSession (task, connected))) :
    Carried g' (Function.update points .worker p') := by
  refine ⟨?_, ?_, ?_⟩
  · intro handle pipe hpending
    simp only [Function.update_self, hhand, List.not_mem_nil, false_or, Coming,
      Worker.Party.update_worker_client, hqueue] at hpending
    exact hhandles handle pipe hpending
  · rw [Function.update_self]
    exact hpipe
  · rw [hwrites, sessionTasks_of_finish hprocessed, SessionTask.delivered_concat, h.writes]

theorem carried_worker (hqueued : Queued g points) (h : Carried g points)
    (hp : points .worker = p) (hmove : Moves .worker g p a g' p') :
    Carried g' (Function.update points .worker p') := by
  have hqueued' := queued_worker hqueued hp hmove
  have hsession := h.session
  have hpending := h.pending
  have hworker := hqueued.worker
  rw [hp] at hsession hpending hworker
  have hcoming : ∀ handle pipe, Coming g points (.taskOpen handle pipe) →
      g.handles handle = some pipe ∧ handle ≠ INVALID_HANDLE_VALUE :=
    fun handle pipe hcoming => hpending handle pipe (Or.inr hcoming)
  cases hmove with
  | check | stop | notified | clearConnected =>
      exact carried_of_same hqueued h hqueued' rfl rfl rfl rfl hsession
  | handle overload task =>
      refine carried_of_same hqueued h hqueued' rfl rfl rfl rfl ?_
      cases task <;> exact hsession
  | pop hb hmove =>
      refine carried_of_same hqueued h hqueued' rfl rfl ?_ rfl hsession
      cases hmove with
      | enqueue => cases hworker
      | _ => rfl
  | setPipe handle pipe => exact carried_of_same hqueued h hqueued' rfl rfl rfl rfl rfl
  | connect handle pipe succeeds =>
      refine carried_of_same hqueued h hqueued' rfl rfl rfl rfl ?_
      cases succeeds <;> exact hsession
  | refuse handle pipe =>
      obtain ⟨hhandle, -⟩ := hpending handle pipe (Or.inl (by simp [Point.hand]))
      obtain rfl : g.pipe = handle := hsession
      refine carried_of_finish h rfl rfl ?_ rfl ?_ (List.append_nil _).symm
      · intro handle' pipe' hcoming'
        refine pending_closeHandle hqueued h hcoming' hhandle ?_
        rw [hp, serials_append]
        exact List.mem_append_right _ (by simp [Point.hand, PipeTask.serial])
      · refine inSession_iff.mpr (Or.inl ⟨rfl, ?_⟩)
        rw [current_of_finish rfl]
        rfl
  | setConnected handle pipe =>
      obtain ⟨hhandle, hvalid⟩ := hpending handle pipe (Or.inl (by simp [Point.hand]))
      obtain rfl : g.pipe = handle := hsession
      have hpipe :
          InSession ({ g with isConnected := true }.finish (.taskOpen g.pipe pipe) true) := by
        refine inSession_iff.mpr (Or.inr ⟨pipe, ⟨hvalid, hhandle⟩, ?_⟩)
        rw [current_of_finish (g := g) rfl]
        rfl
      refine carried_of_finish h ?_ rfl hcoming rfl ?_ (List.append_nil _).symm
      · split <;> rfl
      · split <;> exact hpipe
  | notOpen hpipe =>
      refine carried_of_finish h rfl rfl hcoming rfl ?_ (List.append_nil _).symm
      refine inSession_iff.mpr (Or.inl ⟨hpipe, ?_⟩)
      rw [current_of_finish rfl]
      rfl
  | close hpipe =>
      obtain ⟨hnone, -⟩ | ⟨pipe, ⟨-, hhandle⟩, hcurrent⟩ := inSession_iff.mp hsession
      · exact absurd hnone hpipe
      · refine carried_of_finish h rfl rfl ?_ rfl ?_ (List.append_nil _).symm
        · intro handle' pipe' hcoming'
          refine pending_closeHandle hqueued h hcoming' hhandle ?_
          rw [serials_append]
          exact List.mem_append_left _ (mem_serials_of_current hcurrent)
        · refine inSession_iff.mpr (Or.inl ⟨rfl, ?_⟩)
          rw [current_of_finish rfl]
          rfl
  | drop hpipe message =>
      obtain ⟨-, hcurrent⟩ | ⟨pipe, ⟨hvalid, -⟩, -⟩ := inSession_iff.mp hsession
      · refine carried_of_finish h rfl rfl hcoming rfl ?_ ?_
        · refine inSession_iff.mpr (Or.inl ⟨hpipe, ?_⟩)
          rw [current_of_finish rfl, hcurrent]
          rfl
        · rw [hcurrent]
          exact (List.append_nil _).symm
      · exact absurd hpipe hvalid
  | write hpipe message =>
      obtain ⟨hnone, -⟩ | ⟨pipe, hvalid, hcurrent⟩ := inSession_iff.mp hsession
      · exact absurd hnone hpipe
      · refine carried_of_finish h rfl rfl hcoming rfl ?_ ?_
        · refine inSession_iff.mpr (Or.inr ⟨pipe, hvalid, ?_⟩)
          rw [current_of_finish (g := g) rfl, hcurrent]
          rfl
        · rw [hcurrent]
          simp [finish, PipeSender.write, hvalid.2, toSession, SessionTask.deliver]
  | _ => cases hworker

/-- A client queues what it holds. -/
theorem Moves.client_queue (hmove : Moves t g p a g' p') (hclient : p.isClient = true)
    {task : PipeTask} (htask : task ∈ g'.queue.queue) : task ∈ g.queue.queue ∨ task ∈ p.holds := by
  obtain ⟨-, -, -, -, hcases⟩ := hmove.client_cases hclient
  cases hcases with
  | quiet hqueue => exact Or.inl (hqueue.2 ▸ htask)
  | begins hqueue | returns hqueue => exact Or.inl (hqueue ▸ htask)
  | queues hpushed hqueue hcalls hreturned hholds =>
      rw [hqueue, List.mem_append, ← hholds.1] at htask
      exact htask

/-- A client gets a handle that is not in use, for the pipe that it is to open. -/
theorem Moves.client_handles (hmove : Moves t g p a g' p') (hclient : p.isClient = true) :
    (g'.handles = g.handles ∧ ∀ handle pipe, .taskOpen handle pipe ∈ p'.holds →
      .taskOpen handle pipe ∈ p.holds) ∨
    ∃ handle, g.handles handle = none ∧ handle ≠ INVALID_HANDLE_VALUE ∧
      g'.handles = Function.update g.handles handle (some g.calls) ∧
      p'.holds = [.taskOpen handle g.calls] := by
  cases hmove with
  | call henter =>
      unfold enter at henter
      split at henter
      · obtain ⟨rfl, rfl⟩ := Prod.mk.inj (Option.some.inj henter)
        exact Or.inl ⟨rfl, fun _ _ h => h⟩
      · split at henter
        · rename_i handle hfree
          obtain ⟨rfl, rfl⟩ := Prod.mk.inj (Option.some.inj henter)
          exact Or.inr ⟨handle, hfree.1, hfree.2.1, rfl, rfl⟩
        · cases henter
      · obtain ⟨rfl, rfl⟩ := Prod.mk.inj (Option.some.inj henter)
        exact Or.inl ⟨rfl, by simp [Point.holds]⟩
      · split at henter
        · obtain ⟨rfl, rfl⟩ := Prod.mk.inj (Option.some.inj henter)
          exact Or.inl ⟨rfl, by simp [Point.holds]⟩
        · obtain ⟨rfl, rfl⟩ := Prod.mk.inj (Option.some.inj henter)
          exact Or.inl ⟨rfl, fun _ _ h => h⟩
      · obtain ⟨rfl, rfl⟩ := Prod.mk.inj (Option.some.inj henter)
        exact Or.inl ⟨rfl, fun _ _ h => h⟩
  | leave => exact Or.inl ⟨rfl, fun _ _ h => h⟩
  | push hb hmove =>
      cases hmove with
      | call _ call => exact absurd rfl (hb call)
      | lockPush | unlock | notify => exact Or.inl ⟨rfl, fun _ _ h => h⟩
      | enqueue => exact Or.inl ⟨rfl, by simp [Point.holds]⟩
      | _ => cases hclient
  | _ => cases hclient

omit [DecidableEq κ] in
theorem Point.Pipe.of_same {p : Point} (h : p.Pipe g) (hpipe : g'.pipe = g.pipe)
    (hprocessed : g'.processed = g.processed)
    (hhandles : ∀ pipe, g.handles g.pipe = some pipe → g'.handles g.pipe = some pipe) :
    p.Pipe g' := by
  have hsession : InSession g → InSession g' := by
    rw [inSession_iff, inSession_iff, hpipe, sessionTasks, sessionTasks, hprocessed]
    rintro (hnone | ⟨pipe, ⟨hvalid, hhandle⟩, hcurrent⟩)
    · exact Or.inl hnone
    · exact Or.inr ⟨pipe, ⟨hvalid, hhandles pipe hhandle⟩, hcurrent⟩
  cases p with
  | connecting | refused | connected => exact hpipe.trans h
  | _ => exact hsession h

theorem carried_client {k : κ} (hqueued : Queued g points) (h : Carried g points)
    (hp : points (.client k) = p) (hmove : Moves (.client k) g p a g' p') :
    Carried g' (Function.update points (.client k) p') := by
  have hclient := hp ▸ hqueued.clients k
  obtain ⟨-, hprocessed, hpipe, hwrites, -⟩ := hmove.client_cases hclient
  -- what is to be opened was so before, or has just been created
  have hbefore : ∀ handle pipe, (.taskOpen handle pipe ∈ (points .worker).hand ∨
      Coming g' (Function.update points (.client k) p') (.taskOpen handle pipe)) →
        .taskOpen handle pipe ∈ p'.holds ∨ .taskOpen handle pipe ∈ (points .worker).hand ∨
          Coming g points (.taskOpen handle pipe) := by
    rintro handle pipe (hhand | hqueue | ⟨j, hheld⟩)
    · exact Or.inr (Or.inl hhand)
    · rcases hmove.client_queue hclient hqueue with hqueue | hheld
      · exact Or.inr (Or.inr (Or.inl hqueue))
      · exact Or.inr (Or.inr (Or.inr ⟨k, hp ▸ hheld⟩))
    · rcases eq_or_ne j k with rfl | hne
      · rw [Function.update_self] at hheld
        exact Or.inl hheld
      · rw [Function.update_of_ne (by simpa using hne)] at hheld
        exact Or.inr (Or.inr (Or.inr ⟨j, hheld⟩))
  have hwrites' : g'.writes = SessionTask.delivered (sessionTasks g') := by
    rw [hwrites, sessionTasks, hprocessed]
    exact h.writes
  rcases hmove.client_handles hclient with
    ⟨hhandles, hholds⟩ | ⟨handle', hfree, hvalid, hhandles, hholds⟩
  · refine ⟨?_, ?_, hwrites'⟩
    · intro handle pipe hpending
      rw [Worker.Party.update_client_worker] at hpending
      rw [hhandles]
      rcases hbefore handle pipe hpending with hheld | hpending
      · exact h.pending handle pipe (Or.inr (Or.inr ⟨k, hp ▸ hholds handle pipe hheld⟩))
      · exact h.pending handle pipe hpending
    · rw [Worker.Party.update_client_worker]
      exact h.session.of_same hpipe hprocessed (fun pipe hhandle => hhandles ▸ hhandle)
  · have hkept : ∀ handle pipe, g.handles handle = some pipe → g'.handles handle = some pipe := by
      intro handle pipe hhandle
      have hne : handle ≠ handle' := by
        rintro rfl
        rw [hfree] at hhandle
        cases hhandle
      rw [hhandles, Function.update_of_ne hne]
      exact hhandle
    refine ⟨?_, ?_, hwrites'⟩
    · intro handle pipe hpending
      rw [Worker.Party.update_client_worker] at hpending
      rcases hbefore handle pipe hpending with hheld | hpending
      · rw [hholds, List.mem_singleton] at hheld
        cases hheld
        rw [hhandles, Function.update_self]
        exact ⟨rfl, hvalid⟩
      · obtain ⟨hhandle, hvalid'⟩ := h.pending handle pipe hpending
        exact ⟨hkept handle pipe hhandle, hvalid'⟩
    · rw [Worker.Party.update_client_worker]
      exact h.session.of_same hpipe hprocessed (hkept g.pipe)

theorem carried_closer (hqueued : Queued g points) (h : Carried g points)
    (hp : points .closer = p) (hmove : Moves .closer g p a g' p') :
    Carried g' (Function.update points .closer p') := by
  obtain ⟨-, thread, rfl⟩ := hmove.closer_cases (hp ▸ hqueued.closer)
  refine ⟨?_, ?_, h.writes⟩
  · simp only [Worker.Party.update_closer_worker, Coming, Worker.Party.update_closer_client]
    exact h.pending
  · rw [Worker.Party.update_closer_worker]
    exact h.session.of_same rfl rfl fun _ hhandle => hhandle

end

/-! ## All interleavings -/

section

variable {κ : Type*} [DecidableEq κ]

def start : Worker.Party κ → Point
  | .worker => .loop
  | .client _ => .client none .idle
  | .closer => .opened

variable (κ) in
def program : Program (Worker.Party κ) (PipeSender κ) Point Action where
  shared := {}
  points := start
  act := act

variable {inputs : List (Worker.Party κ × Action)}
  {s : Threads (Worker.Party κ) (PipeSender κ) Point}

theorem inv_run (hrun : (program κ).machine.run inputs = some s) :
    Queued s.shared s.points ∧ Carried s.shared s.points := by
  refine Program.invariant (I := fun g points => Queued g points ∧ Carried g points) ?_ ?_ hrun
  · refine ⟨⟨rfl, fun _ => rfl, rfl, rfl, List.nodup_nil, nofun, nofun, nofun, ?_, nofun, nofun,
      List.Pairwise.nil⟩, ⟨?_, rfl, rfl⟩⟩
    · rintro m (hm | ⟨k, hm⟩)
      · cases hm
      · cases hm
    · rintro handle pipe (hhand | hqueue | ⟨k, hheld⟩)
      · cases hhand
      · cases hqueue
      · cases hheld
  · rintro g points t a g' p ⟨hqueued, h⟩ hact
    have hmove := act_moves hact
    cases t with
    | worker => exact ⟨queued_worker hqueued rfl hmove, carried_worker hqueued h rfl hmove⟩
    | client k => exact ⟨queued_client hqueued rfl hmove, carried_client hqueued h rfl hmove⟩
    | closer => exact ⟨queued_closer hqueued rfl hmove, carried_closer hqueued h rfl hmove⟩

/-- The last open or close among the tasks is that of the pipe, and the pipe was connected. -/
def OpenedLast (pipe : ℕ) (tasks : List (PipeTask × Bool)) : Prop :=
  HeldSince (fun done => ∃ handle, done = (.taskOpen handle pipe, true))
    (fun done => done.1.isSend = true) tasks

/-- Messages keep their session and their order: the tasks are processed as they are queued; a
processed message is written to the pipe that was opened last before it, and nothing else is
written; nothing is written twice; what is written comes in the order of the queue, and not
behind a message whose call began after its own had returned. -/
structure KeepsSessions (g : PipeSender κ) : Prop where
  processed : g.processed.map Prod.fst <+: g.queue.pushed
  written_iff : ∀ front m connected back pipe,
    g.processed = front ++ (.taskSend m, connected) :: back →
      ((pipe, m) ∈ g.writes ↔ OpenedLast pipe front)
  written : ∀ pipe m, (pipe, m) ∈ g.writes → .taskSend m ∈ g.processed.map Prod.fst
  once : (g.writes.map fun write => write.2.serial).Nodup
  queued : (g.writes.map Prod.snd).Sublist (messages g.queue.pushed)
  inOrder : g.writes.Pairwise fun write write' => write'.2.serial ∉ write.2.earlier

omit [DecidableEq κ] in
theorem messages_sessionTasks (g : PipeSender κ) :
    SessionTask.messages (sessionTasks g) = messages (g.processed.map Prod.fst) := by
  rw [sessionTasks, SessionTask.messages, messages, List.filterMap_map, List.filterMap_map]
  refine List.filterMap_congr ?_
  rintro ⟨task, connected⟩ -
  cases task <;> cases connected <;> rfl

theorem map_serial_messages_sublist (tasks : List PipeTask) :
    ((messages tasks).map Message.serial).Sublist (serials tasks) := by
  induction tasks with
  | nil => exact List.Sublist.refl _
  | cons task tasks ih =>
      cases task with
      | taskOpen handle pipe => exact ih.cons pipe
      | taskClose => exact ih
      | taskSend message => exact ih.cons_cons message.serial

/-- The session after the tasks is that of the pipe that was opened last. -/
theorem current_iff_openedLast {tasks : List (PipeTask × Bool)} {pipe : ℕ} :
    SessionTask.current (tasks.map toSession) = some pipe ↔ OpenedLast pipe tasks := by
  have henter : ∀ done, toSession done = .enter pipe ↔
      ∃ handle, done = (.taskOpen handle pipe, true) := by
    rintro ⟨task, connected⟩
    cases task <;> cases connected <;> simp [toSession]
  have hsend : ∀ done, (toSession done).isMessage = done.1.isSend := by
    rintro ⟨task, connected⟩
    cases task <;> cases connected <;> rfl
  rw [SessionTask.current_eq_some_iff, heldSince_map, OpenedLast]
  simp only [henter, hsend]

/-- In every state of every interleaving the messages keep their sessions, for all results of
`CreateNamedPipe` and `ConnectNamedPipe`. -/
theorem keeps_sessions (hrun : (program κ).machine.run inputs = some s) :
    KeepsSessions s.shared := by
  obtain ⟨hqueued, hcarried⟩ := inv_run hrun
  have hfront : s.shared.processed.map Prod.fst <+: s.shared.queue.pushed := by
    rw [hqueued.fifo, List.append_assoc]
    exact List.prefix_append _ _
  have hsublist : (s.shared.writes.map Prod.snd).Sublist (messages s.shared.queue.pushed) := by
    rw [hcarried.writes]
    refine (SessionTask.delivered_sublist _).trans ?_
    rw [messages_sessionTasks]
    exact hfront.sublist.filterMap _
  have hserials : ∀ tasks : List PipeTask, tasks.Sublist s.shared.queue.pushed →
      ((messages tasks).map Message.serial).Nodup := by
    intro tasks htasks
    exact hqueued.nodup.sublist
      ((map_serial_messages_sublist tasks).trans (htasks.filterMap _))
  refine ⟨hfront, ?_, ?_, ?_, hsublist, ?_⟩
  · intro front m connected back pipe hsplit
    have htasks : sessionTasks s.shared =
        front.map toSession ++ .message m :: back.map toSession := by
      rw [sessionTasks, hsplit, List.map_append, List.map_cons]
      rfl
    have hnodup := (hserials _ hfront.sublist).of_map
    rw [← messages_sessionTasks, htasks] at hnodup
    rw [hcarried.writes, htasks, SessionTask.mem_delivered_iff hnodup, current_iff_openedLast]
  · intro pipe m hwrite
    rw [hcarried.writes] at hwrite
    have hmessage := SessionTask.mem_messages_of_mem_deliveredFrom hwrite
    rw [messages_sessionTasks, mem_messages] at hmessage
    exact hmessage
  · have hnodup := hserials _ (List.Sublist.refl _)
    have hwrites := hnodup.sublist (hsublist.map Message.serial)
    rwa [List.map_map] at hwrites
  · exact List.pairwise_map.mp (hqueued.inOrder.sublist hsublist)

/-- Through a `push`, or a `pop` up to its task. -/
def fourSteps (t : Worker.Party ℕ) : List (Worker.Party ℕ × Action) :=
  [(t, .next), (t, .next), (t, .next), (t, .next)]

/-- A pipe is opened and a message sent; the pipe is to be closed when another message is
accepted; then the system gives its handle to a pipe that is refused. -/
def twoPipes : List (Worker.Party ℕ × Action) :=
  List.flatten [[(.client 0, .call (.openPipe "a" (some 8)))], fourSteps (.client 0),
    fourSteps .worker, [(.worker, .next), (.worker, .connect true), (.worker, .next)],
    [(.client 0, .call (.send [1]))], fourSteps (.client 0), [(.client 0, .next)],
    [(.client 0, .call .close)], fourSteps (.client 0),
    [(.client 0, .call (.send [2]))], fourSteps (.client 0), [(.client 0, .next)],
    fourSteps .worker, [(.worker, .next)],
    fourSteps .worker, [(.worker, .next), (.worker, .next)],
    [(.client 0, .call (.openPipe "b" (some 8)))], fourSteps (.client 0),
    fourSteps .worker, [(.worker, .next)],
    fourSteps .worker, [(.worker, .next), (.worker, .connect false), (.worker, .next)]]

theorem keeps_sessions_twoPipes : ∃ s, (program ℕ).machine.run twoPipes = some s ∧
    s.shared.writes = [(0, ⟨[1], 1, []⟩)] ∧ KeepsSessions s.shared :=
  ⟨_, rfl, rfl, keeps_sessions (show (program ℕ).machine.run twoPipes = some _ from rfl)⟩

end

end PipeSender

end RyuLib
