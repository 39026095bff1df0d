import RyuLib.Thread.SimpleThread
import RyuLib.Thread.SuspensionQueue

/-!
# Worker

A `SimpleThread` that pops tasks from a `SuspensionQueue`.  The threads are the worker
itself, clients that each make some calls of `add`, and one that calls
`terminateAndWait`.  The worker waits on the condition variable of the queue, and
`terminateAndWait` notifies the one of the thread.

* `Worker.not_stuck`: `terminateAndWait` returns or can go on, if the worker has a task to
  come when the flag is set under its pop.
-/

namespace RyuLib

open Foundations

/-- `data` is an address, and 0 the null pointer. -/
structure TaskOfWorker where
  task : ℤ
  text : String
  data : ℕ
  size : ℤ
  tag : ℤ
  deriving DecidableEq

namespace Worker

/-- The overloads of `add`. -/
inductive AddCall
  | ofTask (task : ℤ)
  | ofText (task : ℤ) (text : String)
  | ofData (task : ℤ) (data : ℕ)
  | ofSized (task : ℤ) (data : ℕ) (size : ℤ)
  | ofTagged (task : ℤ) (data : ℕ) (size tag : ℤ)

/-- The task that an `add` pushes. -/
def AddCall.toTask : AddCall → TaskOfWorker
  | .ofTask task => ⟨task, "", 0, 0, 0⟩
  | .ofText task text => ⟨task, text, 0, 0, 0⟩
  | .ofData task data => ⟨task, "", data, 0, 0⟩
  | .ofSized task data size => ⟨task, "", data, size, 0⟩
  | .ofTagged task data size tag => ⟨task, "", data, size, tag⟩

inductive Party (κ : Type*)
  | worker
  | client (k : κ)
  | closer
  deriving DecidableEq

namespace Party

variable {κ β : Type*} [DecidableEq κ] (points : Party κ → β) (p : β) (k : κ)

@[simp] theorem update_worker_client :
    Function.update points .worker p (.client k) = points (.client k) :=
  Function.update_of_ne (by simp) ..

@[simp] theorem update_client_worker :
    Function.update points (.client k) p .worker = points .worker :=
  Function.update_of_ne (by simp) ..

@[simp] theorem update_closer_worker :
    Function.update points .closer p .worker = points .worker :=
  Function.update_of_ne (by simp) ..

@[simp] theorem update_closer_client :
    Function.update points .closer p (.client k) = points (.client k) :=
  Function.update_of_ne (by simp) ..

end Party

end Worker

/-- `onTask` says that `on_task_` is set; `executed` are the calls of it so far. -/
structure Worker (κ : Type*) where
  thread : SimpleThread (Worker.Party κ) := {}
  queue : SuspensionQueue (Worker.Party κ) TaskOfWorker := {}
  onTask : Bool := true
  executed : List TaskOfWorker := []

namespace Worker

/-- Where a thread is: the worker in its loop, in `queue_.pop()` or in the handler of a
task; a client in a `push`, with the calls it has still to make; the closer before
`terminateAndWait` and in it. -/
inductive Point
  | loop
  | popping (p : SuspensionQueue.Point TaskOfWorker)
  | running (t : TaskOfWorker)
  | ended
  | client (calls : List AddCall) (p : SuspensionQueue.Point TaskOfWorker)
  | opened
  | closing (p : SimpleThread.Point)

/-- A thread goes on, or is woken without a notification. -/
inductive Action
  | next
  | spurious
  deriving DecidableEq

def Action.ofQueue : Action → SuspensionQueue.Action TaskOfWorker
  | .next => .next
  | .spurious => .spurious

section

variable {κ : Type*} [DecidableEq κ]

/-- A step inside a function of the queue. -/
def actQueue (t : Party κ) (g : Worker κ) (p : SuspensionQueue.Point TaskOfWorker) (a : Action) :
    Option (Worker κ × SuspensionQueue.Point TaskOfWorker) :=
  (SuspensionQueue.act t g.queue p a.ofQueue).map fun next => ({ g with queue := next.1 }, next.2)

/-- One step of thread `t`. -/
def act (t : Party κ) (g : Worker κ) : Point → Action → Option (Worker κ × Point)
  -- on_thread_execute
  | .loop, .next =>
      if g.thread.isTerminated = false then some (g, .popping (.pop .value))
      else some ({ g with thread := { g.thread with finished := true } }, .ended)
  | .popping (.popped _ (some task)), .next =>
      some ({ g with executed := if g.onTask = true then g.executed ++ [task] else g.executed },
        .running task)
  | .popping p, a => (actQueue t g p a).map fun next => (next.1, .popping next.2)
  | .running _, .next => some (g, .loop)
  -- add
  | .client (call :: calls) .idle, .next => some (g, .client calls (.push call.toTask))
  | .client calls p, a => (actQueue t g p a).map fun next => (next.1, .client calls next.2)
  -- terminateAndWait
  | .opened, .next => some (g, .closing (.setFlag true))
  | .closing p, .next =>
      (SimpleThread.act t g.thread p .next).map fun next =>
        ({ g with thread := next.1 }, .closing next.2)
  | _, _ => none

/-- What a step does, one rule for each kind of step. -/
inductive Moves (t : Party κ) (g : Worker κ) : Point → Action → Worker κ → Point → Prop
  | check (hflag : g.thread.isTerminated = false) :
      Moves t g .loop .next g (.popping (.pop .value))
  | stop (hflag : g.thread.isTerminated = true) :
      Moves t g .loop .next { g with thread := { g.thread with finished := true } } .ended
  | execute (overload : SuspensionQueue.Overload) (task : TaskOfWorker) :
      Moves t g (.popping (.popped overload (some task))) .next
        { g with executed := if g.onTask = true then g.executed ++ [task] else g.executed }
        (.running task)
  | pop {p p' : SuspensionQueue.Point TaskOfWorker} {a : Action}
      {q : SuspensionQueue (Party κ) TaskOfWorker}
      (hmove : SuspensionQueue.Moves t g.queue p a.ofQueue q p') :
      Moves t g (.popping p) a { g with queue := q } (.popping p')
  | done (task : TaskOfWorker) : Moves t g (.running task) .next g .loop
  | add (call : AddCall) (calls : List AddCall) :
      Moves t g (.client (call :: calls) .idle) .next g (.client calls (.push call.toTask))
  | push {calls : List AddCall} {p p' : SuspensionQueue.Point TaskOfWorker} {a : Action}
      {q : SuspensionQueue (Party κ) TaskOfWorker}
      (hmove : SuspensionQueue.Moves t g.queue p a.ofQueue q p') :
      Moves t g (.client calls p) a { g with queue := q } (.client calls p')
  | enter : Moves t g .opened .next g (.closing (.setFlag true))
  | close {p p' : SimpleThread.Point} {thread : SimpleThread (Party κ)}
      (hmove : SimpleThread.Moves t g.thread p .next thread p') :
      Moves t g (.closing p) .next { g with thread := thread } (.closing p')

theorem actQueue_eq_some {t : Party κ} {g g' : Worker κ}
    {p p' : SuspensionQueue.Point TaskOfWorker} {a : Action}
    (hact : actQueue t g p a = some (g', p')) :
    ∃ q, SuspensionQueue.Moves t g.queue p a.ofQueue q p' ∧ g' = { g with queue := q } := by
  obtain ⟨⟨q, p''⟩, hqueue, hnext⟩ := Option.map_eq_some_iff.mp hact
  obtain ⟨rfl, rfl⟩ := Prod.mk.inj hnext
  exact ⟨q, SuspensionQueue.act_moves hqueue, rfl⟩

theorem act_moves {t : Party κ} {g g' : Worker κ} {p p' : Point} {a : Action}
    (hact : act t g p a = some (g', p')) : Moves t g p a g' p' := by
  unfold act at hact
  split at hact
  · split at hact
    · rename_i hflag
      obtain ⟨rfl, rfl⟩ := Prod.mk.inj (Option.some.inj hact)
      exact Moves.check hflag
    · rename_i hflag
      obtain ⟨rfl, rfl⟩ := Prod.mk.inj (Option.some.inj hact)
      exact Moves.stop (Bool.not_eq_false _ ▸ hflag)
  · obtain ⟨rfl, rfl⟩ := Prod.mk.inj (Option.some.inj hact)
    exact Moves.execute _ _
  · obtain ⟨⟨g₁, p₁⟩, hqueue, hnext⟩ := Option.map_eq_some_iff.mp hact
    obtain ⟨rfl, rfl⟩ := Prod.mk.inj hnext
    obtain ⟨q, hmove, rfl⟩ := actQueue_eq_some hqueue
    exact Moves.pop hmove
  · obtain ⟨rfl, rfl⟩ := Prod.mk.inj (Option.some.inj hact)
    exact Moves.done _
  · obtain ⟨rfl, rfl⟩ := Prod.mk.inj (Option.some.inj hact)
    exact Moves.add _ _
  · obtain ⟨⟨g₁, p₁⟩, hqueue, hnext⟩ := Option.map_eq_some_iff.mp hact
    obtain ⟨rfl, rfl⟩ := Prod.mk.inj hnext
    obtain ⟨q, hmove, rfl⟩ := actQueue_eq_some hqueue
    exact Moves.push hmove
  · obtain ⟨rfl, rfl⟩ := Prod.mk.inj (Option.some.inj hact)
    exact Moves.enter
  · obtain ⟨⟨thread, p₁⟩, hthread, hnext⟩ := Option.map_eq_some_iff.mp hact
    obtain ⟨rfl, rfl⟩ := Prod.mk.inj hnext
    exact Moves.close (SimpleThread.act_moves hthread)
  · cases hact

/-! ## Views of a point -/

/-- Where a thread is in the functions of the queue. -/
def Point.inQueue : Point → SuspensionQueue.Point TaskOfWorker
  | .popping p => p
  | .client _ p => p
  | _ => .idle

/-- The worker is in a pop and may come to wait for an item. -/
def Point.mayWait : Point → Bool
  | .popping (.pop _) | .popping (.test _) | .popping (.wait _) | .popping (.asleep _)
  | .popping (.check _) => true
  | _ => false

/-- A client that has an item still to queue. -/
def Point.owes : Point → Bool
  | .client (_ :: _) _ | .client _ (.push _) | .client _ (.enqueue _) => true
  | _ => false

/-- A client is between two calls of `add` or in the `push` of one. -/
def Point.isClient : Point → Bool
  | .client _ p => p.inPush
  | _ => false

def Point.isWorker : Point → Bool
  | .loop | .popping _ | .running _ | .ended => true
  | _ => false

def Point.isCloser : Point → Bool
  | .opened | .closing _ => true
  | _ => false

/-- The closer has set the flag. -/
def Point.hasClosed : Point → Bool
  | .opened | .closing (.setFlag _) => false
  | .closing _ => true
  | _ => false

variable {t : Party κ} {g g' : Worker κ} {p p' : Point} {a : Action} {points : Party κ → Point}

/-- Seen from the queue, a step calls a function of it, goes on in one, or is outside. -/
theorem Moves.queue (hmove : Moves t g p a g' p') (hp : points t = p)
    (h : SuspensionQueue.Inv g.queue fun u => (points u).inQueue) :
    SuspensionQueue.Inv g'.queue fun u => (Function.update points t p' u).inQueue := by
  have hview : (fun u => (Function.update points t p' u).inQueue) =
      Function.update (fun u => (points u).inQueue) t p'.inQueue := by
    funext u
    exact Function.apply_update (fun _ => Point.inQueue) points t p' u
  rw [hview]
  have hp' : (points t).inQueue = p.inQueue := congrArg Point.inQueue hp
  cases hmove with
  | check => exact h.moves hp' (SuspensionQueue.Moves.call rfl (.pop .value))
  | add call => exact h.moves hp' (SuspensionQueue.Moves.call rfl (.push call.toTask))
  | pop hmove | push hmove => exact h.moves hp' hmove
  | stop | execute | done | enter | close => exact h.leave hp' rfl

/-- A client stays one, and does nothing but push. -/
theorem Moves.isClient (hmove : Moves t g p a g' p') (h : p.isClient = true) :
    p'.isClient = true := by
  cases hmove with
  | add => rfl
  | push hmove =>
      cases a with
      | next => cases hmove <;> first | rfl | cases h
      | spurious =>
          cases hmove
          cases h
  | _ => cases h

theorem Moves.isWorker (hmove : Moves t g p a g' p') (h : p.isWorker = true) :
    p'.isWorker = true := by
  cases hmove with
  | check | stop | execute | pop | done => rfl
  | _ => cases h

/-- A client that owes an item goes on owing until it has queued it. -/
theorem Moves.owes (hmove : Moves t g p a g' p') (hclient : p.isClient = true)
    (h : p.owes = true) : p'.owes = true ∨ g'.queue.queue ≠ [] := by
  cases hmove with
  | add call calls => exact Or.inl (by cases calls <;> rfl)
  | @push calls p₁ p₂ a q hmove =>
      cases calls with
      | cons => exact Or.inl rfl
      | nil =>
          cases a with
          | next =>
              cases hmove with
              | lockPush => exact Or.inl rfl
              | enqueue => exact Or.inr (by simp)
              | _ => cases h
          | spurious =>
              cases hmove
              cases hclient
  | _ => cases hclient

/-- Clients take nothing from the queue. -/
theorem Moves.queue_ne_nil (hmove : Moves t g p a g' p') (hclient : p.isClient = true)
    (h : g.queue.queue ≠ []) : g'.queue.queue ≠ [] := by
  cases hmove with
  | add => exact h
  | push hmove =>
      cases a with
      | next =>
          cases hmove with
          | enqueue => simp
          | take => cases hclient
          | _ => exact h
      | spurious =>
          cases hmove
          exact h
  | _ => cases hclient

/-- The worker takes an item only to leave its pop. -/
theorem Moves.mayWait (hmove : Moves t g p a g' p') (hworker : p.isWorker = true)
    (h : p'.mayWait = true) (hflag : g.thread.isTerminated = true) :
    p.mayWait = true ∧ g'.queue.queue = g.queue.queue := by
  cases hmove with
  | check hnot =>
      rw [hflag] at hnot
      cases hnot
  | pop hmove =>
      cases a with
      | next => cases hmove <;> first | exact ⟨rfl, rfl⟩ | cases h
      | spurious =>
          cases hmove
          exact ⟨rfl, rfl⟩
  | stop | execute | done => cases h
  | _ => cases hworker

/-- Only the closer touches the flag. -/
theorem Moves.thread_isTerminated (hmove : Moves t g p a g' p')
    (h : g'.thread.isTerminated = true) :
    g.thread.isTerminated = true ∨ a = .next ∧ ∃ join, p = .closing (.setFlag join) := by
  cases hmove with
  | close hmove =>
      rcases hmove.setFlag_of_isTerminated h with hbefore | ⟨join, rfl⟩
      · exact Or.inl hbefore
      · exact Or.inr ⟨rfl, join, rfl⟩
  | _ => exact Or.inl h

theorem Moves.hasClosed (hmove : Moves t g p a g' p') (h : p'.hasClosed = true) :
    p.hasClosed = true ∨ g'.thread.isTerminated = true := by
  cases hmove with
  | @close p₁ p₂ thread hmove =>
      cases p₁ with
      | setFlag join =>
          cases hmove
          exact Or.inr rfl
      | _ => exact Or.inl rfl
  | _ => cases h

theorem Moves.keeps_isTerminated (hmove : Moves t g p a g' p')
    (h : g.thread.isTerminated = true) : g'.thread.isTerminated = true := by
  cases hmove with
  | close hmove => exact hmove.isTerminated h
  | _ => exact h

theorem act_popping (t : Party κ) (g : Worker κ) {q : SuspensionQueue.Point TaskOfWorker}
    (hq : q.free = false) :
    act t g (.popping q) .next =
      (actQueue t g q .next).map fun next => (next.1, .popping next.2) := by
  cases q with
  | idle | popped => cases hq
  | _ => rfl

theorem act_client (t : Party κ) (g : Worker κ) (calls : List AddCall)
    {q : SuspensionQueue.Point TaskOfWorker} (hq : q.free = false) :
    act t g (.client calls q) .next =
      (actQueue t g q .next).map fun next => (next.1, .client calls next.2) := by
  cases q with
  | idle | popped => cases hq
  | _ => cases calls <;> rfl

/-- Who can go on in a function of the queue can go on. -/
theorem act_ne_none (t : Party κ) (g : Worker κ) (hq : p.inQueue.free = false)
    (hact : SuspensionQueue.act t g.queue p.inQueue .next ≠ none) : act t g p .next ≠ none := by
  have hlift : actQueue t g p.inQueue .next ≠ none := by
    rw [actQueue, Ne, Option.map_eq_none_iff]
    exact hact
  cases p with
  | popping q =>
      rw [act_popping t g (show q.free = false from hq), Ne, Option.map_eq_none_iff]
      exact hlift
  | client calls q =>
      rw [act_client t g calls (show q.free = false from hq), Ne, Option.map_eq_none_iff]
      exact hlift
  | _ => cases hq

/-- A closer waits for nothing but the thread. -/
theorem Moves.closer (hmove : Moves t g p a g' p') (h : p.isCloser = true) :
    p'.isCloser = true ∧ g'.queue = g.queue := by
  cases hmove with
  | enter | close => exact ⟨rfl, rfl⟩
  | _ => cases h

end

/-! ## Shutting down -/

section

variable {κ : Type*} [DecidableEq κ] {scripts : κ → List AddCall} {onTask : Bool}
  {inputs : List (Party κ × Action)} {s s' : Threads (Party κ) (Worker κ) Point}

/-- The worker at the start of its loop, the clients with the calls they are going to make,
and the closer. -/
def start (scripts : κ → List AddCall) : Party κ → Point
  | .worker => .loop
  | .client k => .client (scripts k) .idle
  | .closer => .opened

def program (scripts : κ → List AddCall) (onTask : Bool) :
    Program (Party κ) (Worker κ) Point Action where
  shared := { onTask := onTask }
  points := start scripts
  act := act

/-- What holds of the worker and all points. -/
structure Inv (g : Worker κ) (points : Party κ → Point) : Prop where
  queue : SuspensionQueue.Inv g.queue fun t => (points t).inQueue
  worker : (points .worker).isWorker = true
  clients : ∀ k, (points (.client k)).isClient = true
  closer : (points .closer).isCloser = true
  flagged : (points .closer).hasClosed = true → g.thread.isTerminated = true

theorem Inv.moves {g g' : Worker κ} {points : Party κ → Point} {t : Party κ} {a : Action}
    {p' : Point} (h : Inv g points) (hmove : Moves t g (points t) a g' p') :
    Inv g' (Function.update points t p') where
  queue := hmove.queue rfl h.queue
  worker := by
    apply at_update (P := (Point.isWorker · = true))
    · rintro rfl
      exact hmove.isWorker h.worker
    · exact fun _ => h.worker
  clients := by
    intro k
    apply at_update (P := (Point.isClient · = true))
    · rintro rfl
      exact hmove.isClient (h.clients k)
    · exact fun _ => h.clients k
  closer := by
    apply at_update (P := (Point.isCloser · = true))
    · rintro rfl
      exact (hmove.closer h.closer).1
    · exact fun _ => h.closer
  flagged := by
    intro hclosed
    rcases eq_or_ne Party.closer t with rfl | hne
    · rw [Function.update_self] at hclosed
      rcases hmove.hasClosed hclosed with hbefore | hflag
      · exact hmove.keeps_isTerminated (h.flagged hbefore)
      · exact hflag
    · rw [Function.update_of_ne hne] at hclosed
      exact hmove.keeps_isTerminated (h.flagged hclosed)

theorem inv_run (hrun : (program scripts onTask).machine.run inputs = some s) :
    Inv s.shared s.points := by
  refine Program.invariant (I := Inv) ?_ ?_ hrun
  · refine ⟨?_, rfl, fun k => rfl, rfl, nofun⟩
    have hidle : (fun t => (start scripts t).inQueue) = fun _ => .idle := by
      funext t
      cases t <;> rfl
    exact hidle.symm ▸ SuspensionQueue.inv_start
  · intro g points t a g' p h hact
    exact h.moves (act_moves hact)

/-- An item is queued, or some client is still going to queue one. -/
def Supplied (s : Threads (Party κ) (Worker κ) Point) : Prop :=
  s.shared.queue.queue ≠ [] ∨ ∃ k, (s.points (.client k)).owes = true

/-- If the flag is set while the worker is in a pop, there is an item for that pop. -/
def StopsSupplied (s : Threads (Party κ) (Worker κ) Point) (i : Party κ × Action) : Prop :=
  i = (.closer, .next) → (∃ join, s.points .closer = .closing (.setFlag join)) →
    (s.points .worker).mayWait = true → Supplied s

/-- `terminateAndWait` waits in `join`, the worker sleeps in its pop on an empty queue, and
no thread can take a step; a wake-up that nobody asked for does not count. -/
def Stuck (s : Threads (Party κ) (Worker κ) Point) : Prop :=
  s.points .closer = .closing .join ∧
    (∃ overload, s.points .worker = .popping (.asleep overload)) ∧
    .worker ∈ s.shared.queue.condition.waiters ∧ s.shared.queue.queue = [] ∧
    ∀ t, act t s.shared (s.points t) .next = none

/-- Once the flag is set, a worker that may come to wait has an item to come. -/
theorem supplied_run (hrun : (program scripts onTask).machine.run inputs = some s) :
    (program scripts onTask).machine.Always StopsSupplied inputs →
      s.shared.thread.isTerminated = true → (s.points .worker).mayWait = true → Supplied s := by
  refine Machine.run_induction (P := fun inputs s =>
    (program scripts onTask).machine.Always StopsSupplied inputs →
      s.shared.thread.isTerminated = true → (s.points .worker).mayWait = true → Supplied s) ?_ ?_
    inputs s hrun
  · rintro _ hflag
    cases hflag
  · rintro inputs s ⟨t, a⟩ s' hs ih hstep halways hflag hwait
    rw [Machine.always_concat] at halways
    have hstops := halways.2 s hs
    have ih' := ih halways.1
    have hinv := inv_run hs
    obtain ⟨g, p, hact, rfl⟩ := Program.step_eq_some.mp hstep
    have hmove := act_moves hact
    simp only at hflag hwait
    cases t with
    | worker =>
        rw [Function.update_self] at hwait
        have hbefore : s.shared.thread.isTerminated = true := by
          refine (hmove.thread_isTerminated hflag).resolve_right ?_
          rintro ⟨_, join, hp⟩
          have hworker := hinv.worker
          rw [hp] at hworker
          cases hworker
        obtain ⟨hwaited, hqueue⟩ := hmove.mayWait hinv.worker hwait hbefore
        rcases ih' hbefore hwaited with hne | ⟨k, hk⟩
        · exact Or.inl (by simpa [hqueue] using hne)
        · exact Or.inr ⟨k, by simpa using hk⟩
    | client k =>
        rw [Party.update_client_worker] at hwait
        have hbefore : s.shared.thread.isTerminated = true := by
          refine (hmove.thread_isTerminated hflag).resolve_right ?_
          rintro ⟨_, join, hp⟩
          have hclient := hinv.clients k
          rw [hp] at hclient
          cases hclient
        rcases ih' hbefore hwait with hne | ⟨j, hj⟩
        · exact Or.inl (hmove.queue_ne_nil (hinv.clients k) hne)
        · rcases eq_or_ne j k with rfl | hne
          · rcases hmove.owes (hinv.clients j) hj with howes | hqueue
            · exact Or.inr ⟨j, by simpa using howes⟩
            · exact Or.inl hqueue
          · exact Or.inr ⟨j, by simpa [hne] using hj⟩
    | closer =>
        rw [Party.update_closer_worker] at hwait
        have hsupplied : Supplied s := by
          rcases hmove.thread_isTerminated hflag with hbefore | ⟨rfl, hset⟩
          · exact ih' hbefore hwait
          · exact hstops rfl hset hwait
        have hqueue := (hmove.closer hinv.closer).2
        rcases hsupplied with hne | ⟨k, hk⟩
        · exact Or.inl (by simpa [hqueue] using hne)
        · exact Or.inr ⟨k, by simpa using hk⟩

/-- While some client owes an item, some thread can take a step. -/
theorem exists_act_of_owes (h : Inv s.shared s.points) {k : κ}
    (howes : (s.points (.client k)).owes = true) :
    ∃ t, act t s.shared (s.points t) .next ≠ none := by
  have hclient := h.clients k
  cases hp : s.points (.client k) with
  | client calls q =>
      rw [hp] at hclient howes
      cases q with
      | idle =>
          cases calls with
          | nil => cases howes
          | cons call calls => exact ⟨.client k, by simp [hp, act]⟩
      | push item =>
          cases howner : s.shared.queue.mutex.owner with
          | none =>
              refine ⟨.client k, act_ne_none _ _ (by rw [hp]; rfl) ?_⟩
              simp [hp, Point.inQueue, SuspensionQueue.act, Mutex.lock, howner]
          | some u =>
              -- then the owner of the mutex goes first
              have hlocked := (h.queue.guards u).mpr howner
              refine ⟨u, act_ne_none _ _ ?_ ?_⟩
              · by_contra hfree
                rw [Bool.not_eq_false] at hfree
                rw [(SuspensionQueue.Point.of_free hfree).1] at hlocked
                cases hlocked
              · exact SuspensionQueue.act_ne_none_of_locked u _ hlocked
      | enqueue | unlock | notify =>
          refine ⟨.client k, act_ne_none _ _ (by rw [hp]; rfl) ?_⟩
          simp [hp, Point.inQueue, SuspensionQueue.act]
      | _ => cases hclient
  | _ =>
      rw [hp] at hclient
      cases hclient

/-- `terminateAndWait` never hangs in a run in which the flag is set only while the worker
is outside its pop or has an item to come. -/
theorem not_stuck (hrun : (program scripts onTask).machine.run inputs = some s)
    (halways : (program scripts onTask).machine.Always StopsSupplied inputs) :
    (program scripts onTask).machine.Throughout (fun s => ¬ Stuck s) inputs := by
  rintro first second rfl s₁ hs₁ ⟨hjoin, ⟨overload, hworker⟩, _, hempty, hstuck⟩
  have hinv := inv_run hs₁
  have hflag := hinv.flagged (by rw [hjoin]; rfl)
  rcases supplied_run hs₁ halways.front hflag (by rw [hworker]; rfl) with hne | ⟨k, hk⟩
  · exact hne hempty
  · obtain ⟨t, ht⟩ := exists_act_of_owes hinv hk
    exact ht (hstuck t)

/-- No client adds anything; the worker goes to sleep and the closer comes. -/
def sleepingWorker : List (Party ℕ × Action) :=
  List.replicate 4 (.worker, .next) ++ List.replicate 5 (.closer, .next)

theorem hangs_sleepingWorker :
    ¬ (program (fun _ : ℕ => []) true).machine.Throughout (fun s => ¬ Stuck s) sleepingWorker := by
  intro h
  apply h.last
    (show (program (fun _ : ℕ => []) true).machine.run sleepingWorker = some _ from rfl)
  refine ⟨rfl, ⟨.value, rfl⟩, Finset.mem_insert_self _ _, rfl, ?_⟩
  rintro (_ | k | _) <;> rfl

/-- The closer is about to set the flag. -/
def Point.setsFlag : Point → Bool
  | .closing (.setFlag _) => true
  | _ => false

theorem Point.setsFlag_iff {p : Point} :
    p.setsFlag = true ↔ ∃ join, p = .closing (.setFlag join) := by
  unfold Point.setsFlag
  split
  · next join => exact iff_of_true rfl ⟨join, rfl⟩
  · next hother => exact iff_of_false Bool.false_ne_true fun ⟨join, hp⟩ => hother join hp

instance decidableStopsSupplied [Fintype κ] (s : Threads (Party κ) (Worker κ) Point)
    (i : Party κ × Action) : Decidable (StopsSupplied s i) :=
  decidable_of_iff (i = (.closer, .next) → (s.points .closer).setsFlag = true →
    (s.points .worker).mayWait = true →
      s.shared.queue.queue ≠ [] ∨ ∃ k, (s.points (.client k)).owes = true) (by
    rw [Point.setsFlag_iff]
    rfl)

/-- The worker goes to sleep and the closer comes as far as `join`; then a client adds its
task, which the worker executes before it ends. -/
def lateTask : List (Party Unit × Action) :=
  List.flatten [List.replicate 4 (.worker, .next), List.replicate 5 (.closer, .next),
    List.replicate 5 (.client (), .next), List.replicate 6 (.worker, .next), [(.closer, .next)]]

theorem not_stuck_lateTask :
    ∃ s, (program (fun _ : Unit => [.ofTask 5]) true).machine.run lateTask = some s ∧
      (s.shared.executed, s.shared.thread.finished) = ([⟨5, "", 0, 0, 0⟩], true) ∧
      (program (fun _ : Unit => [.ofTask 5]) true).machine.Throughout (fun s => ¬ Stuck s)
        lateTask := by
  have halways : (program (fun _ : Unit => [.ofTask 5]) true).machine.Always StopsSupplied
      lateTask := by
    decide +kernel
  have hexecuted : ((program (fun _ : Unit => [.ofTask 5]) true).machine.run lateTask).map
      (fun s => (s.shared.executed, s.shared.thread.finished)) =
      some ([⟨5, "", 0, 0, 0⟩], true) := by
    decide +kernel
  obtain ⟨s, hs, hexecuted⟩ := Option.map_eq_some_iff.mp hexecuted
  exact ⟨s, hs, hexecuted, not_stuck hs halways⟩

end

end Worker

end RyuLib
