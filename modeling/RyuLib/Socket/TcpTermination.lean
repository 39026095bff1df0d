import RyuLib.Socket.TcpClient

/-!
# The termination of a TcpClient

A `TcpClient` with the thread of its `Scheduler` and the threads that call it.  The thread
takes the tasks from the queue and repeats `do_receive` while there are none; `terminate`
adds a last task, sets the flag that ends the loop and waits for the end of the thread.

* `TcpSession.disconnects_iff`: in which runs the last task is executed.
-/

namespace RyuLib

open Foundations History

namespace TcpClient

/-- The numbers of `enum TaskType`. -/
abbrev ttConnect : ℤ := 0
abbrev ttDisconnect : ℤ := 1
abbrev ttSendData : ℤ := 2
abbrev ttSendText : ℤ := 3

/-! ### What the handlers do to the socket -/

section

variable {s s' : TcpClient} {replies : Replies}

theorem doDisconnect_log (hsocket : s.socket ≠ 0) :
    s.doDisconnect.log = s.log ++ [.shutdown s.socket] := by
  simp [doDisconnect, hsocket]

theorem log_prefix_doDisconnect : s.log <+: s.doDisconnect.log := by
  by_cases hsocket : s.socket = 0
  · simp [doDisconnect, hsocket]
  · rw [doDisconnect_log hsocket]
    exact List.prefix_append _ _

theorem log_prefix_openSocket (host : String) (port : ℤ) :
    s.log <+: (s.openSocket replies host port).log := by
  have hrequest :
      s.log <+: ({ s with socket := replies.socket }.request replies host port).log := by
    simp [request]
  unfold openSocket
  split
  · simp
  · split
    · simpa using hrequest
    · rw [fire_log]
      exact hrequest.trans log_prefix_doDisconnect

theorem log_prefix_doConnect {host : String} {port : ℤ}
    (hconnect : s.doConnect replies host port = some s') : s.log <+: s'.log := by
  have hcases := doConnect_cases hconnect
  have hconnecting : s.log <+: (s.record .connecting).log := by simp
  split at hcases
  · rw [hcases]
    exact hconnecting.trans (log_prefix_openSocket host port)
  · rw [hcases, fire_log]
    exact hconnecting

/-- The log goes on, and a socket that is left is shut down. -/
def LeavesClosed (s s' : TcpClient) : Prop :=
  ∃ later, s'.log = s.log ++ later ∧
    (s'.socket = s.socket ∨ s.socket = 0 ∨ .shutdown s.socket ∈ later)

theorem leavesClosed_of_log (hlog : s'.log = s.log) (hsocket : s'.socket = s.socket) :
    LeavesClosed s s' :=
  ⟨[], by rw [hlog, List.append_nil], Or.inl hsocket⟩

/-- Whatever comes behind a `do_disconnect`. -/
theorem leavesClosed_of_doDisconnect {front : List Occurrence} {s₁ : TcpClient}
    (hfront : s₁.log = s.log ++ front) (hsocket : s₁.socket = s.socket)
    (hlog : s₁.doDisconnect.log <+: s'.log) : LeavesClosed s s' := by
  obtain ⟨later, hlater⟩ := hlog
  by_cases hzero : s.socket = 0
  · obtain ⟨more, hmore⟩ := log_prefix_doDisconnect (s := s₁)
    refine ⟨front ++ more ++ later, ?_, Or.inr (Or.inl hzero)⟩
    rw [← hlater, ← hmore, hfront]
    simp
  · refine ⟨front ++ [.shutdown s.socket] ++ later, ?_, Or.inr (Or.inr (by simp))⟩
    rw [← hlater, doDisconnect_log (by rwa [hsocket]), hfront, hsocket]
    simp

theorem leavesClosed_doSendData {data : List UInt8} (hsend : s.doSendData replies data = some s') :
    LeavesClosed s s' := by
  have hclose : ∀ what : Occurrence,
      LeavesClosed s ((s.record what).doDisconnect.fire .disconnected) := by
    intro what
    have hlog : (s.record what).log = s.log ++ [what] := rfl
    refine leavesClosed_of_doDisconnect hlog rfl ?_
    rw [fire_log]
  unfold doSendData at hsend
  split at hsend
  · obtain rfl := Option.some.inj hsend
    exact leavesClosed_of_log rfl rfl
  · split at hsend
    · obtain rfl := Option.some.inj hsend
      exact hclose .sendFailed
    · split at hsend
      · cases hsend
      · split at hsend
        · obtain rfl := Option.some.inj hsend
          exact hclose (.sent [])
        · obtain rfl := Option.some.inj hsend
          exact ⟨[.sent _], record_log _, Or.inl rfl⟩

theorem leavesClosed_handle {task : Task} (hhandle : s.handle replies task = some s') :
    LeavesClosed s s' := by
  have hself : s.log = s.log ++ [] := (List.append_nil _).symm
  cases task with
  | connect host port =>
      exact leavesClosed_of_doDisconnect hself rfl (log_prefix_doConnect hhandle)
  | disconnect =>
      obtain rfl := Option.some.inj hhandle
      exact leavesClosed_of_doDisconnect hself rfl (List.prefix_refl _)
  | sendData data => exact leavesClosed_doSendData hhandle
  | sendText text => exact leavesClosed_doSendData hhandle

theorem leavesClosed_repeats {results : List RecvResult}
    (hrepeats : s.repeats results = some s') : s'.socket = s.socket ∧ LeavesClosed s s' := by
  obtain ⟨s₁, hsocket, -, -, hlog, ⟨-, rfl⟩ | ⟨-, hdrain⟩⟩ := repeats_cases hrepeats
  · exact ⟨hsocket, leavesClosed_of_log hlog hsocket⟩
  · obtain ⟨hsocket₁, -, -, hlog₁, -⟩ := drain_eq_some hdrain
    have hsame := hsocket.trans hsocket₁
    exact ⟨hsame, _, hlog.trans hlog₁, Or.inl hsame⟩

/-- A client that is not connected stays so, unless it is to connect. -/
theorem handle_socket_eq_zero {task : Task} (hhandle : s.handle replies task = some s')
    (htask : task = .disconnect ∨ s.socket = 0 ∧ ∀ host port, task ≠ .connect host port) :
    s'.socket = 0 := by
  rcases htask with rfl | ⟨hsocket, htask⟩
  · obtain rfl := Option.some.inj hhandle
    exact doDisconnect_socket
  · have hsend : ∀ data, s.doSendData replies data = some s' → s'.socket = 0 := by
      intro data hsend
      rw [doSendData, if_pos hsocket] at hsend
      exact Option.some.inj hsend ▸ hsocket
    cases task with
    | connect host port => exact absurd rfl (htask host port)
    | disconnect =>
        obtain rfl := Option.some.inj hhandle
        exact doDisconnect_socket
    | sendData data => exact hsend data hhandle
    | sendText text => exact hsend text hhandle

end

end TcpClient

namespace Scheduler

/-! ### Where the scheduler is -/

variable {κ : Type*}

/-- The task that is popped and whose handler has not returned. -/
def Point.pending : Point → List TaskOfScheduler
  | .handle task | .handling task => [task]
  | _ => []

/-- Between the test of the flag and the pop that finds nothing. -/
def Point.isDraining : Point → Bool
  | .pop _ | .handle _ | .handling _ => true
  | _ => false

variable {t : Party κ} {g g' : Scheduler κ} {p p' : Point} {a : Action}

/-- No step but the one that ends a handler loses sight of a task. -/
theorem Moves.pending (hmove : Moves t g p a g' p') (hset : g.onTask = true)
    (hhandling : ∀ task, p ≠ .handling task) {done hand : List TaskOfScheduler}
    (hhand : p.isClient = false → hand = p.pending)
    (h : g.added = done ++ hand ++ g.queue.queue) :
    g'.added = done ++ (if p.isClient = true then hand else p'.pending) ++ g'.queue.queue := by
  cases hmove with
  | popTask hqueue =>
      obtain rfl := hhand rfl
      simpa [record, Point.pending, Point.isClient, hqueue] using h
  | skip hnot =>
      rw [hset] at hnot
      cases hnot
  | handled task => exact absurd rfl (hhandling task)
  | testStarted =>
      obtain rfl := hhand rfl
      cases hstarted : g.started <;> simpa [record, Point.pending, Point.isClient] using h
  | call call => cases call <;> simpa [enter, Point.isClient] using h
  | push task => simp [ThreadQueue.push, Point.isClient, h]
  | callThread => simpa [Point.isClient] using h
  | _ =>
      obtain rfl := hhand rfl
      simpa [record, Point.pending, Point.isClient] using h

theorem Moves.onTask (hmove : Moves t g p a g' p') (hidle : p ≠ .client .idle) :
    g'.onTask = g.onTask := by
  cases hmove with
  | call => exact absurd rfl hidle
  | _ => rfl

theorem Moves.added (hmove : Moves t g p a g' p') : g.added <+: g'.added := by
  cases hmove with
  | push task => exact List.prefix_append _ _
  | call call => cases call <;> exact List.prefix_refl _
  | _ => exact List.prefix_refl _

/-- The pops end when the queue is empty, -/
theorem Moves.draining (hmove : Moves t g p a g' p') (hdraining : p.isDraining = true) :
    p'.isDraining = true ∨ g.queue.queue = [] ∧ p.pending = [] := by
  cases hmove with
  | popTask | handle | skip | handled => exact Or.inl rfl
  | popNothing hempty => exact Or.inr ⟨hempty, rfl⟩
  | _ => cases hdraining

/-- and do not begin again when the flag is set. -/
theorem Moves.not_draining (hmove : Moves t g p a g' p')
    (hflag : g.thread.isTerminated = true) (hdraining : p.isDraining = false) :
    p'.isDraining = false := by
  cases hmove with
  | check hnot =>
      rw [hflag] at hnot
      cases hnot
  | popTask | popNothing | handle | skip | handled => cases hdraining
  | testStarted => cases g.started <;> rfl
  | call call => cases call <;> rfl
  | _ => rfl

/-- The places of `SimpleThread::terminateAndWait`. -/
def joins : SimpleThread.Point → Bool
  | .setFlag join | .lockWake join | .notify join | .unlockWake join => join
  | .join => true
  | _ => false

variable [DecidableEq κ]

theorem ThreadMoves.isTerminated (hmove : ThreadMoves t g g' p p')
    (hflag : g.thread.isTerminated = true) : g'.thread.isTerminated = true := by
  cases hmove with
  | none hthread => rwa [hthread]
  | finish hthread => rw [hthread, hflag]
  | client _ hmove | sleeping _ hmove => exact hmove.isTerminated hflag

theorem ThreadMoves.setFlag {join : Bool}
    (hmove : ThreadMoves t g g' (.client (.setFlag join)) p') :
    g'.thread.isTerminated = true := by
  cases hmove with
  | none _ hclient => exact absurd rfl (hclient _)
  | client hb hmove =>
      generalize g'.thread = thread at hmove
      cases hmove with
      | setFlag => rfl

/-- Only the end of the loop ends the thread. -/
theorem ThreadMoves.finished (hmove : ThreadMoves t g g' p p') :
    g'.thread.finished = g.thread.finished ∨ p = .loop ∧ p' = .ended := by
  cases hmove with
  | none hthread => exact Or.inl (by rw [hthread])
  | finish => exact Or.inr ⟨rfl, rfl⟩
  | client hb hmove | sleeping hb hmove =>
      refine Or.inl ?_
      generalize hthread : g'.thread = thread at hmove
      cases hmove with
      | finish => exact absurd rfl hb
      | turnBack _ tight | wait tight | leave tight => cases tight <;> rfl
      | _ => rfl

end Scheduler

/-- A `TcpClient` behind its constructor.  `client` is what the handlers of the scheduler
change, and `blocks` what the `data` of the tasks point to.  `done` are the tasks whose
handler has returned; no step looks at them. -/
structure TcpSession (κ : Type*) where
  scheduler : Scheduler κ := { started := true, onTask := true, onRepeat := true }
  client : TcpClient := {}
  blocks : List (List UInt8) := []
  done : List TaskOfScheduler := []

namespace TcpSession

open TcpClient (ttConnect ttDisconnect ttSendData ttSendText)

/-- What a thread chooses: which function it calls, and what the system answers to a handler
of the scheduler. -/
inductive Action
  | call (call : TcpClient.Call)
  | next
  | timeout
  | onTask (replies : TcpClient.Replies)
  | onRepeat (results : List TcpClient.RecvResult)

/-- Which functions of the scheduler a call consists of: one, or `add` and then
`terminateAndWait`. -/
inductive Stage
  | single
  | disconnecting
  | ending
  deriving DecidableEq

/-- Where a thread is. -/
structure Point where
  stage : Stage := .single
  place : Scheduler.Point

section

variable {κ : Type*}

/-- What the address of a task stands for; 0 is the null pointer. -/
def block (s : TcpSession κ) (data : ℕ) : List UInt8 := s.blocks.getD (data - 1) []

/-- The cases of the handler `on_task_`. -/
def toTask (s : TcpSession κ) (task : TaskOfScheduler) : Option TcpClient.Task :=
  if task.task = ttConnect then some (.connect task.text task.size)
  else if task.task = ttDisconnect then some .disconnect
  else if task.task = ttSendData then
    some (.sendData ((s.block task.data).take task.size.toNat))
  else if task.task = ttSendText then some (.sendText (s.block task.data))
  else none

/-- The handler `on_task_`. -/
def onTask (s : TcpSession κ) (replies : TcpClient.Replies) (task : TaskOfScheduler) :
    Option TcpClient :=
  match s.toTask task with
  | none => some s.client
  | some task => s.client.handle replies task

/-- The task that `disconnect` adds. -/
def disconnectTask : TaskOfScheduler := (Scheduler.AddCall.ofTask ttDisconnect).toTask

end

section

variable {κ : Type*} [DecidableEq κ]

/-- A call of `Scheduler::add`. -/
def add (s : TcpSession κ) (stage : Stage) (call : Scheduler.AddCall) : TcpSession κ × Point :=
  ({ s with scheduler := (s.scheduler.enter (.add call)).1 },
    ⟨stage, (s.scheduler.enter (.add call)).2⟩)

/-- A call of a client. -/
def enter (s : TcpSession κ) : TcpClient.Call → TcpSession κ × Point
  | .connect host port => s.add .single (.ofAll ttConnect host 0 port 0)
  | .disconnect => s.add .single (.ofTask ttDisconnect)
  | .terminate => s.add .disconnecting (.ofTask ttDisconnect)
  | .sendData data =>
      if packetLimit < data.length then
        ({ s with client := s.client.enter (.sendData data) }, { place := .client .idle })
      else
        { s with blocks := s.blocks ++ [data] }.add .single
          (.ofAll ttSendData "" (s.blocks.length + 1) data.length 0)
  | .sendText text =>
      { s with blocks := s.blocks ++ [cString text] }.add .single
        (.ofAll ttSendText "" (s.blocks.length + 1) 0 0)
  | .setHandler handler set =>
      ({ s with client := s.client.enter (.setHandler handler set) }, { place := .client .idle })

/-- A step inside the scheduler. -/
def actScheduler (t : Scheduler.Party κ) (s : TcpSession κ) (p : Point) (a : Scheduler.Action) :
    Option (TcpSession κ × Point) :=
  (Scheduler.act t s.scheduler p.place a).map fun next =>
    ({ s with scheduler := next.1 }, { p with place := next.2 })

/-- One step of thread `t`. -/
def act (t : Scheduler.Party κ) (s : TcpSession κ) : Point → Action →
    Option (TcpSession κ × Point)
  -- the handlers of the scheduler
  | ⟨stage, .handling task⟩, .onTask replies =>
      (s.onTask replies task).map fun client =>
        ({ s with client := client, done := s.done ++ [task] }, ⟨stage, .pop true⟩)
  | ⟨_, .handling _⟩, _ => none
  | ⟨stage, .repeating⟩, .onRepeat results =>
      (s.client.repeats results).map fun client =>
        ({ s with client := client },
          -- the handler ends with a sleep if nothing was received
          ⟨stage, if (s.client.doReceive results).any (·.1) = true then .loop
            else .sleeping (.guard false)⟩)
  | ⟨_, .repeating⟩, _ => none
  -- the calls
  | ⟨.single, .client .idle⟩, .call call => some (s.enter call)
  | ⟨.disconnecting, .client .idle⟩, .next =>
      some ({ s with scheduler := (s.scheduler.enter .terminateAndWait).1 },
        ⟨.ending, (s.scheduler.enter .terminateAndWait).2⟩)
  | ⟨.ending, .client .idle⟩, .next => some (s, ⟨.single, .client .idle⟩)
  | ⟨_, .client .idle⟩, _ => none
  | ⟨stage, .client .join⟩, .next =>
      -- `join` throws if the thread is not joinable
      if s.scheduler.thread.joinable = false then none
      else s.actScheduler t ⟨stage, .client .join⟩ .next
  | p, .next => s.actScheduler t p .next
  | p, .timeout => s.actScheduler t p .timeout
  | _, _ => none

/-- What a step does, one rule for each kind of step. -/
inductive Moves (t : Scheduler.Party κ) (s : TcpSession κ) :
    Point → Action → TcpSession κ → Point → Prop
  | handled {replies : TcpClient.Replies} {task : TaskOfScheduler} {client : TcpClient}
      (htask : s.onTask replies task = some client) (stage : Stage) :
      Moves t s ⟨stage, .handling task⟩ (.onTask replies)
        { s with client := client, done := s.done ++ [task] } ⟨stage, .pop true⟩
  | repeated {results : List TcpClient.RecvResult} {client : TcpClient} {place : Scheduler.Point}
      (hrepeats : s.client.repeats results = some client) (stage : Stage)
      (hplace : place = .loop ∨ place = .sleeping (.guard false)) :
      Moves t s ⟨stage, .repeating⟩ (.onRepeat results) { s with client := client } ⟨stage, place⟩
  | call (call : TcpClient.Call) :
      Moves t s ⟨.single, .client .idle⟩ (.call call) (s.enter call).1 (s.enter call).2
  | thenEnd :
      Moves t s ⟨.disconnecting, .client .idle⟩ .next
        { s with scheduler := (s.scheduler.enter .terminateAndWait).1 }
        ⟨.ending, .client (.setFlag true)⟩
  | leave : Moves t s ⟨.ending, .client .idle⟩ .next s ⟨.single, .client .idle⟩
  | inner {place place' : Scheduler.Point} {a : Action} {b : Scheduler.Action}
      {scheduler : Scheduler κ}
      (hact : Scheduler.act t s.scheduler place b = some (scheduler, place'))
      (hhandling : ∀ task, place ≠ .handling task) (hidle : place ≠ .client .idle)
      (hjoin : place = .client .join → s.scheduler.thread.joinable = true) (stage : Stage) :
      Moves t s ⟨stage, place⟩ a { s with scheduler := scheduler } ⟨stage, place'⟩

theorem actScheduler_eq_some {t : Scheduler.Party κ} {s s' : TcpSession κ} {p p' : Point}
    {b : Scheduler.Action} (hact : actScheduler t s p b = some (s', p')) :
    ∃ scheduler place', Scheduler.act t s.scheduler p.place b = some (scheduler, place') ∧
      s' = { s with scheduler := scheduler } ∧ p' = ⟨p.stage, place'⟩ := by
  obtain ⟨⟨scheduler, place'⟩, hinner, hnext⟩ := Option.map_eq_some_iff.mp hact
  obtain ⟨rfl, rfl⟩ := Prod.mk.inj hnext
  exact ⟨scheduler, place', hinner, rfl, rfl⟩

theorem act_moves {t : Scheduler.Party κ} {s s' : TcpSession κ} {p p' : Point} {a : Action}
    (hact : act t s p a = some (s', p')) : Moves t s p a s' p' := by
  unfold act at hact
  split at hact
  · rename_i stage task replies
    obtain ⟨client, htask, hnext⟩ := Option.map_eq_some_iff.mp hact
    obtain ⟨rfl, rfl⟩ := Prod.mk.inj hnext
    exact Moves.handled htask stage
  · cases hact
  · rename_i stage results
    obtain ⟨client, hrepeats, hnext⟩ := Option.map_eq_some_iff.mp hact
    obtain ⟨rfl, rfl⟩ := Prod.mk.inj hnext
    refine Moves.repeated hrepeats stage ?_
    split
    · exact Or.inl rfl
    · exact Or.inr rfl
  · cases hact
  · rename_i call
    obtain ⟨rfl, rfl⟩ := Prod.mk.inj (Option.some.inj hact)
    exact Moves.call call
  · obtain ⟨rfl, rfl⟩ := Prod.mk.inj (Option.some.inj hact)
    exact Moves.thenEnd
  · obtain ⟨rfl, rfl⟩ := Prod.mk.inj (Option.some.inj hact)
    exact Moves.leave
  · cases hact
  · rename_i stage
    split at hact
    · cases hact
    · rename_i hjoinable
      obtain ⟨scheduler, place', hinner, rfl, rfl⟩ := actScheduler_eq_some hact
      exact Moves.inner hinner (fun _ => by simp) (by simp)
        (fun _ => Bool.not_eq_false _ ▸ hjoinable) stage
  · obtain ⟨stage, place⟩ := p
    obtain ⟨scheduler, place', hinner, rfl, rfl⟩ := actScheduler_eq_some hact
    refine Moves.inner hinner ?_ ?_ ?_ stage <;> simp_all
  · obtain ⟨stage, place⟩ := p
    obtain ⟨scheduler, place', hinner, rfl, rfl⟩ := actScheduler_eq_some hact
    refine Moves.inner hinner (by simp_all) (by simp_all) ?_ stage
    -- nobody waits for a time in `join`
    rintro rfl
    cases hinner
  · cases hact

end

/-! ## The invariants -/

section

variable {κ : Type*}

/-- A place that a thread ending the scheduler is at: behind its `join` the loop has ended. -/
def Ends (g : Scheduler κ) (place : Scheduler.Point) : Prop :=
  ∃ q, place = .client q ∧ (Scheduler.joins q = true ∨ q = .idle ∧ g.thread.finished = true)

/-- A disconnect was executed, and no connect since. -/
def Disconnected (done : List TaskOfScheduler) : Prop :=
  HeldSince (fun task => task.task = ttDisconnect) (fun task => task.task ≠ ttConnect) done

/-- What holds of the session and all points in every run. -/
structure Inv (s : TcpSession κ) (points : Scheduler.Party κ → Point) : Prop where
  scheduler : (points .scheduler).place.isClient = false
  clients : ∀ k, (points (.client k)).place.isClient = true
  onTask : s.scheduler.onTask = true
  fifo : s.scheduler.added =
    s.done ++ (points .scheduler).place.pending ++ s.scheduler.queue.queue
  closed : Disconnected s.done → s.client.socket = 0
  finished : s.scheduler.thread.finished = true → (points .scheduler).place = .ended
  ends : ∀ k, (points (.client k)).stage = .ending → Ends s.scheduler (points (.client k)).place

variable {t : Scheduler.Party κ} {s s' : TcpSession κ} {p p' : Point} {a : Action}
  {points : Scheduler.Party κ → Point}

/-- A call leaves everything but the memory and the handlers. -/
theorem enter_spec (s : TcpSession κ) (call : TcpClient.Call) :
    (s.enter call).1.scheduler = s.scheduler ∧ (s.enter call).1.done = s.done ∧
      (s.enter call).1.client.socket = s.client.socket ∧
      (s.enter call).1.client.log = s.client.log ∧
      (s.enter call).2.place.isClient = true ∧ (s.enter call).2.stage ≠ .ending := by
  cases call with
  | sendData data =>
      simp only [enter]
      split
      · obtain ⟨hsocket, hlog, -⟩ := TcpClient.enter_stays (s := s.client) (.sendData data)
        exact ⟨rfl, rfl, hsocket, hlog, rfl, by simp⟩
      · exact ⟨rfl, rfl, rfl, rfl, rfl, by simp [add]⟩
  | setHandler handler set => exact ⟨rfl, rfl, rfl, rfl, rfl, by simp [enter]⟩
  | _ => exact ⟨rfl, rfl, rfl, rfl, rfl, by simp [enter, add]⟩

/-- What the handler of a task does to the socket. -/
theorem onTask_spec {replies : TcpClient.Replies} {task : TaskOfScheduler} {client : TcpClient}
    (htask : s.onTask replies task = some client) :
    s.client.LeavesClosed client ∧
      (task.task = ttDisconnect ∨ s.client.socket = 0 ∧ task.task ≠ ttConnect →
        client.socket = 0) := by
  unfold onTask at htask
  split at htask
  · rename_i hnone
    obtain rfl := Option.some.inj htask
    refine ⟨TcpClient.leavesClosed_of_log rfl rfl, ?_⟩
    rintro (hdisconnect | ⟨hsocket, -⟩)
    · simp [toTask, hdisconnect] at hnone
    · exact hsocket
  · rename_i what hwhat
    refine ⟨TcpClient.leavesClosed_handle htask, ?_⟩
    rintro (hdisconnect | ⟨hsocket, hconnect⟩)
    · refine TcpClient.handle_socket_eq_zero htask (Or.inl ?_)
      simpa [toTask, hdisconnect, eq_comm] using hwhat
    · refine TcpClient.handle_socket_eq_zero htask (Or.inr ⟨hsocket, ?_⟩)
      rintro host port rfl
      simp only [toTask, if_neg hconnect] at hwhat
      split at hwhat
      · cases hwhat
      · split at hwhat
        · cases hwhat
        · split at hwhat <;> cases hwhat

variable [DecidableEq κ]

/-- On its way through `terminateAndWait` a thread gets behind `join` when the loop has
ended. -/
theorem ends_step {g g' : Scheduler κ} {place place' : Scheduler.Point}
    (hmove : Scheduler.ThreadMoves t g g' place place') (hends : Ends g place)
    (hidle : place ≠ .client .idle)
    (hjoin : place = .client .join → g.thread.joinable = true) : Ends g' place' := by
  obtain ⟨q, rfl, hq⟩ := hends
  cases hmove with
  | none _ hclient => exact absurd rfl (hclient q)
  | @client _ q' b hb hmove =>
      refine ⟨q', rfl, ?_⟩
      have hjoins : Scheduler.joins q = true := by
        rcases hq with hq | ⟨rfl, -⟩
        · exact hq
        · exact absurd rfl hidle
      generalize g'.thread = thread at hmove
      cases hmove with
      | setFlag join | unlockWake join =>
          obtain rfl : join = true := hjoins
          exact Or.inl rfl
      | lockWake _ join | notify join => exact Or.inl hjoins
      | join hready => exact Or.inr ⟨rfl, hready (hjoin rfl)⟩
      | _ => cases hjoins

/-- The fields that the scheduler's own point decides; the places of the clients and their
part in the end are as they were. -/
theorem Inv.of_scheduler (h : Inv s points) (hplace : p'.place.isClient = false)
    (hset : s'.scheduler.onTask = true)
    (hfifo : s'.scheduler.added = s'.done ++ p'.place.pending ++ s'.scheduler.queue.queue)
    (hclosed : Disconnected s'.done → s'.client.socket = 0)
    (hfinished : s'.scheduler.thread.finished = true → p'.place = .ended)
    (hends : ∀ place, Ends s.scheduler place → Ends s'.scheduler place) :
    Inv s' (Function.update points .scheduler p') := by
  refine ⟨?_, ?_, hset, ?_, hclosed, ?_, ?_⟩
  · rw [Function.update_self]
    exact hplace
  · intro k
    rw [Scheduler.Party.update_scheduler_client]
    exact h.clients k
  · rw [Function.update_self]
    exact hfifo
  · rw [Function.update_self]
    exact hfinished
  · intro k hstage
    rw [Scheduler.Party.update_scheduler_client] at hstage ⊢
    exact hends _ (h.ends k hstage)

/-- What the scheduler's thread does. -/
theorem inv_scheduler (h : Inv s points) (hp : points .scheduler = p)
    (hmove : Moves .scheduler s p a s' p') :
    Inv s' (Function.update points .scheduler p') := by
  have hplace := h.scheduler
  have hfifo := h.fifo
  have hfinished := h.finished
  rw [hp] at hplace hfifo hfinished
  cases hmove with
  | handled htask stage =>
      obtain ⟨-, hsocket⟩ := onTask_spec htask
      refine h.of_scheduler rfl h.onTask ?_ ?_ ?_ fun _ hends => hends
      · simpa [Scheduler.Point.pending] using hfifo
      · intro hclosed
        rcases heldSince_concat.mp hclosed with hlast | ⟨hlast, hbefore⟩
        · exact hsocket (Or.inl hlast)
        · exact hsocket (Or.inr ⟨h.closed hbefore, hlast⟩)
      · intro hend
        cases hfinished hend
  | repeated hrepeats stage hplace' =>
      obtain ⟨hsocket, -⟩ := TcpClient.leavesClosed_repeats hrepeats
      refine h.of_scheduler ?_ h.onTask ?_ ?_ ?_ fun _ hends => hends
      · rcases hplace' with rfl | rfl <;> rfl
      · rcases hplace' with rfl | rfl <;> simpa [Scheduler.Point.pending] using hfifo
      · intro hclosed
        exact hsocket.trans (h.closed hclosed)
      · intro hend
        cases hfinished hend
  | call | thenEnd | leave => cases hplace
  | inner hact hhandling hidle hjoin stage =>
      have hmove := Scheduler.act_moves hact
      have hthread := Scheduler.threadMoves_of_act hact hidle
      have hpending := hmove.pending h.onTask hhandling (fun _ => rfl) hfifo
      rw [if_neg (by simpa using hplace)] at hpending
      have hended : s.scheduler.thread.finished = false := by
        by_contra hend
        have hended := hfinished (Bool.not_eq_false _ ▸ hend)
        simp only at hended
        subst hended
        cases hthread with
        | none _ _ hended => exact hended rfl
      refine h.of_scheduler (hmove.isClient.trans hplace) ((hmove.onTask hidle).trans h.onTask)
        hpending h.closed ?_ ?_
      · intro hend
        rcases hthread.finished with hsame | ⟨-, hplace'⟩
        · rw [hsame, hended] at hend
          cases hend
        · exact hplace'
      · rintro place ⟨q, hq, hjoins | ⟨rfl, hend⟩⟩
        · exact ⟨q, hq, Or.inl hjoins⟩
        · rw [hended] at hend
          cases hend

/-- The fields that a client's own point decides, for a step that executes no task and leaves
the socket and the scheduler's thread as they were. -/
theorem Inv.of_client {k : κ} (h : Inv s points) (hplace : p'.place.isClient = true)
    (hset : s'.scheduler.onTask = true)
    (hfifo : s'.scheduler.added =
      s'.done ++ (points .scheduler).place.pending ++ s'.scheduler.queue.queue)
    (hdone : s'.done = s.done) (hsocket : s'.client.socket = s.client.socket)
    (hfinished : s'.scheduler.thread.finished = s.scheduler.thread.finished)
    (hends : p'.stage = .ending → Ends s'.scheduler p'.place) :
    Inv s' (Function.update points (.client k) p') := by
  refine ⟨?_, ?_, hset, ?_, ?_, ?_, ?_⟩
  · rw [Scheduler.Party.update_client_scheduler]
    exact h.scheduler
  · intro j
    apply at_update (P := fun p : Point => p.place.isClient = true)
    · exact fun _ => hplace
    · exact fun _ => h.clients j
  · rw [Scheduler.Party.update_client_scheduler]
    exact hfifo
  · rw [hdone, hsocket]
    exact h.closed
  · rw [Scheduler.Party.update_client_scheduler, hfinished]
    exact h.finished
  · intro j hstage
    rcases eq_or_ne j k with rfl | hne
    · rw [Function.update_self] at hstage ⊢
      exact hends hstage
    · rw [Function.update_of_ne (by simpa using hne)] at hstage ⊢
      obtain ⟨q, hq, hjoins⟩ := h.ends j hstage
      rw [← hfinished] at hjoins
      exact ⟨q, hq, hjoins⟩

/-- What a client does. -/
theorem inv_client {k : κ} (h : Inv s points) (hp : points (.client k) = p)
    (hmove : Moves (.client k) s p a s' p') :
    Inv s' (Function.update points (.client k) p') := by
  have hplace := h.clients k
  have hends := h.ends k
  rw [hp] at hplace hends
  cases hmove with
  | handled | repeated => cases hplace
  | call call =>
      obtain ⟨hsame, hdone, hsocket, -, hclient, hstage⟩ := enter_spec s call
      refine h.of_client hclient ?_ ?_ hdone hsocket ?_ fun hending => absurd hending hstage
      · rw [hsame]
        exact h.onTask
      · rw [hsame, hdone]
        exact h.fifo
      · rw [hsame]
  | thenEnd =>
      exact h.of_client rfl h.onTask h.fifo rfl rfl rfl fun _ => ⟨.setFlag true, rfl, Or.inl rfl⟩
  | leave => exact h.of_client rfl h.onTask h.fifo rfl rfl rfl nofun
  | inner hact hhandling hidle hjoin stage =>
      have hmove := Scheduler.act_moves hact
      have hthread := Scheduler.threadMoves_of_act hact hidle
      have hpending := hmove.pending h.onTask hhandling
        (fun hnot => by rw [hplace] at hnot; cases hnot) h.fifo
      rw [if_pos hplace] at hpending
      refine h.of_client (hmove.isClient.trans hplace) ((hmove.onTask hidle).trans h.onTask)
        hpending rfl rfl ?_ fun hstage => ends_step hthread (hends hstage) hidle hjoin
      rcases hthread.finished with hsame | ⟨rfl, -⟩
      · exact hsame
      · cases hplace

end

/-! ## All interleavings -/

section

variable {κ : Type*} [DecidableEq κ]

/-- The session, and the point each thread is at. -/
abbrev State (κ : Type*) := Threads (Scheduler.Party κ) (TcpSession κ) Point

def start : Scheduler.Party κ → Point
  | .scheduler => { place := .loop }
  | .client _ => { place := .client .idle }

variable (κ) in
def program : Program (Scheduler.Party κ) (TcpSession κ) Point Action where
  shared := {}
  points := start
  act := act

/-- The scheduler is between its test of the flag and the pop that finds nothing. -/
def Draining (s : State κ) : Prop := (s.points .scheduler).place.isDraining = true

variable (κ) in
/-- A call of `terminate` in a run: the steps up to the call, from there to the push of the
task that it adds, to the store to `is_terminated_`, and to the return. -/
structure Termination where
  caller : κ
  before : List (Scheduler.Party κ × Action)
  toPush : List (Scheduler.Party κ × Action)
  toFlag : List (Scheduler.Party κ × Action)
  toReturn : List (Scheduler.Party κ × Action)
  called : State κ
  pushing : State κ
  flagging : State κ
  returned : State κ
  run_called : (program κ).machine.run before = some called
  run_pushing : (program κ).machine.run
    (before ++ (.client caller, .call .terminate) :: toPush) = some pushing
  run_flagging : (program κ).machine.run
    (before ++ (.client caller, .call .terminate) :: toPush ++
      (.client caller, .next) :: toFlag) = some flagging
  run_returned : (program κ).machine.run
    (before ++ (.client caller, .call .terminate) :: toPush ++
      (.client caller, .next) :: toFlag ++ (.client caller, .next) :: toReturn) = some returned
  push : pushing.points (.client caller) = ⟨.disconnecting, .push disconnectTask⟩
  flag : flagging.points (.client caller) = ⟨.ending, .client (.setFlag true)⟩
  leave : returned.points (.client caller) = ⟨.ending, .client .idle⟩
  one : ∀ call, (.client caller, .call call) ∉ toPush ++ toFlag ++ toReturn

namespace Termination

/-- The tasks up to the one that the call adds. -/
def tasks (T : Termination κ) : List TaskOfScheduler :=
  T.pushing.shared.scheduler.added ++ [disconnectTask]

/-- When the call returns these tasks have been executed, the socket that it found has been
shut down since, and there is no other unless a task behind them was to connect. -/
structure Disconnects (T : Termination κ) : Prop where
  executed : T.tasks <+: T.returned.shared.done
  shutdown : ∃ later, T.returned.shared.client.log = T.called.shared.client.log ++ later ∧
    .shutdown T.called.shared.client.socket ∈ later
  socket : (∀ task ∈ T.returned.shared.done.drop T.tasks.length, task.task ≠ ttConnect) →
    T.returned.shared.client.socket = 0

/-- The flag is set while the scheduler goes on to pop, or when the tasks have been
executed. -/
def InTime (T : Termination κ) : Prop :=
  Draining T.flagging ∨ T.tasks <+: T.flagging.shared.done

end Termination

variable {inputs : List (Scheduler.Party κ × Action)} {s s' : State κ}
  {t : Scheduler.Party κ} {a : Action}

theorem inv_run (hrun : (program κ).machine.run inputs = some s) : Inv s.shared s.points := by
  refine Program.invariant (I := Inv) ?_ ?_ hrun
  · exact ⟨rfl, fun _ => rfl, rfl, rfl, fun _ => rfl, nofun, nofun⟩
  · intro s points t a s' p h hact
    cases t with
    | scheduler => exact inv_scheduler h rfl (act_moves hact)
    | client k => exact inv_client h rfl (act_moves hact)

/-- What a step of the machine is. -/
theorem step_cases (hstep : (program κ).machine.step s (t, a) = some s') :
    ∃ g p, Moves t s.shared (s.points t) a g p ∧ s' = ⟨g, Function.update s.points t p⟩ := by
  obtain ⟨g, p, hact, rfl⟩ := Program.step_eq_some.mp hstep
  exact ⟨g, p, act_moves hact, rfl⟩

/-! ### The tasks and the socket since a state of the run -/

/-- Tasks are added and executed; a socket that there was is shut down before a disconnect
has been executed. -/
structure Since (s₀ s : TcpSession κ) : Prop where
  added : s₀.scheduler.added <+: s.scheduler.added
  goes : ∃ executed later, s.done = s₀.done ++ executed ∧
    s.client.log = s₀.client.log ++ later ∧ (s₀.client.socket ≠ 0 →
      .shutdown s₀.client.socket ∈ later ∨
        s.client.socket = s₀.client.socket ∧ ∀ task ∈ executed, task.task ≠ ttDisconnect)

omit [DecidableEq κ] in
theorem Since.refl (s : TcpSession κ) : Since s s :=
  ⟨List.prefix_refl _, [], [], by simp, by simp, fun _ => Or.inr ⟨rfl, by simp⟩⟩

omit [DecidableEq κ] in
/-- A step that executes no task. -/
theorem Since.same {s₀ s s' : TcpSession κ} (h : Since s₀ s)
    (hadded : s.scheduler.added <+: s'.scheduler.added) (hdone : s'.done = s.done)
    (hsocket : s'.client.socket = s.client.socket)
    (hlog : ∃ more, s'.client.log = s.client.log ++ more) : Since s₀ s' := by
  obtain ⟨executed, later, hexecuted, hlater, hclosed⟩ := h.goes
  obtain ⟨more, hmore⟩ := hlog
  refine ⟨h.added.trans hadded, executed, later ++ more, hdone.trans hexecuted, ?_, ?_⟩
  · rw [hmore, hlater, List.append_assoc]
  · intro hconnected
    rcases hclosed hconnected with hshutdown | ⟨hsame, hnone⟩
    · exact Or.inl (List.mem_append_left _ hshutdown)
    · exact Or.inr ⟨hsocket.trans hsame, hnone⟩

theorem Since.step {s₀ s s' : TcpSession κ} {p p' : Point} (h : Since s₀ s)
    (hmove : Moves t s p a s' p') : Since s₀ s' := by
  cases hmove with
  | @handled replies task client htask stage =>
      obtain ⟨⟨more, hmore, hleaves⟩, hzero⟩ := onTask_spec htask
      obtain ⟨executed, later, hexecuted, hlater, hclosed⟩ := h.goes
      refine ⟨h.added, executed ++ [task], later ++ more, ?_, ?_, ?_⟩
      · rw [hexecuted, List.append_assoc]
      · rw [hmore, hlater, List.append_assoc]
      · intro hconnected
        rcases hclosed hconnected with hshutdown | ⟨hsame, hnone⟩
        · exact Or.inl (List.mem_append_left _ hshutdown)
        · rw [hsame] at hleaves
          rcases hleaves with hstays | hnot | hshutdown
          · refine Or.inr ⟨hstays, ?_⟩
            intro other hother hdisconnect
            rcases List.mem_append.mp hother with hother | hother
            · exact hnone other hother hdisconnect
            · obtain rfl := List.mem_singleton.mp hother
              exact hconnected (hstays.symm.trans (hzero (Or.inl hdisconnect)))
          · exact absurd hnot hconnected
          · exact Or.inl (List.mem_append_right _ hshutdown)
  | repeated hrepeats =>
      obtain ⟨hsocket, more, hmore, -⟩ := TcpClient.leavesClosed_repeats hrepeats
      exact h.same (List.prefix_refl _) rfl hsocket ⟨more, hmore⟩
  | call call =>
      obtain ⟨hscheduler, hdone, hsocket, hlog, -⟩ := enter_spec s call
      refine h.same ?_ hdone hsocket ⟨[], by rw [hlog, List.append_nil]⟩
      rw [hscheduler]
  | thenEnd => exact h.same (List.prefix_refl _) rfl rfl ⟨[], (List.append_nil _).symm⟩
  | leave => exact h
  | inner hact =>
      exact h.same (Scheduler.act_moves hact).added rfl rfl ⟨[], (List.append_nil _).symm⟩

theorem since_run {first second : List (Scheduler.Party κ × Action)} {s₀ : State κ}
    (hfirst : (program κ).machine.run first = some s₀)
    (hrun : (program κ).machine.run (first ++ second) = some s) : Since s₀.shared s.shared := by
  refine Machine.run_relation (R := fun s₀ s => Since s₀.shared s.shared)
    (fun s => Since.refl s.shared) ?_ hfirst hrun
  rintro inputs s₀ s ⟨t, a⟩ s' - h hstep
  obtain ⟨g, p, hmove, rfl⟩ := step_cases hstep
  exact h.step hmove

/-! ### The tasks from the flag on -/

/-- A step of a client moves no other thread and executes nothing. -/
theorem client_step {k : κ} (h : Inv s.shared s.points)
    (hstep : (program κ).machine.step s (.client k, a) = some s') :
    s'.points .scheduler = s.points .scheduler ∧ s'.shared.done = s.shared.done := by
  obtain ⟨g, p, hmove, rfl⟩ := step_cases hstep
  refine ⟨Scheduler.Party.update_client_scheduler s.points p k, ?_⟩
  have hplace := h.clients k
  generalize s.points (.client k) = q at hmove hplace
  cases hmove with
  | handled => cases hplace
  | call call => exact (enter_spec s.shared call).2.1
  | _ => rfl

theorem isTerminated_step (hstep : (program κ).machine.step s (t, a) = some s')
    (hflag : s.shared.scheduler.thread.isTerminated = true) :
    s'.shared.scheduler.thread.isTerminated = true := by
  obtain ⟨g, p, hmove, rfl⟩ := step_cases hstep
  generalize s.points t = q at hmove
  cases hmove with
  | call call => rwa [(enter_spec s.shared call).1]
  | inner hact _ hidle => exact (Scheduler.threadMoves_of_act hact hidle).isTerminated hflag
  | _ => exact hflag

/-- The scheduler goes on to pop until the queue is empty, and then everything added has been
executed. -/
theorem draining_step (h : Inv s.shared s.points)
    (hstep : (program κ).machine.step s (.scheduler, a) = some s') (hdraining : Draining s) :
    Draining s' ∨ s'.shared.done = s.shared.scheduler.added := by
  obtain ⟨g, p, hmove, rfl⟩ := step_cases hstep
  have hfifo := h.fifo
  have hplace := h.scheduler
  simp only [Draining, Function.update_self] at hdraining ⊢
  generalize s.points .scheduler = q at hmove hdraining hfifo hplace
  cases hmove with
  | handled => exact Or.inl rfl
  | repeated => cases hdraining
  | call | thenEnd | leave => cases hplace
  | inner hact =>
      rcases (Scheduler.act_moves hact).draining hdraining with hgoes | ⟨hempty, hnone⟩
      · exact Or.inl hgoes
      · refine Or.inr ?_
        rw [hfifo, hempty, hnone, List.append_nil, List.append_nil]

/-- Behind the pops, with the flag set, no task is executed any more. -/
theorem over_step (h : Inv s.shared s.points)
    (hstep : (program κ).machine.step s (t, a) = some s')
    (hflag : s.shared.scheduler.thread.isTerminated = true) (hover : ¬ Draining s) :
    ¬ Draining s' ∧ s'.shared.done = s.shared.done := by
  cases t with
  | client k =>
      obtain ⟨hsame, hdone⟩ := client_step h hstep
      exact ⟨by rwa [Draining, hsame], hdone⟩
  | scheduler =>
      obtain ⟨g, p, hmove, rfl⟩ := step_cases hstep
      have hplace := h.scheduler
      simp only [Draining, Function.update_self, Bool.not_eq_true] at hover ⊢
      generalize s.points .scheduler = q at hmove hover hplace
      cases hmove with
      | handled => cases hover
      | repeated _ _ hplace' => rcases hplace' with rfl | rfl <;> exact ⟨rfl, rfl⟩
      | call | thenEnd | leave => cases hplace
      | inner hact => exact ⟨(Scheduler.act_moves hact).not_draining hflag hover, rfl⟩

/-- Tasks that are in time stay so. -/
theorem inTime_run {first second : List (Scheduler.Party κ × Action)} {s₀ : State κ}
    (hfirst : (program κ).machine.run first = some s₀)
    (hrun : (program κ).machine.run (first ++ second) = some s)
    {tasks : List TaskOfScheduler} (hadded : tasks <+: s₀.shared.scheduler.added)
    (hintime : Draining s₀ ∨ tasks <+: s₀.shared.done) : Draining s ∨ tasks <+: s.shared.done := by
  have hrel := Machine.run_relation
    (R := fun s₀ s : State κ => tasks <+: s₀.shared.scheduler.added ∧
      (Draining s₀ ∨ tasks <+: s₀.shared.done) →
      tasks <+: s.shared.scheduler.added ∧ (Draining s ∨ tasks <+: s.shared.done))
    (fun s h => h) ?_ hfirst hrun
  · exact (hrel ⟨hadded, hintime⟩).2
  · rintro inputs s₀ s ⟨t, a⟩ s' hs hbefore hstep h
    obtain ⟨hadded, hintime⟩ := hbefore h
    have hinv := inv_run hs
    have hsince := since_run hs (Machine.run_concat_eq_some.mpr ⟨s, hs, hstep⟩)
    refine ⟨hadded.trans hsince.added, ?_⟩
    obtain ⟨executed, -, hdone, -⟩ := hsince.goes
    rcases hintime with hdraining | hexecuted
    · cases t with
      | client k =>
          obtain ⟨hsame, -⟩ := client_step hinv hstep
          exact Or.inl (by rwa [Draining, hsame])
      | scheduler =>
          rcases draining_step hinv hstep hdraining with hgoes | hall
          · exact Or.inl hgoes
          · exact Or.inr (hall ▸ hadded)
    · exact Or.inr (hexecuted.trans (hdone ▸ List.prefix_append _ _))

/-- What has not been executed when the pops are over and the flag is set never is. -/
theorem over_run {first second : List (Scheduler.Party κ × Action)} {s₀ : State κ}
    (hfirst : (program κ).machine.run first = some s₀)
    (hrun : (program κ).machine.run (first ++ second) = some s)
    (hflag : s₀.shared.scheduler.thread.isTerminated = true) (hover : ¬ Draining s₀) :
    s.shared.done = s₀.shared.done := by
  have hrel := Machine.run_relation
    (R := fun s₀ s : State κ => s₀.shared.scheduler.thread.isTerminated = true ∧ ¬ Draining s₀ →
      (s.shared.scheduler.thread.isTerminated = true ∧ ¬ Draining s) ∧
        s.shared.done = s₀.shared.done)
    (fun s h => ⟨h, rfl⟩) ?_ hfirst hrun
  · exact (hrel ⟨hflag, hover⟩).2
  · rintro inputs s₀ s ⟨t, a⟩ s' hs hbefore hstep h
    obtain ⟨⟨hflag, hover⟩, hdone⟩ := hbefore h
    obtain ⟨hover', hdone'⟩ := over_step (inv_run hs) hstep hflag hover
    exact ⟨⟨isTerminated_step hstep hflag, hover'⟩, hdone'.trans hdone⟩

namespace Termination

variable (T : Termination κ)

/-- The task of the call is added at its push. -/
theorem tasks_prefix_added : T.tasks <+: T.flagging.shared.scheduler.added := by
  have hrun := T.run_flagging
  rw [List.append_cons] at hrun
  obtain ⟨s₁, hs₁⟩ := Machine.run_front hrun
  refine List.IsPrefix.trans ?_ (since_run hs₁ hrun).added
  obtain ⟨s, hs, hstep⟩ := Machine.run_concat_eq_some.mp hs₁
  obtain rfl := Option.some.inj (hs.symm.trans T.run_pushing)
  obtain ⟨g, p, hmove, rfl⟩ := step_cases hstep
  rw [T.push] at hmove
  cases hmove with
  | inner hact =>
      cases Scheduler.act_moves hact with
      | push => exact List.prefix_refl _

/-- The state behind the store to `is_terminated_`. -/
theorem flagged : ∃ s₁, (program κ).machine.run
      (T.before ++ (.client T.caller, .call .terminate) :: T.toPush ++
        (.client T.caller, .next) :: T.toFlag ++ [(.client T.caller, .next)]) = some s₁ ∧
    s₁.shared.scheduler.thread.isTerminated = true ∧
    s₁.points .scheduler = T.flagging.points .scheduler ∧
    s₁.shared.done = T.flagging.shared.done := by
  have hrun := T.run_returned
  rw [List.append_cons] at hrun
  obtain ⟨s₁, hs₁⟩ := Machine.run_front hrun
  obtain ⟨s, hs, hstep⟩ := Machine.run_concat_eq_some.mp hs₁
  obtain rfl := Option.some.inj (hs.symm.trans T.run_flagging)
  refine ⟨s₁, hs₁, ?_, client_step (inv_run hs) hstep⟩
  obtain ⟨g, p, hmove, rfl⟩ := step_cases hstep
  rw [T.flag] at hmove
  cases hmove with
  | inner hact => exact (Scheduler.threadMoves_of_act hact (by simp)).setFlag

/-- The thread has ended when the call returns. -/
theorem not_draining_returned : ¬ Draining T.returned := by
  have hinv := inv_run T.run_returned
  obtain ⟨q, hq, hjoins⟩ := hinv.ends T.caller (by rw [T.leave])
  rw [T.leave] at hq
  cases hq
  have hfinished := hjoins.resolve_left (by decide)
  rw [Draining, hinv.finished hfinished.2]
  decide

/-- The tasks up to the disconnect have been executed when the call returns in exactly the
runs that set the flag in time. -/
theorem executed_iff : T.tasks <+: T.returned.shared.done ↔ T.InTime := by
  obtain ⟨s₁, hs₁, hflag, hscheduler, hdone⟩ := T.flagged
  have hrun := T.run_returned
  rw [List.append_cons] at hrun
  constructor
  · intro hexecuted
    by_contra hlate
    rw [InTime, not_or] at hlate
    have hover : ¬ Draining s₁ := by
      rw [Draining, hscheduler]
      exact hlate.1
    rw [over_run hs₁ hrun hflag hover, hdone] at hexecuted
    exact hlate.2 hexecuted
  · intro hintime
    have hadded := T.tasks_prefix_added
    exact (inTime_run T.run_flagging T.run_returned hadded hintime).resolve_left
      T.not_draining_returned

/-- What the call is for follows from the execution of its task. -/
theorem disconnects_of_executed (hconnected : T.called.shared.client.isConnected = true)
    (hexecuted : T.tasks <+: T.returned.shared.done) : T.Disconnects := by
  have hsocket : T.called.shared.client.socket ≠ 0 := by
    simpa [TcpClient.isConnected] using hconnected
  obtain ⟨behind, hbehind⟩ := id hexecuted
  refine ⟨hexecuted, ?_, ?_⟩
  · have hadded : T.called.shared.done <+: T.pushing.shared.scheduler.added := by
      have hfifo := (inv_run T.run_called).fifo
      rw [List.append_assoc] at hfifo
      exact (hfifo ▸ List.prefix_append _ _).trans (since_run T.run_called T.run_pushing).added
    have hrun := T.run_returned
    rw [List.append_assoc, List.append_assoc] at hrun
    obtain ⟨executed, later, hdone, hlog, hclosed⟩ := (since_run T.run_called hrun).goes
    refine ⟨later, hlog, (hclosed hsocket).resolve_right ?_⟩
    rintro ⟨-, hnone⟩
    -- the disconnect stands behind what had been executed when the call began
    obtain ⟨front, hfront⟩ := hadded
    rw [hdone, tasks, ← hfront, List.append_assoc, List.append_assoc,
      List.append_cancel_left_eq] at hbehind
    exact hnone disconnectTask (by rw [← hbehind]; simp) rfl
  · intro hnone
    refine (inv_run T.run_returned).closed
      ⟨T.pushing.shared.scheduler.added, disconnectTask, behind, ?_, rfl, ?_⟩
    · rw [← hbehind, tasks, List.append_assoc]
      rfl
    · rwa [← hbehind, List.drop_left] at hnone

end Termination

/-- When a call of `terminate` on a connected client returns, its disconnect and all tasks
before it have been executed, and with them the socket shut down, in exactly the runs that set
the flag while the scheduler goes on to pop or behind the execution of the tasks. -/
theorem disconnects_iff (T : Termination κ)
    (hconnected : T.called.shared.client.isConnected = true) : T.Disconnects ↔ T.InTime := by
  constructor
  · intro h
    exact T.executed_iff.mp h.executed
  · intro hintime
    exact T.disconnects_of_executed hconnected (T.executed_iff.mpr hintime)

/-- The client is connected, and the scheduler calls the handler that receives. -/
def receiving : List (Scheduler.Party ℕ × Action) :=
  [(.client 0, .call (.connect "127.0.0.1" 80)), (.client 0, .next), (.client 0, .next),
    (.client 0, .next), (.client 0, .next),
    (.scheduler, .next), (.scheduler, .next), (.scheduler, .next), (.scheduler, .onTask {}),
    (.scheduler, .next), (.scheduler, .next), (.scheduler, .next)]

/-- The state that a run ends in. -/
def stateAfter (inputs : List (Scheduler.Party ℕ × Action))
    (hrun : ((program ℕ).machine.run inputs).isSome = true) : State ℕ :=
  ((program ℕ).machine.run inputs).get hrun

theorem run_eq_stateAfter {inputs : List (Scheduler.Party ℕ × Action)}
    (hrun : ((program ℕ).machine.run inputs).isSome = true) :
    (program ℕ).machine.run inputs = some (stateAfter inputs hrun) :=
  (Option.some_get hrun).symm

/-- Then `terminate` adds its task and sets the flag, and the handler receives a byte and
returns. -/
def late : Termination ℕ where
  caller := 0
  before := receiving
  toPush := []
  toFlag := [(.client 0, .next), (.client 0, .next), (.client 0, .next), (.client 0, .next)]
  toReturn := [(.client 0, .next), (.client 0, .next), (.client 0, .next),
    (.scheduler, .onRepeat [.received ⟨[65], by decide⟩, .wouldBlock]), (.scheduler, .next),
    (.client 0, .next)]
  called := stateAfter _ rfl
  pushing := stateAfter _ rfl
  flagging := stateAfter _ rfl
  returned := stateAfter _ rfl
  run_called := run_eq_stateAfter rfl
  run_pushing := run_eq_stateAfter rfl
  run_flagging := run_eq_stateAfter rfl
  run_returned := run_eq_stateAfter rfl
  push := rfl
  flag := rfl
  leave := rfl
  one := by simp

/-- The socket of the client is open when `terminate` has returned. -/
theorem not_disconnects_late : late.called.shared.client.isConnected = true ∧
    ¬ late.Disconnects ∧ late.returned.shared.client.socket = 3 := by
  refine ⟨rfl, ?_, rfl⟩
  intro h
  exact absurd h.executed.length_le (by decide)

theorem disconnects_iff_late : late.Disconnects ↔ late.InTime := disconnects_iff late rfl

end

end TcpSession

end RyuLib
