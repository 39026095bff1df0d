import RyuLib.Socket.Packet
import RyuLib.Thread.Scheduler

/-!
# TcpClient

A client on one non-blocking socket.  Its calls add tasks to a `Scheduler`, which hands
them over one after another in their order (`Scheduler.runs_in_order`) and receives while
there are none.  The client regards itself as connected while `socket_` is not 0.

What the operating system answers is part of the input of a step.  `established` says
whether the connection that `select` waits for has come about: the source tests that a
descriptor is ready, not why.
-/

namespace RyuLib

open Foundations

namespace TcpClient

/-- ttConnect, ttDisconnect, ttSendData and ttSendText with their arguments. -/
inductive Task
  | connect (host : String) (port : ℤ)
  | disconnect
  | sendData (data : List UInt8)
  | sendText (text : List UInt8)
  deriving DecidableEq

/-- The bytes that a task is to send. -/
def Task.message : Task → List UInt8
  | .sendData data => data
  | .sendText text => text
  | _ => []

/-- `::connect` succeeds or fails at once, or goes on while `select` waits for it. -/
inductive ConnectResult
  | succeeds
  | fails
  | inProgress (ready : ℤ) (established : Bool)
  deriving DecidableEq

namespace ConnectResult

/-- The local `connected` of `do_connect`. -/
def connected : ConnectResult → Bool
  | .succeeds => true
  | .fails => false
  | .inProgress ready _ => decide (0 < ready)

/-- There is a connection. -/
def established : ConnectResult → Bool
  | .succeeds => true
  | .fails => false
  | .inProgress _ established => established

end ConnectResult

inductive SendResult
  | accepted (n : ℕ)
  | failed
  deriving DecidableEq

/-- What `gethostbyname`, `socket`, `::connect` and `send` return to one task. -/
structure Replies where
  found : Bool := true
  socket : ℤ := 3
  connect : ConnectResult := .succeeds
  send : SendResult := .failed

abbrev receiveSize : ℕ := 4096

/-- What one `recv` returns: some bytes, 0, or -1 with or without EAGAIN. -/
inductive RecvResult
  | received (bytes : { bytes : List UInt8 // bytes ≠ [] ∧ bytes.length ≤ receiveSize })
  | endOfStream
  | wouldBlock
  | failed
  deriving DecidableEq

inductive Handler
  | onConnected
  | onDisconnected
  | onReceived
  | onError
  | onRepeat
  deriving DecidableEq

inductive Event
  | connected
  | disconnected
  | received (bytes : List UInt8)
  | error (code : ℤ) (msg : String)
  | repeated
  deriving DecidableEq

/-- The handler that an event calls. -/
def Event.handler : Event → Handler
  | .connected => .onConnected
  | .disconnected => .onDisconnected
  | .received _ => .onReceived
  | .error _ _ => .onError
  | .repeated => .onRepeat

/-- What happened to the socket and the tasks: a task was taken from the queue, `do_connect`
began, `::connect` was called and the connection came about or not, `send` took bytes or
failed, `recv` returned, the socket was shut down. -/
inductive Occurrence
  | took (task : Task)
  | connecting
  | requested (fd : ℤ) (host : String) (port : ℕ)
  | connected (fd : ℤ)
  | notConnected (fd : ℤ)
  | sent (bytes : List UInt8)
  | sendFailed
  | recv (result : RecvResult)
  | shutdown (fd : ℤ)
  deriving DecidableEq

end TcpClient

/-- `handlers` are the events that are set.  `called` are the tasks in the order of the
calls, and `log` what happened; no step looks at them. -/
structure TcpClient where
  socket : ℤ := 0
  idleCount : ℤ := 0
  tasks : ThreadQueue TcpClient.Task := {}
  handlers : TcpClient.Handler → Bool := fun _ => false
  events : List TcpClient.Event := []
  called : List TcpClient.Task := []
  log : List TcpClient.Occurrence := []

namespace TcpClient

/-- The public functions; `sendText` is given the bytes from its pointer on. -/
inductive Call
  | connect (host : String) (port : ℤ)
  | disconnect
  | terminate
  | sendData (data : List UInt8)
  | sendText (text : List UInt8)
  | setHandler (handler : Handler) (set : Bool)
  deriving DecidableEq

/-- A call, a task that the scheduler hands over, or one execution of the repeated handler
with what `recv` returns to it. -/
inductive Input
  | call (call : Call)
  | task (replies : Replies)
  | poll (results : List RecvResult)

def isConnected (s : TcpClient) : Bool := s.socket ≠ 0

/-- An event reaches its handler if there is one. -/
def fire (s : TcpClient) (event : Event) : TcpClient :=
  if s.handlers event.handler = true then { s with events := s.events ++ [event] } else s

def record (s : TcpClient) (what : Occurrence) : TcpClient := { s with log := s.log ++ [what] }

def add (s : TcpClient) (task : Task) : TcpClient :=
  { s with tasks := s.tasks.push task, called := s.called ++ [task] }

/-- The public functions.  `terminate` ends with the end of the scheduler. -/
def enter (s : TcpClient) : Call → TcpClient
  | .connect host port => s.add (.connect host port)
  | .disconnect => s.add .disconnect
  | .terminate => s.add .disconnect
  | .sendData data =>
      if packetLimit < data.length then
        s.fire (.error (-4) "Packet size is limited to exec(_codes_) bytes.")
      else s.add (.sendData data)
  | .sendText text => s.add (.sendText (cString text))
  | .setHandler handler set =>
      { s with handlers := Function.update s.handlers handler set }

def doDisconnect (s : TcpClient) : TcpClient :=
  if s.socket = 0 then s else { s with socket := 0 }.record (.shutdown s.socket)

/-- `::connect` on the socket; `htons` keeps 16 bits of the port. -/
def request (s : TcpClient) (replies : Replies) (host : String) (port : ℤ) : TcpClient :=
  (s.record (.requested s.socket host (port % 2 ^ 16).toNat)).record
    (if replies.connect.established = true then .connected s.socket else .notConnected s.socket)

/-- `socket` and everything behind it in `do_connect`. -/
def openSocket (s : TcpClient) (replies : Replies) (host : String) (port : ℤ) : TcpClient :=
  if replies.socket < 0 then
    { s with socket := replies.socket }.fire (.error (-2) "Can't open socket stream.")
  else if replies.connect.connected = true then
    ({ s with socket := replies.socket }.request replies host port).fire .connected
  else
    ({ s with socket := replies.socket }.request replies host port).doDisconnect.fire
      (.error (-3) "can't connect to server.")

/-- The first character of a host decides whether its name is looked up; `host.at(0)` throws
where there is none. -/
def doConnect (s : TcpClient) (replies : Replies) (host : String) (port : ℤ) :
    Option TcpClient :=
  match host.toList with
  | [] => none
  | first :: _ =>
      let s := s.record .connecting
      if first.isDigit = false ∧ replies.found = false then
        some (s.fire (.error (-1) "gethostbyname, can't find domain."))
      else some (s.openSocket replies host port)

/-- `send` takes some bytes of the data, or fails.  Its size went through an `int`. -/
def doSendData (s : TcpClient) (replies : Replies) (data : List UInt8) : Option TcpClient :=
  if s.socket = 0 then some s
  else
    match replies.send with
    | .failed => some ((s.record .sendFailed).doDisconnect.fire .disconnected)
    | .accepted n =>
        if sizeT (toInt data.length) < n ∨ data.length < n then none
        else if n = 0 then some ((s.record (.sent [])).doDisconnect.fire .disconnected)
        else some (s.record (.sent (data.take n)))

/-- The loop of `do_receive` from one result of `recv` on. -/
def drain (s : TcpClient) : List RecvResult → Option TcpClient
  | [] => none
  | .received bytes :: results =>
      drain ((s.record (.recv (.received bytes))).fire (.received bytes.val)) results
  | [result] => some (s.record (.recv result))
  | _ :: _ => none

/-- Whether something was received, and the client after it. -/
def doReceive (s : TcpClient) (results : List RecvResult) : Option (Bool × TcpClient) :=
  if s.socket = 0 then some (false, s)
  else
    match results with
    | .received _ :: _ => (s.drain results).map fun s' => (true, s')
    | _ => (s.drain results).map fun s' => (false, s')

/-- The handler of the tasks. -/
def handle (s : TcpClient) (replies : Replies) : Task → Option TcpClient
  | .connect host port => s.doDisconnect.doConnect replies host port
  | .disconnect => some s.doDisconnect
  | .sendData data => s.doSendData replies data
  | .sendText text => s.doSendData replies text

/-- The handler that is repeated while there are no tasks. -/
def repeats (s : TcpClient) (results : List RecvResult) : Option TcpClient :=
  (s.doReceive results).map fun
    | (true, s') => { s' with idleCount := 0 }
    | (false, s') => { s' with idleCount := s'.idleCount + 5 }.fire .repeated

def step (s : TcpClient) : Input → Option TcpClient
  | .call call => some (s.enter call)
  | .task replies =>
      match s.tasks.pop with
      | (none, _) => none
      | (some task, tasks) => ({ s with tasks := tasks }.record (.took task)).handle replies task
  | .poll results => s.repeats results

def machine : Machine TcpClient Input := ⟨{}, step⟩

/-! ## What the handlers do -/

section

variable {s s' : TcpClient} {replies : Replies}

@[simp] theorem fire_socket (event : Event) : (s.fire event).socket = s.socket := by
  unfold fire
  split <;> rfl

@[simp] theorem fire_log (event : Event) : (s.fire event).log = s.log := by
  unfold fire
  split <;> rfl

@[simp] theorem fire_tasks (event : Event) : (s.fire event).tasks = s.tasks := by
  unfold fire
  split <;> rfl

@[simp] theorem fire_called (event : Event) : (s.fire event).called = s.called := by
  unfold fire
  split <;> rfl

@[simp] theorem record_socket (what : Occurrence) : (s.record what).socket = s.socket := rfl

@[simp] theorem record_log (what : Occurrence) : (s.record what).log = s.log ++ [what] := rfl

@[simp] theorem doDisconnect_socket : s.doDisconnect.socket = 0 := by
  unfold doDisconnect
  split
  · assumption
  · rfl

/-- The tasks that were taken from the queue. -/
def processed (log : List Occurrence) : List Task :=
  log.filterMap fun
    | .took task => some task
    | _ => none

/-- Nothing is taken from the queue, and nothing put there. -/
structure Stays (s s' : TcpClient) : Prop where
  tasks : s'.tasks = s.tasks
  called : s'.called = s.called
  processed : processed s'.log = processed s.log

theorem Stays.refl (s : TcpClient) : Stays s s := ⟨rfl, rfl, rfl⟩

theorem Stays.trans {s₁ s₂ s₃ : TcpClient} (h : Stays s₁ s₂) (h' : Stays s₂ s₃) : Stays s₁ s₃ :=
  ⟨h'.tasks.trans h.tasks, h'.called.trans h.called, h'.processed.trans h.processed⟩

theorem stays_fire (event : Event) : Stays s (s.fire event) := by
  constructor <;> simp

theorem stays_record {what : Occurrence} (hwhat : ∀ task, what ≠ .took task) :
    Stays s (s.record what) := by
  refine ⟨rfl, rfl, ?_⟩
  cases what with
  | took task => exact absurd rfl (hwhat task)
  | _ => simp [processed]

theorem stays_doDisconnect : Stays s s.doDisconnect := by
  unfold doDisconnect
  split
  · exact Stays.refl s
  · have hsocket : Stays s { s with socket := 0 } := ⟨rfl, rfl, rfl⟩
    exact hsocket.trans (stays_record (by simp))

theorem stays_request (host : String) (port : ℤ) : Stays s (s.request replies host port) := by
  refine (stays_record (by simp)).trans (stays_record ?_)
  intro task
  split <;> simp

theorem stays_openSocket (host : String) (port : ℤ) :
    Stays s (s.openSocket replies host port) := by
  have hsocket : Stays s { s with socket := replies.socket } := ⟨rfl, rfl, rfl⟩
  have hrequest : Stays s ({ s with socket := replies.socket }.request replies host port) :=
    hsocket.trans (stays_request host port)
  unfold openSocket
  split
  · exact hsocket.trans (stays_fire _)
  · split
    · exact hrequest.trans (stays_fire _)
    · exact (hrequest.trans stays_doDisconnect).trans (stays_fire _)

/-- `do_connect` throws, gives up, or opens a socket. -/
theorem doConnect_cases {host : String} {port : ℤ}
    (hconnect : s.doConnect replies host port = some s') :
    if host.toList.head?.any Char.isDigit = true ∨ replies.found = true then
      s' = (s.record .connecting).openSocket replies host port
    else s' = (s.record .connecting).fire (.error (-1) "gethostbyname, can't find domain.") := by
  unfold doConnect at hconnect
  split at hconnect
  · cases hconnect
  · rename_i first _ hhost
    rw [hhost]
    cases hdigit : first.isDigit <;> cases hfound : replies.found <;>
      simpa [hdigit, hfound, eq_comm] using hconnect

/-- `do_sendData` does nothing without a socket, closes it when `send` takes nothing, and
otherwise leaves it at what `send` takes. -/
theorem doSendData_cases {data : List UInt8} (hsend : s.doSendData replies data = some s') :
    (s.socket = 0 ∧ s' = s) ∨
    (s.socket ≠ 0 ∧ s'.socket = 0 ∧ Stays s s' ∧
      (replies.send = .failed ∨ replies.send = .accepted 0)) ∨
    (s.socket ≠ 0 ∧ ∃ n, replies.send = .accepted n ∧ n ≠ 0 ∧ n ≤ data.length ∧
      s' = s.record (.sent (data.take n))) := by
  have hclose : ∀ what : Occurrence, (∀ task, what ≠ .took task) →
      Stays s ((s.record what).doDisconnect.fire .disconnected) := by
    intro what hwhat
    exact ((stays_record hwhat).trans stays_doDisconnect).trans (stays_fire _)
  unfold doSendData at hsend
  split at hsend
  · rename_i hsocket
    exact Or.inl ⟨hsocket, (Option.some.inj hsend).symm⟩
  · rename_i hsocket
    split at hsend
    · rename_i hfailed
      obtain rfl := Option.some.inj hsend
      exact Or.inr (Or.inl ⟨hsocket, by simp, hclose _ (by simp), Or.inl hfailed⟩)
    · rename_i n haccepted
      split at hsend
      · cases hsend
      · rename_i hfits
        rw [not_or, not_lt, not_lt] at hfits
        split at hsend
        · rename_i hzero
          obtain rfl := Option.some.inj hsend
          exact Or.inr (Or.inl ⟨hsocket, by simp, hclose _ (by simp), Or.inr (hzero ▸ haccepted)⟩)
        · rename_i hpositive
          obtain rfl := Option.some.inj hsend
          exact Or.inr (Or.inr ⟨hsocket, n, haccepted, hpositive, hfits.2, rfl⟩)

/-- The loop receives until `recv` has nothing, and leaves everything but the log. -/
theorem drain_eq_some {results : List RecvResult} (hdrain : s.drain results = some s') :
    s'.socket = s.socket ∧ s'.tasks = s.tasks ∧ s'.called = s.called ∧
      s'.log = s.log ++ results.map .recv ∧
      ∃ chunks last, results = List.map .received chunks ++ [last] ∧
        ∀ bytes, last ≠ .received bytes := by
  induction results generalizing s with
  | nil => cases hdrain
  | cons result results ih =>
      cases result with
      | received bytes =>
          obtain ⟨hsocket, htasks, hcalled, hlog, chunks, last, hresults, hlast⟩ := ih hdrain
          refine ⟨by simpa using hsocket, htasks.trans (fire_tasks _),
            hcalled.trans (fire_called _), ?_, bytes :: chunks, last, by simp [hresults], hlast⟩
          simpa using hlog
      | _ =>
          cases results with
          | cons _ _ => cases hdrain
          | nil =>
              obtain rfl := Option.some.inj hdrain
              exact ⟨rfl, rfl, rfl, rfl, [], _, rfl, by simp⟩

/-- An execution of the repeated handler does nothing without a socket, or is one of the
loop. -/
theorem repeats_cases {results : List RecvResult} (hrepeats : s.repeats results = some s') :
    ∃ s₁, s'.socket = s₁.socket ∧ s'.tasks = s₁.tasks ∧ s'.called = s₁.called ∧ s'.log = s₁.log ∧
      ((s.socket = 0 ∧ s₁ = s) ∨ (s.socket ≠ 0 ∧ s.drain results = some s₁)) := by
  obtain ⟨⟨received, s₁⟩, hreceive, rfl⟩ := Option.map_eq_some_iff.mp hrepeats
  have hdrain : (s.socket = 0 ∧ s₁ = s) ∨ (s.socket ≠ 0 ∧ s.drain results = some s₁) := by
    unfold doReceive at hreceive
    split at hreceive
    · rename_i hsocket
      exact Or.inl ⟨hsocket, (Prod.mk.inj (Option.some.inj hreceive)).2.symm⟩
    · rename_i hsocket
      split at hreceive <;>
      · obtain ⟨s₂, hdrain, hnext⟩ := Option.map_eq_some_iff.mp hreceive
        exact Or.inr ⟨hsocket, (Prod.mk.inj hnext).2 ▸ hdrain⟩
  cases received with
  | true => exact ⟨s₁, rfl, rfl, rfl, rfl, hdrain⟩
  | false => exact ⟨s₁, by simp, by simp, by simp, by simp, hdrain⟩

/-- A task is the first of the queue. -/
theorem step_task {replies : Replies} (hstep : s.step (.task replies) = some s') :
    ∃ task rest, s.tasks.queue = task :: rest ∧
      ({ s with tasks := ⟨rest⟩ }.record (.took task)).handle replies task = some s' := by
  unfold step at hstep
  cases hqueue : s.tasks.queue with
  | nil => simp [ThreadQueue.pop, hqueue] at hstep
  | cons task rest => exact ⟨task, rest, rfl, by simpa [ThreadQueue.pop, hqueue] using hstep⟩

/-- Nothing but the queue of tasks is changed by a call. -/
theorem enter_stays (call : Call) :
    (s.enter call).socket = s.socket ∧ (s.enter call).log = s.log ∧
      ((Stays s (s.enter call)) ∨ ∃ task, s.enter call = s.add task) := by
  cases call with
  | sendData data =>
      simp only [enter]
      split
      · exact ⟨by simp, by simp, Or.inl (stays_fire _)⟩
      · exact ⟨rfl, rfl, Or.inr ⟨_, rfl⟩⟩
  | setHandler handler set => exact ⟨rfl, rfl, Or.inl ⟨rfl, rfl, rfl⟩⟩
  | _ => exact ⟨rfl, rfl, Or.inr ⟨_, rfl⟩⟩

end

end TcpClient

end RyuLib
