import RyuLib.Foundations.History
import RyuLib.Socket.TcpClient

/-!
# What a TcpClient sends

The messages of a connection are those of the tasks processed since the last connect, and
`send` may take a part of each.

* `TcpClient.loses_nothing_iff`: the bytes taken are those of the messages, and an empty
  text does not end the connection, exactly when `send` takes each message whole or not at
  all and is given no empty text.
-/

namespace RyuLib

open Foundations History

namespace TcpClient

section

variable {s s' : TcpClient} {replies : Replies}

/-- The message of a task that was taken. -/
def Occurrence.message : Occurrence → List UInt8
  | .took task => task.message
  | _ => []

/-- The bytes that a `send` took. -/
def Occurrence.bytes : Occurrence → List UInt8
  | .sent bytes => bytes
  | _ => []

/-- The messages processed since the last connect. -/
def messages (log : List Occurrence) : List UInt8 :=
  (since .connecting log).flatMap Occurrence.message

/-- What `send` took since the last connect. -/
def accepted (log : List Occurrence) : List UInt8 :=
  (since .connecting log).flatMap Occurrence.bytes

/-- The tasks are processed in the order of the calls. -/
def InOrder (s : TcpClient) : Prop := s.called = processed s.log ++ s.tasks.queue

/-- What was sent on the connection is what the tasks processed so far were to send. -/
def LosesNothing (s : TcpClient) : Prop :=
  InOrder s ∧ (s.isConnected = true → accepted s.log = messages s.log)

/-- An empty text leaves the connection open if `send` does not fail. -/
def KeepsEmptyText (s : TcpClient) (i : Input) : Prop :=
  ∀ replies rest s', i = .task replies → s.tasks.queue = .sendText [] :: rest →
    s.isConnected = true → replies.send ≠ .failed → s.step i = some s' → s'.isConnected = true

def Task.sends : Task → Bool
  | .sendData _ | .sendText _ => true
  | _ => false

/-- What `send` takes is a whole message or nothing, and an empty text is not sent unless
`send` fails. -/
def SentWhole (s : TcpClient) : Input → Prop
  | .task replies => ∀ task rest n, s.tasks.queue = task :: rest → task.sends = true →
      s.isConnected = true → replies.send = .accepted n →
        (n = 0 ∨ n = task.message.length) ∧ task ≠ .sendText []
  | _ => True

theorem messages_concat (log : List Occurrence) {what : Occurrence} (h : what ≠ .connecting) :
    messages (log ++ [what]) = messages log ++ what.message := by
  rw [messages, since_concat_of_ne h, List.flatMap_append, List.flatMap_singleton, messages]

theorem accepted_concat (log : List Occurrence) {what : Occurrence} (h : what ≠ .connecting) :
    accepted (log ++ [what]) = accepted log ++ what.bytes := by
  rw [accepted, since_concat_of_ne h, List.flatMap_append, List.flatMap_singleton, accepted]

/-- A task is taken, and `send` takes some bytes. -/
theorem messages_took_sent (log : List Occurrence) (task : Task) (bytes : List UInt8) :
    messages (log ++ [.took task] ++ [.sent bytes]) = messages log ++ task.message := by
  rw [messages_concat _ (by simp), messages_concat _ (by simp)]
  exact List.append_nil _

theorem accepted_took_sent (log : List Occurrence) (task : Task) (bytes : List UInt8) :
    accepted (log ++ [.took task] ++ [.sent bytes]) = accepted log ++ bytes := by
  rw [accepted_concat _ (by simp), accepted_concat _ (by simp)]
  exact congrArg (· ++ bytes) (List.append_nil _)

theorem messages_recv (log : List Occurrence) (results : List RecvResult) :
    messages (log ++ results.map .recv) = messages log := by
  rw [messages, since_append (by simp), List.flatMap_append, ← messages]
  simp [List.flatMap_map, Occurrence.message]

theorem accepted_recv (log : List Occurrence) (results : List RecvResult) :
    accepted (log ++ results.map .recv) = accepted log := by
  rw [accepted, since_append (by simp), List.flatMap_append, ← accepted]
  simp [List.flatMap_map, Occurrence.bytes]

theorem lossless_of_socket (hsocket : s.socket = 0) :
    s.isConnected = true → accepted s.log = messages s.log := by
  intro hconnected
  simp [isConnected, hsocket] at hconnected

theorem accepted_request (host : String) (port : ℤ) :
    accepted (s.request replies host port).log = accepted s.log := by
  rw [request, record_log, accepted_concat _ (by split <;> simp), record_log,
    accepted_concat _ (by simp)]
  cases replies.connect.established <;> simp [Occurrence.bytes]

theorem messages_request (host : String) (port : ℤ) :
    messages (s.request replies host port).log = messages s.log := by
  rw [request, record_log, messages_concat _ (by split <;> simp), record_log,
    messages_concat _ (by simp)]
  cases replies.connect.established <;> simp [Occurrence.message]

/-- A new connection starts with what there was before it. -/
theorem lossless_openSocket (host : String) (port : ℤ) (h : accepted s.log = messages s.log) :
    (s.openSocket replies host port).isConnected = true →
      accepted (s.openSocket replies host port).log =
        messages (s.openSocket replies host port).log := by
  unfold openSocket
  split
  · simpa using fun _ => h
  · split
    · simpa [accepted_request, messages_request] using fun _ => h
    · exact lossless_of_socket (by simp)

theorem Stays.inOrder (h : Stays s s') (hs : InOrder s) : InOrder s' := by
  unfold InOrder
  rw [h.called, h.processed, h.tasks]
  exact hs

theorem inOrder_took {task : Task} {rest : List Task} (h : InOrder s)
    (hqueue : s.tasks.queue = task :: rest) :
    InOrder ({ s with tasks := ⟨rest⟩ }.record (.took task)) := by
  unfold InOrder at h ⊢
  rw [hqueue] at h
  show s.called = processed (s.log ++ [.took task]) ++ rest
  simpa [processed] using h

theorem keepsEmptyText_iff {task : Task} {rest : List Task} (hqueue : s.tasks.queue = task :: rest)
    (hstep : s.step (.task replies) = some s') :
    KeepsEmptyText s (.task replies) ↔ (task = .sendText [] → s.isConnected = true →
      replies.send ≠ .failed → s'.isConnected = true) := by
  constructor
  · intro hkeeps htask hconnected hreply
    exact hkeeps replies rest s' rfl (htask ▸ hqueue) hconnected hreply hstep
  · rintro hkeeps _ rest' _ hreplies hqueue' hconnected hreply hstep'
    cases hreplies
    obtain ⟨htask, _⟩ := List.cons.inj (hqueue.symm.trans hqueue')
    rw [hstep, Option.some.injEq] at hstep'
    exact hstep' ▸ hkeeps htask hconnected hreply

theorem sentWhole_iff {task : Task} {rest : List Task} (hqueue : s.tasks.queue = task :: rest)
    (hsends : task.sends = true) :
    SentWhole s (.task replies) ↔ (s.isConnected = true → ∀ n, replies.send = .accepted n →
      (n = 0 ∨ n = task.message.length) ∧ task ≠ .sendText []) := by
  constructor
  · intro hwhole hconnected n hreply
    exact hwhole task rest n hqueue hsends hconnected hreply
  · intro hwhole task' rest' n hqueue' _ hconnected hreply
    obtain ⟨rfl, _⟩ := List.cons.inj (hqueue.symm.trans hqueue')
    exact hwhole hconnected n hreply

/-- A `send` that took something loses nothing exactly if it took the whole message. -/
theorem losesNothing_sent {task : Task} {rest : List Task} {n : ℕ} (h : LosesNothing s)
    (hconnected : s.isConnected = true) (hqueue : s.tasks.queue = task :: rest)
    (hle : n ≤ task.message.length) :
    LosesNothing (({ s with tasks := ⟨rest⟩ }.record (.took task)).record
      (.sent (task.message.take n))) ↔ n = task.message.length := by
  have horder : InOrder (({ s with tasks := ⟨rest⟩ }.record (.took task)).record
      (.sent (task.message.take n))) :=
    (stays_record (by simp)).inOrder (inOrder_took h.1 hqueue)
  rw [LosesNothing, and_iff_right horder, record_log, record_log, accepted_took_sent,
    messages_took_sent, h.2 hconnected, List.append_cancel_left_eq, List.take_eq_self_iff]
  constructor
  · intro hlength
    exact le_antisymm hle (hlength hconnected)
  · intro hlength _
    exact hlength.ge

/-- A task that sends loses nothing and keeps the connection for an empty text exactly if
what `send` takes is the whole message or nothing. -/
theorem losesNothing_send {task : Task} {rest : List Task} (h : LosesNothing s)
    (hsends : task.sends = true) (hqueue : s.tasks.queue = task :: rest)
    (hstep : s.step (.task replies) = some s')
    (hsend : ({ s with tasks := ⟨rest⟩ }.record (.took task)).doSendData replies task.message =
      some s') :
    LosesNothing s' ∧ KeepsEmptyText s (.task replies) ↔ SentWhole s (.task replies) := by
  have horder := inOrder_took h.1 hqueue
  rw [keepsEmptyText_iff hqueue hstep, sentWhole_iff hqueue hsends]
  rcases doSendData_cases hsend with ⟨hsocket, rfl⟩ | ⟨hsocket, hclosed, hstays, hreply⟩ |
    ⟨hsocket, n, hreply, hpositive, hle, rfl⟩
  · have hnot : s.isConnected = false := by simpa [isConnected] using hsocket
    rw [hnot]
    exact iff_of_true ⟨⟨horder, lossless_of_socket hsocket⟩, nofun⟩ nofun
  · -- nothing was sent, and the connection is closed
    have hconnected : s.isConnected = true := by simpa [isConnected] using hsocket
    have hnot : s'.isConnected = false := by simpa [isConnected] using hclosed
    have hafter : LosesNothing s' := ⟨hstays.inOrder horder, lossless_of_socket hclosed⟩
    rcases hreply with hreply | hreply <;> simp [hreply, hafter, hconnected, hnot]
  · have hconnected : s.isConnected = true := by simpa [isConnected] using hsocket
    have hmessage : task ≠ .sendText [] := by
      intro htask
      rw [htask] at hle
      exact hpositive (Nat.le_zero.mp hle)
    rw [losesNothing_sent h hconnected hqueue hle]
    simp [hmessage, hconnected, hreply, hpositive]

/-- What a step without a message to send has to keep. -/
theorem losesNothing_rest {i : Input} (h : LosesNothing s')
    (hidle : ∀ replies task rest, i = .task replies → s.tasks.queue = task :: rest →
      task.sends = false) :
    LosesNothing s' ∧ KeepsEmptyText s i ↔ SentWhole s i := by
  refine iff_of_true ⟨h, ?_⟩ ?_
  · rintro replies rest _ rfl hqueue
    cases hidle replies _ rest rfl hqueue
  · cases i with
    | task replies =>
        intro task rest n hqueue hsends
        rw [hidle replies task rest rfl hqueue] at hsends
        cases hsends
    | _ => trivial

theorem losesNothing_step {i : Input} (h : LosesNothing s) (hstep : s.step i = some s') :
    LosesNothing s' ∧ KeepsEmptyText s i ↔ SentWhole s i := by
  cases i with
  | call call =>
      obtain rfl := Option.some.inj hstep
      obtain ⟨hsocket, hlog, hcases⟩ := enter_stays (s := s) call
      refine losesNothing_rest ⟨?_, ?_⟩ (by simp)
      · rcases hcases with hstays | ⟨task, hadd⟩
        · exact hstays.inOrder h.1
        · have horder := h.1
          unfold InOrder at horder
          rw [hadd]
          simp [InOrder, add, ThreadQueue.push, horder]
      · simpa only [isConnected, hsocket, hlog] using h.2
  | poll results =>
      obtain ⟨s₁, hsocket, htasks, hcalled, hlog, hcases⟩ := repeats_cases hstep
      refine losesNothing_rest ?_ (by simp)
      have hsame : LosesNothing s' ↔ LosesNothing s₁ := by
        simp only [LosesNothing, InOrder, isConnected, hsocket, htasks, hcalled, hlog]
      rw [hsame]
      rcases hcases with ⟨_, rfl⟩ | ⟨_, hdrain⟩
      · exact h
      · obtain ⟨hsocket, htasks, hcalled, hlog, _⟩ := drain_eq_some hdrain
        have hprocessed : processed (s.log ++ results.map .recv) = processed s.log := by
          simp [processed, List.filterMap_map]
        simpa only [LosesNothing, InOrder, isConnected, hsocket, htasks, hcalled, hlog, hprocessed,
          messages_recv, accepted_recv] using h
  | task replies =>
      obtain ⟨task, rest, hqueue, hhandle⟩ := step_task hstep
      have horder := inOrder_took h.1 hqueue
      cases task with
      | connect host port =>
          -- nothing is sent or processed yet on the new connection
          have hfresh : ∀ log,
              accepted (log ++ [.connecting]) = messages (log ++ [.connecting]) := by
            intro log
            simp [accepted, messages]
          have hclosed : ∀ s₁ : TcpClient, Stays s₁ (s₁.doDisconnect.record .connecting) :=
            fun _ => stays_doDisconnect.trans (stays_record (by simp))
          have hcases := doConnect_cases hhandle
          refine losesNothing_rest ?_ (by simp [hqueue, Task.sends])
          split at hcases
          · rw [hcases]
            exact ⟨((hclosed _).trans (stays_openSocket host port)).inOrder horder,
              lossless_openSocket host port (hfresh _)⟩
          · rw [hcases]
            exact ⟨((hclosed _).trans (stays_fire _)).inOrder horder,
              by simpa using fun _ => hfresh _⟩
      | disconnect =>
          obtain rfl := Option.some.inj hhandle
          exact losesNothing_rest ⟨stays_doDisconnect.inOrder horder,
            lossless_of_socket doDisconnect_socket⟩ (by simp [hqueue, Task.sends])
      | sendData data => exact losesNothing_send h rfl hqueue hstep hhandle
      | sendText text => exact losesNothing_send h rfl hqueue hstep hhandle

/-- In every state of a run the tasks are processed in the order of the calls and the bytes
that `send` took on the connection are those of the messages processed on it, and no empty
text ends the connection, exactly when `send` takes each message whole or not at all and is
never given an empty text, unless it fails. -/
theorem loses_nothing_iff {inputs : List Input} (hrun : machine.run inputs = some s) :
    machine.Throughout LosesNothing inputs ∧ machine.Always KeepsEmptyText inputs ↔
      machine.Always SentWhole inputs := by
  refine Machine.throughout_and_always_iff ⟨rfl, lossless_of_socket rfl⟩ ?_ hrun
  intro inputs s i s' hs hbefore _ hstep
  exact losesNothing_step (hbefore.last hs) hstep

/-- The kernel takes one of the two bytes of a text. -/
def shortSend : List Input :=
  [.call (.connect "localhost" 80), .task {}, .call (.sendText [104, 105]),
    .task { send := .accepted 1 }]

/-- An empty text is sent. -/
def emptyText : List Input :=
  [.call (.connect "localhost" 80), .task {}, .call (.sendText []), .task { send := .accepted 0 }]

theorem loses_nothing_iff_shortSend :
    machine.Throughout LosesNothing shortSend ∧ machine.Always KeepsEmptyText shortSend ↔
      machine.Always SentWhole shortSend :=
  loses_nothing_iff (show machine.run shortSend = some _ from rfl)

/-- The second byte is lost, and the empty text ends the connection. -/
theorem not_losesNothing_shortSend :
    ¬ machine.Throughout LosesNothing shortSend ∧ ¬ machine.Always KeepsEmptyText emptyText := by
  constructor
  · intro h
    have hlast := h.last (show machine.run shortSend = some _ from rfl)
    have hbytes := hlast.2 rfl
    have hlost : ([104] : List UInt8) = [104, 105] := hbytes
    cases hlost
  · intro h
    have hkept := h [.call (.connect "localhost" 80), .task {}, .call (.sendText [])]
      (.task { send := .accepted 0 }) [] rfl _ rfl { send := .accepted 0 } [] _ rfl rfl rfl nofun
      rfl
    cases hkept

end

end TcpClient

end RyuLib
