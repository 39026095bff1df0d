import RyuLib.Foundations.Machine
import RyuLib.Socket.Reading

/-!
# SocketClient

The handlers of `SocketClient`, each as a function on the whole client.  They run one
at a time on the thread that runs `io_`; `connect`, `disconnect` and `send` are called
by the application, which may also send from its callbacks.

`connect` starts a new session: a new socket and a new `io_`, with which every pending
operation of the old ones is gone.  The receive buffer stays.
-/

namespace RyuLib

open Foundations

/-- A block of memory: `receive_buffer_`, or any other. -/
inductive ClientAddress
  | receiveBuffer
  | heap (block : ℕ)
  deriving DecidableEq

inductive ClientEvent
  | error (code : ℤ) (msg : String)
  | connected
  | disconnected
  | received (packet : Packet)

/-- The sends of the application; `block` is the block that `malloc` gives to
`create_packet`. -/
inductive ClientCall
  | send (packet : ClientAddress)
  | sendData (block : ℕ) (packetType : ℤ) (data : Block UInt8) (size : ℤ)
  | sendText (block : ℕ) (packetType : UInt8) (text : List UInt8)

/-- What the application's handlers send when an event is fired. -/
abbrev ClientCallbacks := ClientEvent → List ClientCall

/-- How far the connection of the socket has come. -/
inductive Link
  | unconnected
  | connecting
  | established
  deriving DecidableEq

/-- `running` says that the thread started by `connect` is in `io_->run()`; `events` are
those fired since `connect` was last called. -/
structure SocketClient where
  socket : Option (StreamSocket ReadHandler ClientAddress UInt8) := none
  link : Link := .unconnected
  running : Bool := false
  memory : Heap ClientAddress UInt8
  events : List ClientEvent := []

namespace SocketClient

/-- Change the socket, if there is one. -/
def modify (s : SocketClient)
    (f : StreamSocket ReadHandler ClientAddress UInt8 →
      StreamSocket ReadHandler ClientAddress UInt8) : SocketClient :=
  { s with socket := s.socket.map f }

/-- Replace a block of memory. -/
def rewrite (s : SocketClient) (address : ClientAddress) (block : Block UInt8) : SocketClient :=
  { s with memory := Function.update s.memory address block }

def log (s : SocketClient) (event : ClientEvent) : SocketClient :=
  { s with events := s.events ++ [event] }

/-! ## Connecting -/

def disconnect (s : SocketClient) : SocketClient :=
  { s.modify StreamSocket.close with running := false }

/-- `connect(host, port)`; when `host` is no address, `from_string` throws before
anything is started. -/
def connect (s : SocketClient) (isAddress : Bool) : SocketClient :=
  let s := s.disconnect
  -- the events logged are those of the new session
  if isAddress = true then
    { s with socket := some {}, link := .connecting, running := true, events := [] }
  else { s with socket := some { isOpen := false }, link := .unconnected, events := [] }

/-! ## Sending -/

/-- `do_send(data, size)`. -/
def doSend (s : SocketClient) (data : ClientAddress) (size : ℕ) : SocketClient :=
  s.modify fun k => k.asyncWrite s.memory data size

/-- `send(packet)`. -/
def send (s : SocketClient) (packet : ClientAddress) : SocketClient :=
  s.doSend packet (Packet.packetSize (s.memory packet))

/-- `send(packet_type, data, size)`: the packet is created in `block` and freed as soon
as the write is started. -/
def sendData (s : SocketClient) (block : ℕ) (packetType : ℤ) (data : Block UInt8) (size : ℤ) :
    SocketClient :=
  match createPacket (fun _ => some (s.memory (.heap block))) (UInt8.ofInt packetType) data
      size with
  | none => s
  | some packet => (s.rewrite (.heap block) packet).send (.heap block)

/-- `send(packet_type, text)`. -/
def sendText (s : SocketClient) (block : ℕ) (packetType : UInt8) (text : List UInt8) :
    SocketClient :=
  s.sendData block packetType.toNat (Block.ofList 0 text) (toInt text.length)

def call (s : SocketClient) : ClientCall → SocketClient
  | .send packet => s.send packet
  | .sendData block packetType data size => s.sendData block packetType data size
  | .sendText block packetType text => s.sendText block packetType text

def calls (s : SocketClient) (calls : List ClientCall) : SocketClient := calls.foldl call s

/-! ## The handlers -/

def fire (s : SocketClient) (callbacks : ClientCallbacks) (event : ClientEvent) : SocketClient :=
  (s.log event).calls (callbacks event)

def doDisconnect (s : SocketClient) (callbacks : ClientCallbacks) : SocketClient :=
  (s.modify StreamSocket.close).fire callbacks .disconnected

def asyncRead (s : SocketClient) (handler : ReadHandler) (offset length : ℕ) : SocketClient :=
  s.modify fun k => k.asyncRead handler .receiveBuffer offset length

/-- `connect_handler`; an error comes with its message. -/
def connectHandler (s : SocketClient) (callbacks : ClientCallbacks) (error : Option String) :
    SocketClient :=
  match error with
  | some msg => { s with link := .unconnected }.fire callbacks (.error errorConnect msg)
  | none =>
      let s := { s with link := .established }.fire callbacks .connected
      s.asyncRead .header 0 headerSize

def handleReadHeader (s : SocketClient) (callbacks : ClientCallbacks) (error : Option String) :
    SocketClient :=
  match error with
  -- the declared size is not compared with `PACKET_LIMIT`
  | none => s.asyncRead .body 3 (sizeT (Packet.getDataSize (s.memory .receiveBuffer)))
  | some msg => (s.fire callbacks (.error errorRead msg)).doDisconnect callbacks

def handleReadBody (s : SocketClient) (callbacks : ClientCallbacks) (error : Option String) :
    SocketClient :=
  match error with
  | none =>
      let s := s.fire callbacks (.received (s.memory .receiveBuffer))
      s.asyncRead .header 0 headerSize
  | some msg => (s.fire callbacks (.error errorRead msg)).doDisconnect callbacks

def handleWrite (s : SocketClient) (callbacks : ClientCallbacks) (error : Option String) :
    SocketClient :=
  match error with
  | none => s
  | some msg => (s.fire callbacks (.error errorWrite msg)).doDisconnect callbacks

/-- The handler an `async_read` was bound to. -/
def handleRead (s : SocketClient) (callbacks : ClientCallbacks) (error : Option String) :
    ReadHandler → SocketClient
  | .header => s.handleReadHeader callbacks error
  | .body => s.handleReadBody callbacks error

/-! ## The client as a machine -/

/-- What happens next: the application connects, disconnects or sends; the connection
attempt ends; the pending read or write number `i` makes progress, is complete or fails;
`io_->run()` returns because nothing is pending; some other block changes. -/
inductive Input
  | connect (isAddress : Bool)
  | disconnect
  | call (call : ClientCall)
  | connectDone (error : Option String)
  | readSome (i : ℕ) (bytes : List UInt8)
  | readDone (i : ℕ)
  | readFailed (i : ℕ) (msg : String)
  | writeSome (i n : ℕ)
  | writeDone (i : ℕ)
  | writeFailed (i : ℕ) (msg : String)
  | runReturns
  | rewrite (block : ℕ) (contents : Block UInt8)

/-- An input, and what the application's handlers send during it. -/
structure Turn where
  input : Input
  callbacks : ClientCallbacks := fun _ => []

/-- Handlers run while the thread does, and need a socket; so does a send.  Closing the
socket makes a pending connection attempt fail. -/
def step (s : SocketClient) (turn : Turn) : Option SocketClient :=
  match turn.input, s.socket with
  | .connect isAddress, _ => some (s.connect isAddress)
  | .disconnect, _ => some s.disconnect
  | .rewrite block contents, _ => some (s.rewrite (.heap block) contents)
  | .call call, some _ => some (s.call call)
  | .connectDone error, some k =>
      if s.running = true ∧ s.link = .connecting ∧ (error = none → k.isOpen = true) then
        some (s.connectHandler turn.callbacks error)
      else none
  | .readSome i bytes, some k =>
      (k.readSome s.memory i bytes).map fun result =>
        { s with memory := result.1, socket := some result.2 }
  | .readDone i, some k =>
      if s.running = true then
        (k.readDone i).map fun result =>
          { s with socket := some result.2 }.handleRead turn.callbacks none result.1
      else none
  | .readFailed i msg, some k =>
      if s.running = true then
        (k.readFailed i).map fun result =>
          { s with socket := some result.2 }.handleRead turn.callbacks (some msg) result.1
      else none
  | .writeSome i n, some k =>
      if s.link = .established then
        (k.writeSome s.memory i n).map fun k => { s with socket := some k }
      else none
  | .writeDone i, some k =>
      if s.running = true then
        (k.writeDone i).map fun k => { s with socket := some k }.handleWrite turn.callbacks none
      else none
  | .writeFailed i msg, some k =>
      if s.running = true then
        (k.writeError i).map fun k =>
          { s with socket := some k }.handleWrite turn.callbacks (some msg)
      else none
  | .runReturns, some k =>
      if s.link ≠ .connecting ∧ k.reads = [] ∧ k.writes = [] then some { s with running := false }
      else none
  | _, none => none

/-! ## What a step can do

One lemma for each input that needs a socket. -/

section

variable {s s' : SocketClient} {callbacks : ClientCallbacks}

theorem step_call {call : ClientCall} (hstep : step s ⟨.call call, callbacks⟩ = some s') :
    s' = s.call call := by
  cases hk : s.socket with
  | none => simp [step, hk] at hstep
  | some k =>
      simp only [step, hk, Option.some.injEq] at hstep
      exact hstep.symm

theorem step_connectDone {error : Option String}
    (hstep : step s ⟨.connectDone error, callbacks⟩ = some s') :
    ∃ k, s.socket = some k ∧ s.link = .connecting ∧ s' = s.connectHandler callbacks error := by
  cases hk : s.socket with
  | none => simp [step, hk] at hstep
  | some k =>
      simp only [step, hk, Option.ite_none_right_eq_some, Option.some.injEq] at hstep
      exact ⟨k, rfl, hstep.1.2.1, hstep.2.symm⟩

theorem step_readSome {i : ℕ} {bytes : List UInt8}
    (hstep : step s ⟨.readSome i bytes, callbacks⟩ = some s') :
    ∃ k memory k', s.socket = some k ∧ k.readSome s.memory i bytes = some (memory, k') ∧
      s' = { s with memory := memory, socket := some k' } := by
  cases hk : s.socket with
  | none => simp [step, hk] at hstep
  | some k =>
      simp only [step, hk] at hstep
      obtain ⟨⟨memory, k'⟩, hread, rfl⟩ := Option.map_eq_some_iff.mp hstep
      exact ⟨k, memory, k', rfl, hread, rfl⟩

theorem step_readDone {i : ℕ} (hstep : step s ⟨.readDone i, callbacks⟩ = some s') :
    ∃ k handler k', s.socket = some k ∧ k.readDone i = some (handler, k') ∧
      s' = { s with socket := some k' }.handleRead callbacks none handler := by
  cases hk : s.socket with
  | none => simp [step, hk] at hstep
  | some k =>
      simp only [step, hk, Option.ite_none_right_eq_some] at hstep
      obtain ⟨⟨handler, k'⟩, hread, rfl⟩ := Option.map_eq_some_iff.mp hstep.2
      exact ⟨k, handler, k', rfl, hread, rfl⟩

theorem step_readFailed {i : ℕ} {msg : String}
    (hstep : step s ⟨.readFailed i msg, callbacks⟩ = some s') :
    ∃ k handler k', s.socket = some k ∧ k.readFailed i = some (handler, k') ∧
      s' = { s with socket := some k' }.handleRead callbacks (some msg) handler := by
  cases hk : s.socket with
  | none => simp [step, hk] at hstep
  | some k =>
      simp only [step, hk, Option.ite_none_right_eq_some] at hstep
      obtain ⟨⟨handler, k'⟩, hread, rfl⟩ := Option.map_eq_some_iff.mp hstep.2
      exact ⟨k, handler, k', rfl, hread, rfl⟩

theorem step_writeSome {i n : ℕ} (hstep : step s ⟨.writeSome i n, callbacks⟩ = some s') :
    ∃ k k', s.socket = some k ∧ k.writeSome s.memory i n = some k' ∧
      s' = { s with socket := some k' } := by
  cases hk : s.socket with
  | none => simp [step, hk] at hstep
  | some k =>
      simp only [step, hk, Option.ite_none_right_eq_some] at hstep
      obtain ⟨k', hwrite, rfl⟩ := Option.map_eq_some_iff.mp hstep.2
      exact ⟨k, k', rfl, hwrite, rfl⟩

theorem step_writeDone {i : ℕ} (hstep : step s ⟨.writeDone i, callbacks⟩ = some s') :
    ∃ k k', s.socket = some k ∧ k.writeDone i = some k' ∧ s' = { s with socket := some k' } := by
  cases hk : s.socket with
  | none => simp [step, hk] at hstep
  | some k =>
      simp only [step, hk, Option.ite_none_right_eq_some] at hstep
      obtain ⟨k', hwrite, rfl⟩ := Option.map_eq_some_iff.mp hstep.2
      exact ⟨k, k', rfl, hwrite, rfl⟩

theorem step_writeFailed {i : ℕ} {msg : String}
    (hstep : step s ⟨.writeFailed i msg, callbacks⟩ = some s') :
    ∃ k k', s.socket = some k ∧ k.writeError i = some k' ∧
      s' = { s with socket := some k' }.handleWrite callbacks (some msg) := by
  cases hk : s.socket with
  | none => simp [step, hk] at hstep
  | some k =>
      simp only [step, hk, Option.ite_none_right_eq_some] at hstep
      obtain ⟨k', hwrite, rfl⟩ := Option.map_eq_some_iff.mp hstep.2
      exact ⟨k, k', rfl, hwrite, rfl⟩

theorem step_runReturns (hstep : step s ⟨.runReturns, callbacks⟩ = some s') :
    s' = { s with running := false } := by
  cases hk : s.socket with
  | none => simp [step, hk] at hstep
  | some k =>
      simp only [step, hk, Option.ite_none_right_eq_some, Option.some.injEq] at hstep
      rw [← hstep.2]

end

/-- A new client, on memory that may hold anything. -/
def machine (memory : Heap ClientAddress UInt8) : Machine SocketClient Turn where
  init := { memory := memory }
  step := step

end SocketClient

end RyuLib
