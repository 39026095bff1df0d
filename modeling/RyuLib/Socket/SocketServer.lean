import RyuLib.Foundations.Machine
import RyuLib.Socket.Reading

/-!
# SocketServer and its Connections

The handlers of `Connection` and `SocketServer`, each as a function on the whole
server: every connection with its socket, the list of raw pointers, the memory the
pending operations work on, and the log of fired events.  `io_context_.run()` calls
one handler at a time, so a step (`step`) is one handler from start to end,
including the application's callbacks, or progress of one pending operation.

A callback of the application is the list of sends it makes when an event is fired.
`free(packet)` gives a block back to the allocator; what the rest of the process
makes of blocks other than the receive buffers is the input `rewrite`.
-/

namespace RyuLib

open Foundations

/-- A `Connection*`: connections are numbered as they are created. -/
abbrev ConnectionPtr := ℕ

/-- A block of memory: the receive buffer `packet_` of a connection, or any other. -/
inductive Address
  | packet (connection : ConnectionPtr)
  | heap (block : ℕ)
  deriving DecidableEq

/-- `started` says that `start()` has run: `packet_` is allocated and the pointer
has been handed to the application. -/
structure Connection where
  socket : StreamSocket ReadHandler Address UInt8 := {}
  started : Bool := false
  id : UInt32 := 0
  isConnected : Bool := false
  idleCount : ℤ := 0
  isLogined : Bool := false
  roomId : String := ""
  userId : String := ""
  userPw : String := ""
  userLevel : ℤ := 0

namespace Connection

def doConnected (k : Connection) (id : UInt32) : Connection :=
  { k with
    id := id
    isConnected := true
    idleCount := 0
    isLogined := false
    roomId := ""
    userId := ""
    userPw := ""
    userLevel := 0 }

def doDisconnected (k : Connection) : Connection :=
  { k with
    isConnected := false
    idleCount := 0
    isLogined := false
    roomId := ""
    userId := ""
    userPw := ""
    userLevel := 0 }

end Connection

/-- The events fired to the application; a received packet is what the receive
buffer holds then. -/
inductive ServerEvent
  | error (code : ℤ) (msg : String)
  | connected (connection : ConnectionPtr)
  | disconnected (connection : ConnectionPtr)
  | received (connection : ConnectionPtr) (packet : Packet)

/-- The sends of the application.  `block` is the block that `malloc` gives to
`create_packet`; when it gives none, `send` goes through a null pointer and there
is no run to speak of. -/
inductive SendCall
  | send (connection : ConnectionPtr) (packet : Address)
  | sendData (connection : ConnectionPtr) (block : ℕ) (packetType : ℤ) (data : Block UInt8)
      (size : ℤ)
  | sendText (connection : ConnectionPtr) (block : ℕ) (packetType : UInt8) (text : List UInt8)
  | sendToAll (packet : Address)
  | sendToOther (connection : ConnectionPtr) (packet : Address)
  | sendToUserID (userId : String) (packet : Address)

/-- What the application's handlers send when an event is fired. -/
abbrev Callbacks := ServerEvent → List SendCall

/-- `accepting` is the connection that the pending `async_accept` is for, `created`
the number of connections created so far. -/
structure SocketServer where
  id : UInt32 := 0
  connectionList : List ConnectionPtr := []
  connections : ConnectionPtr → Connection := fun _ => {}
  accepting : ConnectionPtr := 0
  created : ℕ := 0
  memory : Heap Address UInt8
  events : List ServerEvent := []

namespace SocketServer

def modify (s : SocketServer) (c : ConnectionPtr) (f : Connection → Connection) : SocketServer :=
  { s with connections := Function.update s.connections c (f (s.connections c)) }

def setSocket (s : SocketServer) (c : ConnectionPtr)
    (socket : StreamSocket ReadHandler Address UInt8) : SocketServer :=
  s.modify c fun k => { k with socket := socket }

/-- Replace a block of memory. -/
def rewrite (s : SocketServer) (address : Address) (block : Block UInt8) : SocketServer :=
  { s with memory := Function.update s.memory address block }

def log (s : SocketServer) (event : ServerEvent) : SocketServer :=
  { s with events := s.events ++ [event] }

/-! ## Sending -/

/-- `Connection::do_send(data, size)`. -/
def doSend (s : SocketServer) (c : ConnectionPtr) (data : Address) (size : ℕ) : SocketServer :=
  -- nothing is copied: the write takes the bytes from `data` when it gets to them
  s.setSocket c ((s.connections c).socket.asyncWrite s.memory data size)

/-- `Connection::send(packet)`. -/
def send (s : SocketServer) (c : ConnectionPtr) (packet : Address) : SocketServer :=
  s.doSend c packet (Packet.packetSize (s.memory packet))

/-- `Connection::send(packet_type, data, size)`: the packet is created in `block`
and freed as soon as the write is started. -/
def sendData (s : SocketServer) (c : ConnectionPtr) (block : ℕ) (packetType : ℤ)
    (data : Block UInt8) (size : ℤ) : SocketServer :=
  match createPacket (fun _ => some (s.memory (.heap block))) (UInt8.ofInt packetType) data
      size with
  | none => s
  -- after `free(packet)` any `rewrite` of the block is possible
  | some packet => (s.rewrite (.heap block) packet).send c (.heap block)

/-- `Connection::send(packet_type, text)`. -/
def sendText (s : SocketServer) (c : ConnectionPtr) (block : ℕ) (packetType : UInt8)
    (text : List UInt8) : SocketServer :=
  s.sendData c block packetType.toNat (Block.ofList 0 text) (toInt text.length)

def sendToAll (s : SocketServer) (packet : Address) : SocketServer :=
  s.connectionList.foldl (fun s c => s.send c packet) s

def sendToOther (s : SocketServer) (connection : ConnectionPtr) (packet : Address) :
    SocketServer :=
  s.connectionList.foldl (fun s c => if connection ≠ c then s.send c packet else s) s

def sendToUserID (s : SocketServer) (userId : String) (packet : Address) : SocketServer :=
  match s.connectionList.find? fun c => (s.connections c).userId = userId with
  | some c => s.send c packet
  | none => s

/-- One send of the application, which has the pointers of started connections
only. -/
def call (s : SocketServer) : SendCall → SocketServer
  | .send c packet => if (s.connections c).started then s.send c packet else s
  | .sendData c block packetType data size =>
      if (s.connections c).started then s.sendData c block packetType data size else s
  | .sendText c block packetType text =>
      if (s.connections c).started then s.sendText c block packetType text else s
  | .sendToAll packet => s.sendToAll packet
  | .sendToOther c packet => s.sendToOther c packet
  | .sendToUserID userId packet => s.sendToUserID userId packet

def calls (s : SocketServer) (calls : List SendCall) : SocketServer := calls.foldl call s

/-! ## Firing events -/

def fire (s : SocketServer) (callbacks : Callbacks) (event : ServerEvent) : SocketServer :=
  (s.log event).calls (callbacks event)

def fireErrorEvent (s : SocketServer) (callbacks : Callbacks) (code : ℤ) (msg : String) :
    SocketServer :=
  s.fire callbacks (.error code msg)

def fireConnectedEvent (s : SocketServer) (callbacks : Callbacks) (c : ConnectionPtr) :
    SocketServer :=
  let s := s.modify c fun k => k.doConnected s.id
  let s := { s with id := s.id + 1, connectionList := s.connectionList ++ [c] }
  s.fire callbacks (.connected c)

def fireDisconnectedEvent (s : SocketServer) (callbacks : Callbacks) (c : ConnectionPtr) :
    SocketServer :=
  let s := s.modify c Connection.doDisconnected
  let s := { s with connectionList := s.connectionList.filter fun d => d ≠ c }
  s.fire callbacks (.disconnected c)

def fireReceivedEvent (s : SocketServer) (callbacks : Callbacks) (c : ConnectionPtr)
    (packet : Address) : SocketServer :=
  s.fire callbacks (.received c (s.memory packet))

/-! ## The handlers of a connection -/

def asyncRead (s : SocketServer) (c : ConnectionPtr) (handler : ReadHandler) (offset length : ℕ) :
    SocketServer :=
  s.setSocket c ((s.connections c).socket.asyncRead handler (.packet c) offset length)

/-- `Connection::start()`. -/
def start (s : SocketServer) (callbacks : Callbacks) (c : ConnectionPtr) : SocketServer :=
  let s := s.modify c fun k => { k with started := true }
  let s := s.fireConnectedEvent callbacks c
  s.asyncRead c .header 0 headerSize

def handleReadHeader (s : SocketServer) (callbacks : Callbacks) (c : ConnectionPtr)
    (error : Bool) : SocketServer :=
  if error = false then
    let s :=
      if Packet.packetSize (s.memory (.packet c)) > packetLimit then
        let s := s.fireErrorEvent callbacks (-1) "packet_->packet_size > PACKET_LIMIT"
        s.fireDisconnectedEvent callbacks c
      else s
    -- there is no return above: the body of a refused header is read too
    s.asyncRead c .body 3 (sizeT (Packet.getDataSize (s.memory (.packet c))))
  else s.fireDisconnectedEvent callbacks c

def handleReadBody (s : SocketServer) (callbacks : Callbacks) (c : ConnectionPtr)
    (error : Bool) : SocketServer :=
  if error = false then
    let s := s.fireReceivedEvent callbacks c (.packet c)
    s.asyncRead c .header 0 headerSize
  else s.fireDisconnectedEvent callbacks c

def handleWrite (s : SocketServer) (callbacks : Callbacks) (c : ConnectionPtr) (error : Bool) :
    SocketServer :=
  if error = true then s.fireDisconnectedEvent callbacks c else s

/-- The handler an `async_read` was bound to. -/
def handleRead (s : SocketServer) (callbacks : Callbacks) (c : ConnectionPtr) (error : Bool) :
    ReadHandler → SocketServer
  | .header => s.handleReadHeader callbacks c error
  | .body => s.handleReadBody callbacks c error

/-! ## Accepting -/

def startAccept (s : SocketServer) : SocketServer :=
  { s with
    accepting := s.created
    created := s.created + 1
    connections := Function.update s.connections s.created {} }

def handleAccept (s : SocketServer) (callbacks : Callbacks) (newConnection : ConnectionPtr)
    (error : Bool) : SocketServer :=
  let s := if error = false then s.start callbacks newConnection else s
  -- accepting goes on whatever became of this one
  s.startAccept

/-! ## The server as a machine -/

/-- What happens next: the pending accept completes; the pending read or write
number `i` of a connection makes progress, is complete or fails; the application
sends, or sets the `user_id` of a connection; some other block changes. -/
inductive Input
  | accept (error : Bool)
  | readSome (connection : ConnectionPtr) (i : ℕ) (bytes : List UInt8)
  | readDone (connection : ConnectionPtr) (i : ℕ)
  | readFailed (connection : ConnectionPtr) (i : ℕ)
  | writeSome (connection : ConnectionPtr) (i n : ℕ)
  | writeDone (connection : ConnectionPtr) (i : ℕ)
  | writeFailed (connection : ConnectionPtr) (i : ℕ)
  | call (call : SendCall)
  | setUserID (connection : ConnectionPtr) (userId : String)
  | rewrite (block : ℕ) (contents : Block UInt8)

/-- An input, and what the application's handlers send during it. -/
structure Turn where
  input : Input
  callbacks : Callbacks := fun _ => []

def step (s : SocketServer) (turn : Turn) : Option SocketServer :=
  match turn.input with
  | .accept error => some (s.handleAccept turn.callbacks s.accepting error)
  | .readSome c i bytes =>
      ((s.connections c).socket.readSome s.memory i bytes).map fun result =>
        { s with memory := result.1 }.setSocket c result.2
  | .readDone c i =>
      ((s.connections c).socket.readDone i).map fun result =>
        (s.setSocket c result.2).handleRead turn.callbacks c false result.1
  | .readFailed c i =>
      ((s.connections c).socket.readFailed i).map fun result =>
        (s.setSocket c result.2).handleRead turn.callbacks c true result.1
  | .writeSome c i n =>
      ((s.connections c).socket.writeSome s.memory i n).map fun socket => s.setSocket c socket
  | .writeDone c i =>
      ((s.connections c).socket.writeDone i).map fun socket =>
        (s.setSocket c socket).handleWrite turn.callbacks c false
  | .writeFailed c i =>
      ((s.connections c).socket.writeError i).map fun socket =>
        (s.setSocket c socket).handleWrite turn.callbacks c true
  | .call call => some (s.call call)
  | .setUserID c userId =>
      some
        (if (s.connections c).started then s.modify c fun k => { k with userId := userId } else s)
  | .rewrite block contents => some (s.rewrite (.heap block) contents)

/-- `start(port)`: a server with the first accept pending, on memory that may hold
anything. -/
def machine (memory : Heap Address UInt8) : Machine SocketServer Turn where
  init := startAccept { memory := memory }
  step := step

end SocketServer

end RyuLib
