import RyuLib.Socket.ServerFrame

/-!
# What a server puts on the wire

`async_write` sends the bytes that stand in the packet's memory when it gets to them,
and its steps may alternate with those of other writes.  A turn is `Orderly` when every
write step is taken in its turn and no change of memory touches bytes a pending write
has yet to send: not the next read into the receive buffer, not a packet created in a
freed block, not anything else.  In runs of orderly turns every connection sends what it
was given, in order (`allInOrder_run`).
-/

namespace RyuLib.SocketServer

open Foundations

/-! ## Orderly turns -/

/-- Replacing the block at `address` changes no byte a connection has yet to send. -/
def Spares (s : SocketServer) (address : Address) (block : Block UInt8) : Prop :=
  ∀ c, (s.connections c).socket.Spares s.memory address block

/-- So does creating a packet in a block. -/
def CreateSpares (s : SocketServer) (block : ℕ) (packetType : ℤ) (data : Block UInt8) (size : ℤ) :
    Prop :=
  ∀ packet, createPacket (fun _ => some (s.memory (.heap block))) (UInt8.ofInt packetType) data
    size = some packet → s.Spares (.heap block) packet

/-- The packets created by a send. -/
def CallSpares (s : SocketServer) : SendCall → Prop
  | .sendData c block packetType data size =>
      (s.connections c).started = true → s.CreateSpares block packetType data size
  | .sendText c block packetType text =>
      (s.connections c).started = true →
        s.CreateSpares block packetType.toNat (Block.ofList 0 text) (toInt text.length)
  | _ => True

def CallsSpare : SocketServer → List SendCall → Prop
  | _, [] => True
  | s, call :: calls => s.CallSpares call ∧ CallsSpare (s.call call) calls

/-- The packets created while `c` is reported as disconnected. -/
def DisconnectSpares (s : SocketServer) (callbacks : Callbacks) (c : ConnectionPtr) : Prop :=
  CallsSpare (s.fireDisconnectedEvent quiet c) (callbacks (.disconnected c))

/-- The packets created in the handler of a read. -/
def ReadSpares (s : SocketServer) (callbacks : Callbacks) (c : ConnectionPtr) (error : Bool) :
    ReadHandler → Prop
  | .header =>
      if error = true then s.DisconnectSpares callbacks c
      else
        packetLimit < Packet.packetSize (s.memory (.packet c)) →
          CallsSpare (s.log (.error (-1) "packet_->packet_size > PACKET_LIMIT"))
            (callbacks (.error (-1) "packet_->packet_size > PACKET_LIMIT")) ∧
          (s.fireErrorEvent callbacks (-1) "packet_->packet_size > PACKET_LIMIT").DisconnectSpares
            callbacks c
  | .body =>
      if error = true then s.DisconnectSpares callbacks c
      else
        CallsSpare (s.log (.received c (s.memory (.packet c))))
          (callbacks (.received c (s.memory (.packet c))))

/-- The turn takes write steps in their turn, and changes no byte that a pending write
has yet to send. -/
def Orderly (s : SocketServer) (turn : Turn) : Prop :=
  match turn.input with
  | .accept error =>
      error = false →
        CallsSpare
          ((s.modify s.accepting fun k => { k with started := true }).fireConnectedEvent quiet
            s.accepting) (turn.callbacks (.connected s.accepting))
  | .readSome c i bytes =>
      ∀ op, (s.connections c).socket.reads[i]? = some op →
        s.Spares op.address ((s.memory op.address).store op.offset bytes)
  | .readDone c i =>
      ∀ result, (s.connections c).socket.readDone i = some result →
        (s.setSocket c result.2).ReadSpares turn.callbacks c false result.1
  | .readFailed c i =>
      ∀ result, (s.connections c).socket.readFailed i = some result →
        (s.setSocket c result.2).ReadSpares turn.callbacks c true result.1
  | .writeSome c i _ => (s.connections c).socket.InTurn i
  | .writeDone _ _ => True
  | .writeFailed c i =>
      ∀ socket, (s.connections c).socket.writeError i = some socket →
        (s.setSocket c socket).DisconnectSpares turn.callbacks c
  | .call call => s.CallSpares call
  | .setUserID _ _ => True
  | .rewrite block contents => s.Spares (.heap block) contents

/-! ## Keeping the order -/

/-- The wire of every connection is in order. -/
def AllInOrder (s : SocketServer) : Prop :=
  ∀ c, StreamSocket.InOrder s.memory (s.connections c).socket

namespace AllInOrder

variable {s : SocketServer}

theorem congr {s' : SocketServer} (hs : AllInOrder s) (hmemory : s'.memory = s.memory)
    (hsocket : ∀ c, (s'.connections c).socket = (s.connections c).socket) : AllInOrder s' := by
  intro c
  rw [hmemory, hsocket]
  exact hs c

theorem rewrite (hs : AllInOrder s) {address : Address} {block : Block UInt8}
    (hspares : s.Spares address block) : AllInOrder (s.rewrite address block) :=
  fun c => (hs c).update (hspares c)

theorem setSocket (hs : AllInOrder s) {c : ConnectionPtr}
    {socket : StreamSocket ReadHandler Address UInt8}
    (hsocket : StreamSocket.InOrder s.memory socket) : AllInOrder (s.setSocket c socket) := by
  intro d
  by_cases hd : d = c
  · subst hd
    simpa [SocketServer.setSocket, SocketServer.modify] using hsocket
  · simpa [SocketServer.setSocket, SocketServer.modify, hd] using hs d

theorem modify (hs : AllInOrder s) (c : ConnectionPtr) {f : Connection → Connection}
    (hf : ∀ k, (f k).socket = k.socket) : AllInOrder (s.modify c f) := by
  refine hs.congr rfl ?_
  intro d
  by_cases hd : d = c
  · subst hd
    simp [SocketServer.modify, hf]
  · simp [SocketServer.modify, hd]

theorem log (hs : AllInOrder s) (event : ServerEvent) : AllInOrder (s.log event) :=
  hs.congr rfl fun _ => rfl

theorem asyncRead (hs : AllInOrder s) (c : ConnectionPtr) (handler : ReadHandler)
    (offset length : ℕ) : AllInOrder (s.asyncRead c handler offset length) :=
  hs.setSocket ((hs c).congr rfl rfl rfl rfl)

theorem send (hs : AllInOrder s) (c : ConnectionPtr) (packet : Address) :
    AllInOrder (s.send c packet) :=
  hs.setSocket ((hs c).asyncWrite packet _)

theorem sendData (hs : AllInOrder s) (c : ConnectionPtr) {block : ℕ} {packetType : ℤ}
    {data : Block UInt8} {size : ℤ} (hspares : s.CreateSpares block packetType data size) :
    AllInOrder (s.sendData c block packetType data size) := by
  unfold SocketServer.sendData
  split
  · exact hs
  · rename_i packet hpacket
    exact (hs.rewrite (hspares packet hpacket)).send c _

theorem foldl {f : SocketServer → ConnectionPtr → SocketServer}
    (hf : ∀ {s c}, AllInOrder s → AllInOrder (f s c)) (hs : AllInOrder s) (l : List ConnectionPtr) :
    AllInOrder (l.foldl f s) := by
  induction l generalizing s with
  | nil => exact hs
  | cons c l ih => exact ih (hf hs)

theorem call (hs : AllInOrder s) {call : SendCall} (hspares : s.CallSpares call) :
    AllInOrder (s.call call) := by
  cases call with
  | send c packet =>
      simp only [SocketServer.call]
      split
      · exact hs.send c packet
      · exact hs
  | sendData c block packetType data size =>
      simp only [SocketServer.call]
      split
      · rename_i hstarted
        exact hs.sendData c (hspares hstarted)
      · exact hs
  | sendText c block packetType text =>
      simp only [SocketServer.call]
      split
      · rename_i hstarted
        exact hs.sendData c (hspares hstarted)
      · exact hs
  | sendToAll packet => exact foldl (fun h => h.send _ packet) hs _
  | sendToOther c packet =>
      refine foldl ?_ hs _
      intro s d h
      split
      · exact h.send _ packet
      · exact h
  | sendToUserID userId packet =>
      simp only [SocketServer.call, sendToUserID]
      split
      · exact hs.send _ packet
      · exact hs

theorem calls (hs : AllInOrder s) {calls : List SendCall} (hspares : CallsSpare s calls) :
    AllInOrder (s.calls calls) := by
  induction calls generalizing s with
  | nil => exact hs
  | cons call calls ih => exact ih (hs.call hspares.1) hspares.2

theorem disconnected (hs : AllInOrder s) {callbacks : Callbacks} {c : ConnectionPtr}
    (hspares : s.DisconnectSpares callbacks c) :
    AllInOrder (s.fireDisconnectedEvent callbacks c) := by
  have hquiet : AllInOrder (s.fireDisconnectedEvent quiet c) := by
    apply AllInOrder.congr (hs.modify c (f := Connection.doDisconnected) fun _ => rfl) rfl
    exact fun _ => rfl
  exact hquiet.calls hspares

theorem handleRead (hs : AllInOrder s) {callbacks : Callbacks} {c : ConnectionPtr} {error : Bool}
    {handler : ReadHandler} (hspares : s.ReadSpares callbacks c error handler) :
    AllInOrder (s.handleRead callbacks c error handler) := by
  cases error with
  | true => cases handler <;> exact hs.disconnected hspares
  | false =>
      cases handler with
      | body => exact ((hs.log _).calls hspares).asyncRead c .header 0 headerSize
      | header =>
          simp only [SocketServer.handleRead, handleReadHeader, if_true]
          split
          · rename_i hover
            obtain ⟨herror, hdisconnect⟩ := hspares hover
            exact (((hs.log _).calls herror).disconnected hdisconnect).asyncRead c .body 3 _
          · exact hs.asyncRead c .body 3 _

theorem handleAccept (hs : AllInOrder s) {callbacks : Callbacks} {error : Bool}
    (hspares : error = false →
      CallsSpare
        ((s.modify s.accepting fun k => { k with started := true }).fireConnectedEvent quiet
          s.accepting) (callbacks (.connected s.accepting))) :
    AllInOrder (s.handleAccept callbacks s.accepting error) := by
  have hstart : AllInOrder (if error = false then s.start callbacks s.accepting else s) := by
    split
    · rename_i herror
      have hstarted := hs.modify s.accepting (f := fun k => { k with started := true }) fun _ => rfl
      have hconnected := hstarted.modify s.accepting (f := fun k => k.doConnected s.id) fun _ => rfl
      have hquiet : AllInOrder ((s.modify s.accepting fun k =>
          { k with started := true }).fireConnectedEvent quiet s.accepting) :=
        hconnected.congr rfl fun _ => rfl
      exact (hquiet.calls (hspares herror)).asyncRead s.accepting .header 0 headerSize
    · exact hs
  intro c
  simp only [SocketServer.handleAccept, startAccept]
  by_cases hc : c = (if error = false then s.start callbacks s.accepting else s).created
  · -- a new connection has sent nothing
    subst hc
    rw [Function.update_self]
    exact StreamSocket.inOrder_of_complete rfl
  · rw [Function.update_of_ne hc]
    exact hstart c

/-- An orderly turn keeps the order. -/
theorem step (hs : AllInOrder s) {s' : SocketServer} {turn : Turn} (horderly : Orderly s turn)
    (hstep : step s turn = some s') : AllInOrder s' := by
  obtain ⟨input, callbacks⟩ := turn
  cases input with
  | accept error =>
      obtain rfl := Option.some.inj hstep
      exact hs.handleAccept horderly
  | readSome c i bytes =>
      obtain ⟨⟨memory, socket⟩, hread, rfl⟩ := Option.map_eq_some_iff.mp hstep
      obtain ⟨op, hop, _, _, _, rfl, hsocket⟩ := StreamSocket.readSome_cases hread
      have hstored := hs.rewrite (horderly op hop)
      refine hstored.setSocket ((hstored c).congr ?_ ?_ ?_ ?_) <;> rw [hsocket] <;> rfl
  | readDone c i =>
      obtain ⟨⟨handler, socket⟩, hread, rfl⟩ := Option.map_eq_some_iff.mp hstep
      obtain ⟨op, _, _, _, hsocket⟩ := StreamSocket.readDone_cases hread
      refine AllInOrder.handleRead (hs.setSocket ((hs c).congr ?_ ?_ ?_ ?_)) (horderly _ hread) <;>
        rw [hsocket]
  | readFailed c i =>
      obtain ⟨⟨handler, socket⟩, hread, rfl⟩ := Option.map_eq_some_iff.mp hstep
      obtain ⟨op, _, _, hsocket⟩ := StreamSocket.readFailed_cases hread
      refine AllInOrder.handleRead (hs.setSocket ((hs c).congr ?_ ?_ ?_ ?_)) (horderly _ hread) <;>
        rw [hsocket]
  | writeSome c i n =>
      obtain ⟨socket, hwrite, rfl⟩ := Option.map_eq_some_iff.mp hstep
      exact hs.setSocket ((hs c).writeSome horderly hwrite)
  | writeDone c i =>
      obtain ⟨socket, hwrite, rfl⟩ := Option.map_eq_some_iff.mp hstep
      exact hs.setSocket ((hs c).writeDone hwrite)
  | writeFailed c i =>
      obtain ⟨socket, hwrite, rfl⟩ := Option.map_eq_some_iff.mp hstep
      exact (hs.setSocket ((hs c).writeError hwrite)).disconnected (horderly _ hwrite)
  | call call =>
      obtain rfl := Option.some.inj hstep
      exact hs.call horderly
  | setUserID c userId =>
      obtain rfl := Option.some.inj hstep
      split
      · exact hs.modify c fun _ => rfl
      · exact hs
  | rewrite block contents =>
      obtain rfl := Option.some.inj hstep
      exact hs.rewrite horderly

end AllInOrder

/-- In a run of orderly turns every wire is in order. -/
theorem allInOrder_run (memory : Heap Address UInt8) :
    ∀ turns s, (machine memory).run turns = some s → (machine memory).Always Orderly turns →
      AllInOrder s := by
  refine Machine.run_induction ?_ ?_
  · intro _ c
    have hconnection : (machine memory).init.connections c = {} := by simp [machine, startAccept]
    rw [hconnection]
    exact StreamSocket.inOrder_of_complete rfl
  · intro turns s turn s' hs ih hstep halways
    obtain ⟨hfront, hlast⟩ := (Machine.always_concat _ _).mp halways
    exact (ih hfront).step (hlast s hs) hstep

end RyuLib.SocketServer
