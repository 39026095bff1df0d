import RyuLib.Socket.ServerWire
import RyuLib.Socket.ClientWire

/-!
# Sends in order

The peer of a socket should receive the packets that were sent on it one after the
other, each as it stood when `send` was called.  This is so in runs of orderly turns
(`sends_in_order`).  It is not so for a packet that is overwritten while its write is
pending, as the receive buffer is when the server echoes it to all connections and the
next header arrives; for one that has been freed and whose block is used for the next;
and for two pending writes that take turns.
-/

namespace RyuLib

open Foundations

/-- On every connection a front of the packets handed to `send`, as they stood then, has
left in the order of the calls. -/
def SocketServer.SendsInOrder (memory : Heap Address UInt8) (turns : List SocketServer.Turn) :
    Prop :=
  ∀ s, (SocketServer.machine memory).run turns = some s → ∀ c,
    (s.connections c).socket.outgoing <+: (s.connections c).socket.queued.flatten

def SocketClient.SendsInOrder (memory : Heap ClientAddress UInt8)
    (turns : List SocketClient.Turn) : Prop :=
  ∀ s, (SocketClient.machine memory).run turns = some s → ∀ k, s.socket = some k →
    k.outgoing <+: k.queued.flatten

/-- In a run of orderly turns, of a server or of a client, sends arrive whole and in
order. -/
theorem sends_in_order (memory : Heap Address UInt8) (turns : List SocketServer.Turn)
    (clientMemory : Heap ClientAddress UInt8) (clientTurns : List SocketClient.Turn) :
    ((SocketServer.machine memory).Always SocketServer.Orderly turns →
      SocketServer.SendsInOrder memory turns) ∧
    ((SocketClient.machine clientMemory).Always SocketClient.Orderly clientTurns →
      SocketClient.SendsInOrder clientMemory clientTurns) := by
  constructor
  · intro horderly s hrun c
    exact (SocketServer.allInOrder_run memory turns s hrun horderly c).front
  · intro horderly s hrun k hk
    exact (SocketClient.inOrder_run clientMemory clientTurns s hrun horderly k hk).front

/-- Memory in which a packet with the data `65` stands everywhere. -/
def packetMemory {ν : Type} : Heap ν UInt8 := fun _ => Block.ofList 0 [4, 0, 1, 65]

/-- A packet is sent to the first client, and two of its bytes leave. -/
def serverSend : List SocketServer.Turn :=
  [⟨.accept false, fun _ => []⟩, ⟨.call (.send 0 (.heap 0)), fun _ => []⟩,
    ⟨.writeSome 0 0 2, fun _ => []⟩]

def clientSend : List SocketClient.Turn :=
  [⟨.connect true, fun _ => []⟩, ⟨.connectDone none, fun _ => []⟩,
    ⟨.call (.send (.heap 0)), fun _ => []⟩, ⟨.writeSome 0 2, fun _ => []⟩]

theorem sends_in_order_send :
    SocketServer.SendsInOrder packetMemory serverSend ∧
      SocketClient.SendsInOrder packetMemory clientSend := by
  obtain ⟨hserver, hclient⟩ := sends_in_order packetMemory serverSend packetMemory clientSend
  refine ⟨hserver ?_, hclient ?_⟩
  · refine Machine.Always.cons (fun _ => trivial) fun s hs => ?_
    obtain rfl := Option.some.inj hs
    refine Machine.Always.cons trivial fun t ht => ?_
    obtain rfl := Option.some.inj ht
    exact Machine.Always.cons ⟨rfl, nofun⟩ fun _ _ => Machine.always_nil _
  · refine Machine.Always.cons trivial fun s hs => ?_
    obtain rfl := Option.some.inj hs
    refine Machine.Always.cons trivial fun t ht => ?_
    obtain rfl := Option.some.inj ht
    refine Machine.Always.cons trivial fun u hu => ?_
    obtain rfl := Option.some.inj hu
    refine Machine.Always.cons ?_ fun _ _ => Machine.always_nil _
    rintro k ⟨⟩
    exact ⟨rfl, nofun⟩

/-- A received packet is sent to all; before it leaves, the next header arrives. -/
def echoed : List SocketServer.Turn :=
  [⟨.accept false, fun _ => []⟩, ⟨.readSome 0 0 [4, 0, 1], fun _ => []⟩,
    ⟨.readDone 0 0, fun _ => []⟩, ⟨.readSome 0 0 [65], fun _ => []⟩,
    ⟨.readDone 0 0, fun
      | .received c _ => [.sendToAll (.packet c)]
      | _ => []⟩,
    ⟨.readSome 0 0 [4, 0, 2], fun _ => []⟩, ⟨.writeSome 0 0 4, fun _ => []⟩]

/-- Two texts are sent, and `malloc` gives the freed block again. -/
def freed : List SocketClient.Turn :=
  [⟨.connect true, fun _ => []⟩, ⟨.connectDone none, fun _ => []⟩,
    ⟨.call (.sendText 0 1 [65]), fun _ => []⟩, ⟨.call (.sendText 0 1 [66]), fun _ => []⟩,
    ⟨.writeSome 0 4, fun _ => []⟩]

/-- Two texts are sent in blocks of their own; a step of the second write comes between
two of the first. -/
def alternating : List SocketClient.Turn :=
  [⟨.connect true, fun _ => []⟩, ⟨.connectDone none, fun _ => []⟩,
    ⟨.call (.sendText 0 1 [65]), fun _ => []⟩, ⟨.call (.sendText 1 1 [66]), fun _ => []⟩,
    ⟨.writeSome 0 2, fun _ => []⟩, ⟨.writeSome 1 4, fun _ => []⟩, ⟨.writeSome 0 2, fun _ => []⟩]

theorem not_sends_in_order :
    ¬ SocketServer.SendsInOrder (fun _ _ => 0) echoed ∧
      ¬ SocketClient.SendsInOrder (fun _ _ => 0) freed ∧
      ¬ SocketClient.SendsInOrder (fun _ _ => 0) alternating := by
  refine ⟨?_, ?_, ?_⟩
  · intro h
    have hfront := h _ rfl 0
    have hwire : ([4, 0, 2, 65] : List UInt8) <+: [4, 0, 1, 65] := hfront
    exact absurd hwire (by decide)
  · intro h
    have hfront := h _ rfl _ rfl
    have hwire : ([4, 0, 1, 66] : List UInt8) <+: [4, 0, 1, 65, 4, 0, 1, 66] := hfront
    exact absurd hwire (by decide)
  · intro h
    have hfront := h _ rfl _ rfl
    have hwire : ([4, 0, 4, 0, 1, 66, 1, 65] : List UInt8) <+: [4, 0, 1, 65, 4, 0, 1, 66] := hfront
    exact absurd hwire (by decide)

end RyuLib
