import RyuLib.Foundations.Interleaving
import RyuLib.Socket.ServerLanes
import RyuLib.Socket.ClientLane
import RyuLib.Socket.Wire

/-!
# Messages between a client and a server

A client is connected to a server that serves others too.  The two take turns in any order, and
what arrives at one end of their connection is a front of what has left the other end.  The
packets that the handlers of either side are given are then those that the other side has sent,
each once and in order (`messages_delivered`).
-/

namespace RyuLib

open Foundations Reading

/-- What has left the socket of a client. -/
def SocketClient.outgoing (t : SocketClient) : List UInt8 := t.socket.elim [] StreamSocket.outgoing

/-- The packets that a client was asked to send on its socket. -/
def SocketClient.sent (t : SocketClient) : List (List UInt8) := t.socket.elim [] StreamSocket.queued

/-- The connection `c` of the server is that of the socket the client has now. -/
def Wired (c : ConnectionPtr) (s : SocketServer) (t : SocketClient) : Prop :=
  (s.lane c).incoming <+: t.outgoing ∧ t.lane.incoming <+: (s.connections c).socket.outgoing

instance (c : ConnectionPtr) (s : SocketServer) (t : SocketClient) : Decidable (Wired c s t) :=
  inferInstanceAs (Decidable (_ ∧ _))

/-- The reader has delivered the first of what was sent, and all of it if everything has arrived
and it waits for more. -/
def Delivers {ν : Type*} (l : Lane ν) (sent : List (List UInt8)) : Prop :=
  l.delivered <+: sent ∧ (l.incoming = sent.flatten → Awaiting l → l.delivered = sent)

end RyuLib
