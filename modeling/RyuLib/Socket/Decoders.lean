import RyuLib.Socket.PacketStreams
import RyuLib.Socket.ServerLanes
import RyuLib.Socket.ClientLane

/-!
# The three decoders

A `Connection` of a server, a `SocketClient` and a `PacketReader` each turn a stream of
bytes into packets.  On a stream whose headers all declare a size between `HEADER_SIZE`
and `PACKET_LIMIT` they deliver the same packets, the `frames` of the stream
(`decoders_agree`).
-/

namespace RyuLib

open Foundations Reading

/-- Every header of the stream declares an admissible size. -/
def SizesAdmissible (stream : List UInt8) : Prop :=
  packetFraming.AllSizes (fun size => headerSize ≤ size ∧ size ≤ packetLimit) stream

/-- What the decoders have to do with a stream, and that its parse into size-prefixed
packets is the only one. -/
structure DecodersAgree (stream : List UInt8) : Prop where
  /-- A connection that has received the stream and awaits more. -/
  connection : ∀ memory turns s c, (SocketServer.machine memory).run turns = some s →
    (s.lane c).incoming = stream → Awaiting (s.lane c) →
      (s.lane c).delivered = packetFraming.frames stream
  /-- A client that has received the stream and awaits more. -/
  client : ∀ memory turns s, (SocketClient.machine memory).run turns = some s →
    s.lane.incoming = stream → Awaiting s.lane → s.lane.delivered = packetFraming.frames stream
  /-- A reader that is drained after each chunk of the stream. -/
  reader : ∀ buffer data chunks fuel, chunks.flatten = stream →
    (∀ chunk ∈ chunks, chunk.length ≤ packetLimit) → stream.length < fuel →
      ∃ t, PacketReader.feed fuel (.new buffer data) chunks = some t ∧
        t.packets.map Packet.image = packetFraming.frames stream ∧
        t.reader.held = packetFraming.rest stream ∧ t.StaysInside
  /-- The stream can arrive at a connection and at a client. -/
  arrives : (∀ memory, ∃ turns s c, (SocketServer.machine memory).run turns = some s ∧
      (s.lane c).incoming = stream ∧ Awaiting (s.lane c)) ∧
    ∀ memory, ∃ turns s, (SocketClient.machine memory).run turns = some s ∧
      s.lane.incoming = stream ∧ Awaiting s.lane
  /-- The frames are packets, and behind them there is no complete one. -/
  parse : (∀ p ∈ packetFraming.frames stream, packetFraming.IsFrame p) ∧
    ¬ packetFraming.Complete (packetFraming.rest stream) ∧
      (packetFraming.frames stream).flatten ++ packetFraming.rest stream = stream
  unique : ∀ packets tail, (∀ p ∈ packets, packetFraming.IsFrame p) →
    ¬ packetFraming.Complete tail → packets.flatten ++ tail = stream →
      packets = packetFraming.frames stream ∧ tail = packetFraming.rest stream

/-- On a stream whose headers count themselves, the packets shown are the frames. -/
theorem PacketReader.Session.Parses.images {t : PacketReader.Session} {stream : List UInt8}
    (h : t.Parses stream) (hsized : packetFraming.AllSizes (headerSize ≤ ·) stream) :
    t.packets.map Packet.image = packetFraming.frames stream := by
  have hframes := Framing.isFrame_of_mem_frames hsized
  have hpackets := h.packets
  generalize packetFraming.frames stream = frames at hframes hpackets ⊢
  generalize t.packets = packets at hpackets ⊢
  induction hpackets with
  | nil => rfl
  | @cons packet frame packets frames hfirst _ ih =>
      obtain ⟨hheader, hsize⟩ := hframes frame List.mem_cons_self
      have hdeclared : Packet.packetSize packet = frame.length := by
        rw [← hsize, ← hfirst]
        refine (Packet.shortAt_load packet ?_).symm
        exact (by decide : 2 ≤ headerSize).trans hheader
      rw [List.map_cons, ih fun p hp => hframes p (List.mem_cons_of_mem _ hp), Packet.image,
        hdeclared, hfirst]

/-- Admissible sizes fit the allocations of a reader. -/
theorem SizesAdmissible.sizesFit {stream : List UInt8} (h : SizesAdmissible stream) :
    PacketReader.SizesFit stream := by
  intro k hk hheader
  have hsize := (h k hk hheader).2
  exact ⟨fun _ => hsize.trans (Nat.le_add_right _ _), Or.inl (hsize.trans (Nat.le_succ _))⟩

/-- The three decoders agree on every stream with admissible sizes. -/
theorem decoders_agree {stream : List UInt8} (hsizes : SizesAdmissible stream) :
    DecodersAgree stream := by
  have hsized : packetFraming.AllSizes (headerSize ≤ ·) stream := hsizes.mono fun _ h => h.1
  refine ⟨?_, ?_, ?_,
    ⟨fun memory => SocketServer.exists_incoming memory stream,
      fun memory => SocketClient.exists_incoming memory stream⟩,
    ⟨Framing.isFrame_of_mem_frames hsized, Framing.not_complete_rest stream,
      Framing.flatten_frames_append_rest stream⟩, ?_⟩
  · intro memory turns s c hrun hincoming hawaiting
    have hdecodes := (SocketServer.follows memory c).decodes turns s hrun (hincoming ▸ hsized)
    rw [← hdecodes.parsed hawaiting, hincoming]
  · intro memory turns s hrun hincoming hawaiting
    have hdecodes := (SocketClient.follows memory).decodes turns s hrun (hincoming ▸ hsized)
    rw [← hdecodes.parsed hawaiting, hincoming]
  · intro buffer data chunks fuel hchunks hlength hfuel
    subst hchunks
    have hpositive : packetFraming.AllSizes (0 < ·) chunks.flatten :=
      hsized.mono fun _ h => (by decide : 0 < headerSize).trans_le h
    obtain ⟨t, ht⟩ := PacketReader.exists_feed (r := .new buffer data) fuel chunks
      (by simpa using hpositive) (by simpa using hfuel)
    obtain ⟨hparses, _⟩ := PacketReader.feed_spec (by rw [PacketReader.held_new, Framing.rest_nil])
      (by rw [PacketReader.held_new]; exact hpositive.of_append (l := [])) ht
    rw [PacketReader.held_new, List.nil_append] at hparses
    exact ⟨t, ht, hparses.images hsized, hparses.held,
      PacketReader.Session.staysInside_of_sizesFit hsizes.sizesFit hlength ht⟩
  · intro packets tail hpackets htail hstream
    subst hstream
    obtain ⟨hframes, hrest⟩ := Framing.frames_unique hpackets htail
    exact ⟨hframes.symm, hrest.symm⟩

/-- A packet without data and the start of another one. -/
theorem decoders_agree_partial : DecodersAgree [3, 0, 7, 5, 0] :=
  decoders_agree (.of_head (fun _ => by decide) fun _ _ =>
    .of_head (fun h => absurd h (by decide)) fun h => absurd h (by decide))

end RyuLib
