import RyuLib.Foundations.StreamSocket
import RyuLib.Socket.Packet

/-!
# Reading packets in two phases

`Connection` and `SocketClient` read packets the same way: an `async_read` of the
header, then one of `getDataSize()` bytes to `data_start`, both into one receive
buffer, again and again.  A `Lane` is what there is to see of one such reader, and
`Moves` says once what any step of a server or a client can do to it.  They differ
in which declared sizes are reported (`rejects`).

* `Decodes`: the stream received is the packets delivered so far and what the
  receive buffer holds of the next one.
* `Decodes.parsed`: while bytes are awaited, the packets delivered are the parse of
  the stream.
-/

namespace RyuLib

open Foundations

/-- The two handlers an `async_read` is bound to. -/
inductive ReadHandler
  | header
  | body
  deriving DecidableEq

/-- The events fired for one connection. -/
inductive LifeEvent
  | connected
  | disconnected
  | received (packet : Packet)

/-- The packets of the received events. -/
def received : List LifeEvent → List Packet
  | [] => []
  | .received packet :: events => packet :: received events
  | _ :: events => received events

theorem received_append (first second : List LifeEvent) :
    received (first ++ second) = received first ++ received second := by
  induction first with
  | nil => rfl
  | cons event first ih => cases event <;> simp [received, ih]

namespace Reading

variable {ν : Type*}

/-- One reader: its receive buffer, the pending read, the stream received so far and
the events fired for it. -/
structure Lane (ν : Type*) where
  packet : Packet
  started : Bool := false
  pending : Option (ReadOp ReadHandler ν) := none
  incoming : List UInt8 := []
  events : List LifeEvent := []

/-- What a step of the server or the client is for one reader. -/
inductive Action
  | idle
  | reset
  | start
  | readSome (bytes : List UInt8)
  | readDone
  | readFailed
  | writeFailed

/-- The read of a header. -/
def headerRead (address : ν) : ReadOp ReadHandler ν := ⟨.header, headerSize, address, 0, headerSize⟩

/-- The read of the body the header in the receive buffer declares. -/
def bodyRead (address : ν) (packet : Packet) : ReadOp ReadHandler ν :=
  ⟨.body, sizeT (Packet.getDataSize packet), address, 3, sizeT (Packet.getDataSize packet)⟩

/-- What a header of the declared size fires. -/
def headerEvents (rejects : ℕ → Bool) (size : ℕ) : List LifeEvent :=
  if rejects size = true then [.disconnected] else []

/-- The steps of a reader. -/
inductive Moves (rejects : ℕ → Bool) (address : ν) : Lane ν → Action → Lane ν → Prop
  | idle (l : Lane ν) : Moves rejects address l .idle l
  | reset (l : Lane ν) : Moves rejects address l .reset { packet := l.packet }
  | start (packet : Packet) :
      Moves rejects address { packet := packet } .start
        { packet := packet
          started := true
          pending := some (headerRead address)
          events := [.connected] }
  | readSome {l : Lane ν} {op : ReadOp ReadHandler ν} {bytes : List UInt8}
      (hop : l.pending = some op) (hle : bytes.length ≤ op.remaining) :
      Moves rejects address l (.readSome bytes)
        { l with
          packet := l.packet.store op.offset bytes
          incoming := l.incoming ++ bytes
          pending := some
            { op with
              offset := op.offset + bytes.length
              remaining := op.remaining - bytes.length } }
  | headerDone {l : Lane ν} {op : ReadOp ReadHandler ν} (hop : l.pending = some op)
      (hhandler : op.handler = .header) (hdone : op.remaining = 0) :
      Moves rejects address l .readDone
        { l with
          pending := some (bodyRead address l.packet)
          events := l.events ++ headerEvents rejects (Packet.packetSize l.packet) }
  | bodyDone {l : Lane ν} {op : ReadOp ReadHandler ν} (hop : l.pending = some op)
      (hhandler : op.handler = .body) (hdone : op.remaining = 0) :
      Moves rejects address l .readDone
        { l with
          pending := some (headerRead address)
          events := l.events ++ [.received l.packet] }
  | readFailed {l : Lane ν} {op : ReadOp ReadHandler ν} (hop : l.pending = some op) :
      Moves rejects address l .readFailed
        { l with pending := none, events := l.events ++ [.disconnected] }
  | writeFailed {l : Lane ν} (hstarted : l.started = true) :
      Moves rejects address l .writeFailed { l with events := l.events ++ [.disconnected] }

/-! ## Decoding -/

/-- The packets delivered so far, each as its `packet_size` bytes. -/
def Lane.delivered (l : Lane ν) : List (List UInt8) := (received l.events).map Packet.image

/-- The pending read continues `tail`, the part of a packet already in the receive
buffer. -/
structure Continues (op : ReadOp ReadHandler ν) (packet : Packet) (tail : List UInt8) :
    Prop where
  length_tail : tail.length = op.offset
  loaded : packet.load 0 op.offset = tail
  header : op.handler = .header → op.offset + op.remaining = headerSize
  body : op.handler = .body →
    headerSize ≤ op.offset ∧ op.offset + op.remaining = Packet.packetSize packet

/-- The stream received is the delivered packets followed by what the receive
buffer holds of the next one. -/
def Decodes (l : Lane ν) : Prop :=
  ∃ tail, l.incoming = l.delivered.flatten ++ tail ∧
    (∀ p ∈ l.delivered, packetFraming.IsFrame p) ∧
      ∀ op, l.pending = some op → Continues op l.packet tail

/-- A read is pending and has bytes to wait for. -/
def Awaiting (l : Lane ν) : Prop := ∃ op, l.pending = some op ∧ 0 < op.remaining

theorem continues_headerRead (address : ν) (packet : Packet) :
    Continues (headerRead address) packet [] :=
  ⟨rfl, rfl, fun _ => rfl, fun h => nomatch h⟩

/-- A reader with nothing read or delivered. -/
theorem decodes_of_nil {l : Lane ν} (hincoming : l.incoming = [])
    (hreceived : received l.events = [])
    (hpending : ∀ op, l.pending = some op → Continues op l.packet []) : Decodes l := by
  refine ⟨[], ?_, ?_, hpending⟩ <;> simp [Lane.delivered, hincoming, hreceived]

/-- More bytes for the pending read. -/
theorem Continues.store {op : ReadOp ReadHandler ν} {packet : Packet} {tail bytes : List UInt8}
    (hop : Continues op packet tail) (hle : bytes.length ≤ op.remaining) :
    Continues
      { op with offset := op.offset + bytes.length, remaining := op.remaining - bytes.length }
      (packet.store op.offset bytes) (tail ++ bytes) := by
  refine ⟨?_, ?_, ?_, ?_⟩
  · rw [List.length_append, hop.length_tail]
  · have happend := Block.load_store_append packet 0 op.offset bytes
    rw [Nat.zero_add] at happend
    exact happend.trans (by rw [hop.loaded])
  · intro hheader
    have hheader' := hop.header hheader
    simp only
    omega
  · intro hbody
    obtain ⟨hstart, hlength⟩ := hop.body hbody
    -- the body is stored behind the size field
    have hsize : Packet.packetSize (packet.store op.offset bytes) = Packet.packetSize packet :=
      Packet.packetSize_congr (n := headerSize) (by decide)
        (Block.load_store_before _ _ (by rw [Nat.zero_add]; exact hstart))
    rw [hsize]
    simp only
    omega

/-- A complete header in the receive buffer is the front of `tail`. -/
theorem Continues.size_eq {op : ReadOp ReadHandler ν} {packet : Packet} {tail : List UInt8}
    (hop : Continues op packet tail) (hheader : headerSize ≤ op.offset) :
    packetFraming.size tail = Packet.packetSize packet := by
  unfold headerSize at hheader
  rw [← hop.loaded]
  exact Packet.shortAt_load packet (by omega)

/-- The header is complete: the body is read next. -/
theorem Continues.bodyRead {op : ReadOp ReadHandler ν} {packet : Packet} {tail : List UInt8}
    (hop : Continues op packet tail) (hheader : op.handler = .header) (hdone : op.remaining = 0)
    (hsize : headerSize ≤ Packet.packetSize packet) (address : ν) :
    Continues (Reading.bodyRead address packet) packet tail := by
  have hoffset := hop.header hheader
  rw [hdone, Nat.add_zero] at hoffset
  have hlength := hop.length_tail
  have hload := hop.loaded
  rw [hoffset] at hlength hload
  refine ⟨hlength, hload, (fun h => nomatch h), fun _ => ⟨le_rfl, ?_⟩⟩
  have hlt := Packet.packetSize_lt packet
  unfold headerSize at hsize
  simp only [Reading.bodyRead, sizeT, Packet.getDataSize]
  omega

/-- The body is complete: the receive buffer holds one packet, `tail`. -/
theorem Continues.image_eq {op : ReadOp ReadHandler ν} {packet : Packet} {tail : List UInt8}
    (hop : Continues op packet tail) (hbody : op.handler = .body) (hdone : op.remaining = 0) :
    packet.image = tail ∧ packetFraming.IsFrame tail := by
  obtain ⟨hstart, hlength⟩ := hop.body hbody
  rw [hdone, Nat.add_zero] at hlength
  refine ⟨by rw [Packet.image, ← hlength, hop.loaded], ?_, ?_⟩
  · rw [hop.length_tail]
    exact hstart
  · rw [hop.size_eq hstart, ← hlength, hop.length_tail]

/-- The declared size of a complete header, where every size declared on the stream
satisfies `P`. -/
theorem Decodes.size_of_allSizes {l : Lane ν} (hl : Decodes l) {op : ReadOp ReadHandler ν}
    (hop : l.pending = some op) (hheader : op.handler = .header) (hdone : op.remaining = 0)
    {P : ℕ → Prop} (hsized : packetFraming.AllSizes P l.incoming) :
    P (Packet.packetSize l.packet) := by
  obtain ⟨tail, hincoming, hframes, hpending⟩ := hl
  have hop' := hpending op hop
  have hoffset := hop'.header hheader
  rw [hdone, Nat.add_zero] at hoffset
  have hsize := hsized l.delivered.flatten.length
    (by rw [hincoming]; exact Framing.boundary_flatten hframes tail)
  rw [hincoming, List.drop_left, hop'.length_tail, hoffset, hop'.size_eq hoffset.ge] at hsize
  exact hsize le_rfl

/-- On a stream whose headers all count themselves, every step keeps decoding. -/
theorem Moves.decodes {rejects : ℕ → Bool} {address : ν} {l l' : Lane ν} {action : Action}
    (hmove : Moves rejects address l action l')
    (hsized : packetFraming.AllSizes (headerSize ≤ ·) l'.incoming)
    (hl : packetFraming.AllSizes (headerSize ≤ ·) l.incoming → Decodes l) : Decodes l' := by
  cases hmove with
  | idle => exact hl hsized
  | reset => exact decodes_of_nil rfl rfl (by simp)
  | start packet =>
      apply decodes_of_nil rfl rfl
      intro op hop
      obtain rfl := Option.some.inj hop
      exact continues_headerRead address packet
  | readSome hop hle =>
      rename_i op bytes
      obtain ⟨tail, hincoming, hframes, hpending⟩ := hl hsized.of_append
      refine ⟨tail ++ bytes, ?_, hframes, ?_⟩
      · rw [← List.append_assoc]
        exact congrArg (· ++ bytes) hincoming
      · intro op' hop'
        obtain rfl := Option.some.inj hop'
        exact (hpending _ hop).store hle
  | headerDone hop hhandler hdone =>
      -- no packet is delivered yet, and the header stays the front of the next one
      have hdecodes := hl hsized
      have hsize := hdecodes.size_of_allSizes hop hhandler hdone hsized
      obtain ⟨tail, hincoming, hframes, hpending⟩ := hdecodes
      have hdelivered : received (l.events ++ headerEvents rejects (Packet.packetSize l.packet)) =
          received l.events := by
        unfold headerEvents
        split <;> simp [received_append, received]
      refine ⟨tail, ?_, ?_, ?_⟩
      · simpa only [Lane.delivered, hdelivered] using hincoming
      · simpa only [Lane.delivered, hdelivered] using hframes
      · intro op' hop'
        obtain rfl := Option.some.inj hop'
        exact (hpending _ hop).bodyRead hhandler hdone hsize address
  | bodyDone hop hhandler hdone =>
      obtain ⟨tail, hincoming, hframes, hpending⟩ := hl hsized
      obtain ⟨himage, hframe⟩ := (hpending _ hop).image_eq hhandler hdone
      have hdelivered : (received (l.events ++ [.received l.packet])).map Packet.image =
          l.delivered ++ [tail] := by
        rw [received_append, List.map_append, ← himage]
        rfl
      refine ⟨[], ?_, ?_, ?_⟩
      · simp only [Lane.delivered, hdelivered, List.flatten_append, List.flatten_singleton,
          List.append_nil]
        exact hincoming
      · intro p hp
        simp only [Lane.delivered, hdelivered, List.mem_append, List.mem_singleton] at hp
        rcases hp with hp | rfl
        · exact hframes p hp
        · exact hframe
      · intro op' hop'
        obtain rfl := Option.some.inj hop'
        exact continues_headerRead address _
  | readFailed hop =>
      obtain ⟨tail, hincoming, hframes, _⟩ := hl hsized
      refine ⟨tail, ?_, ?_, by simp⟩
      · simpa [Lane.delivered, received_append, received] using hincoming
      · simpa [Lane.delivered, received_append, received] using hframes
  | writeFailed =>
      obtain ⟨tail, hincoming, hframes, hpending⟩ := hl hsized
      refine ⟨tail, ?_, ?_, hpending⟩
      · simpa [Lane.delivered, received_append, received] using hincoming
      · simpa [Lane.delivered, received_append, received] using hframes

/-- While bytes are awaited, what has been delivered is the parse of the stream. -/
theorem Decodes.parsed {l : Lane ν} (hl : Decodes l) (hawaiting : Awaiting l) :
    packetFraming.frames l.incoming = l.delivered := by
  obtain ⟨tail, hincoming, hframes, hpending⟩ := hl
  obtain ⟨op, hop, hremaining⟩ := hawaiting
  have hop' := hpending op hop
  have hlength := hop'.length_tail
  rw [hincoming]
  -- the pending read still needs bytes of the packet that `tail` begins
  refine (Framing.frames_unique hframes ?_).1
  intro hcomplete
  have hheader : headerSize ≤ tail.length := hcomplete.1
  rw [hlength] at hheader
  cases hhandler : op.handler with
  | header =>
      have htotal := hop'.header hhandler
      omega
  | body =>
      obtain ⟨_, htotal⟩ := hop'.body hhandler
      have hle := hcomplete.2.2
      rw [hop'.size_eq hheader] at hle
      omega

end Reading

end RyuLib
