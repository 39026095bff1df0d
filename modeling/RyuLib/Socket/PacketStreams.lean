import RyuLib.Socket.PacketReader

/-!
# PacketReader over whole streams

Three results about a reader that is drained after every write.

* A stream of packets built by `create_packet` comes out as it went in, however
  it is cut (`framing_round_trip`).
* The drain makes progress by whole headers, and ends, exactly on the streams
  none of whose packets declares less than its header
  (`drainsByHeaders_iff`): `canRead` compares the declared size with what is
  held from above only.
* The two allocations suffice for every cut of a stream exactly when the sizes
  it declares fit (`staysInside_iff`): nothing in the reader compares a
  declared size with `PACKET_LIMIT`.
-/

namespace RyuLib.PacketReader

open Foundations

/-! ## Created packets -/

/-- `create_packet` made `packet` for a type and a payload. -/
def Created (pair : UInt8 × List UInt8) (packet : Packet) : Prop :=
  ∃ malloc, createPacket malloc pair.1 (Block.ofList 0 pair.2) (pair.2.length : ℤ) = some packet

private theorem Created.load {pair : UInt8 × List UInt8} {packet : Packet}
    (h : Created pair packet) :
    packet.load 0 (pair.2.length + headerSize) = packetBytes pair.1 pair.2 := by
  obtain ⟨malloc, hcreate⟩ := h
  rw [createPacket_load hcreate, Block.load_ofList]

private theorem fits_of_le {n : ℕ} (h : n ≤ packetLimit - headerSize) :
    n + headerSize < 2 ^ 16 := by
  unfold packetLimit headerSize at *
  omega

private theorem Created.image_eq {pair : UInt8 × List UInt8} {packet : Packet}
    (h : Created pair packet) (hfit : pair.2.length ≤ packetLimit - headerSize) :
    packet.image = packetBytes pair.1 pair.2 :=
  (Packet.getData_of_load h.load (fits_of_le hfit)).2.2

private theorem image_all {pairs : List (UInt8 × List UInt8)} {packets : List Packet}
    (hcreated : List.Forall₂ Created pairs packets)
    (hfit : ∀ pair ∈ pairs, pair.2.length ≤ packetLimit - headerSize) :
    packets.map Packet.image = pairs.map fun pair => packetBytes pair.1 pair.2 := by
  induction hcreated with
  | nil => rfl
  | cons hfirst _ ih =>
      rw [List.map_cons, List.map_cons, hfirst.image_eq (hfit _ List.mem_cons_self),
        ih fun pair hpair => hfit pair (List.mem_cons_of_mem _ hpair)]

/-- The bytes of a packet are one frame of the wire format. -/
theorem isFrame_packetBytes {packetType : UInt8} {payload : List UInt8}
    (hfit : payload.length ≤ packetLimit - headerSize) :
    packetFraming.IsFrame (packetBytes packetType payload) := by
  constructor
  · rw [length_packetBytes]
    exact Nat.le_add_left _ _
  · rw [length_packetBytes]
    exact (shortAt_packetBytes _ _).trans (Nat.mod_eq_of_lt (fits_of_le hfit))

private theorem isFrame_of_pairs {pairs : List (UInt8 × List UInt8)}
    (hfit : ∀ pair ∈ pairs, pair.2.length ≤ packetLimit - headerSize) :
    ∀ p ∈ pairs.map fun pair => packetBytes pair.1 pair.2, packetFraming.IsFrame p := by
  intro p hp
  obtain ⟨pair, hpair, rfl⟩ := List.mem_map.mp hp
  exact isFrame_packetBytes (hfit pair hpair)

private theorem frames_of_pairs {pairs : List (UInt8 × List UInt8)}
    (hfit : ∀ pair ∈ pairs, pair.2.length ≤ packetLimit - headerSize) :
    packetFraming.frames (pairs.map fun pair => packetBytes pair.1 pair.2).flatten =
        (pairs.map fun pair => packetBytes pair.1 pair.2) ∧
      packetFraming.rest (pairs.map fun pair => packetBytes pair.1 pair.2).flatten = [] := by
  have hframes := isFrame_of_pairs hfit
  simpa using Framing.frames_unique hframes (r := []) Framing.not_complete_nil

/-- What `data_` shows after reading the bytes of a packet. -/
private theorem shown_packet {pairs : List (UInt8 × List UInt8)} {packets : List Packet}
    (hfit : ∀ pair ∈ pairs, pair.2.length ≤ packetLimit - headerSize)
    (hshown : List.Forall₂ (fun (packet : Packet) frame => packet.load 0 frame.length = frame)
      packets (pairs.map fun pair => packetBytes pair.1 pair.2)) :
    packets.map (fun packet => (packet.packetType, packet.getData)) = pairs ∧
      packets.map Packet.image = pairs.map fun pair => packetBytes pair.1 pair.2 := by
  induction pairs generalizing packets with
  | nil =>
      cases hshown
      exact ⟨rfl, rfl⟩
  | cons pair pairs ih =>
      rw [List.map_cons] at hshown
      cases hshown with
      | @cons packet _ packets _ hfirst hothers =>
          obtain ⟨hpairs, himages⟩ := ih
            (fun other hother => hfit other (List.mem_cons_of_mem _ hother))
            hothers
          rw [length_packetBytes] at hfirst
          obtain ⟨_, hdata, himage⟩ := Packet.getData_of_load hfirst
            (fits_of_le (hfit pair List.mem_cons_self))
          rw [List.map_cons, List.map_cons, List.map_cons, hpairs, himages, hdata, himage,
            Packet.packetType_of_load hfirst]
          exact ⟨rfl, rfl⟩

/-! ## Conditions on the declared sizes -/

private theorem allSizes_nil (P : ℕ → Prop) : packetFraming.AllSizes P [] :=
  .of_head (fun h => absurd h (by simp [packetFraming, headerSize]))
    fun h _ => absurd h (by simp [packetFraming, headerSize])

private theorem allSizes_of_frames {P : ℕ → Prop} {ps : List (List UInt8)}
    (hframes : ∀ p ∈ ps, packetFraming.IsFrame p) (hP : ∀ p ∈ ps, P p.length) :
    packetFraming.AllSizes P ps.flatten := by
  induction ps with
  | nil => exact allSizes_nil P
  | cons p ps ih =>
      have hp := hframes p List.mem_cons_self
      have hsize : packetFraming.size (p :: ps).flatten = p.length := by
        rw [List.flatten_cons, packetFraming.size_append _ _ hp.1, hp.2]
      refine .of_head ?_ ?_
      · intro _
        rw [hsize]
        exact hP p List.mem_cons_self
      · intro _ _
        rw [hsize, List.flatten_cons, List.drop_left]
        exact ih (fun q hq => hframes q (List.mem_cons_of_mem _ hq))
          fun q hq => hP q (List.mem_cons_of_mem _ hq)

/-- The copies of a session stay inside the two allocations. -/
def Session.StaysInside (t : Session) : Prop :=
  (∀ n ∈ t.ends, n ≤ 2 * packetLimit) ∧ ∀ n ∈ t.copies, n ≤ packetLimit + 4

/-- Every size declared by the stream fits: a complete packet fits `data_`, and a
packet that is longer than `PACKET_LIMIT + 1` is near the end of the stream. -/
def SizesFit (stream : List UInt8) : Prop :=
  ∀ k, packetFraming.Boundary stream k → headerSize ≤ (stream.drop k).length →
    (packetFraming.size (stream.drop k) ≤ (stream.drop k).length →
      packetFraming.size (stream.drop k) ≤ packetLimit + 4) ∧
    (packetFraming.size (stream.drop k) ≤ packetLimit + 1 ∨
      (stream.drop k).length ≤ 2 * packetLimit)

/-- Where the sizes fit, every session stays inside the allocations. -/
theorem Session.staysInside_of_sizesFit {buffer data : Block UInt8} {chunks : List (List UInt8)}
    {fuel : ℕ} {t : Session} (hfit : SizesFit chunks.flatten)
    (hchunks : ∀ chunk ∈ chunks, chunk.length ≤ packetLimit)
    (h : feed fuel (new buffer data) chunks = some t) : t.StaysInside := by
  obtain ⟨hparses, hsized, hends, _⟩ := feed_spec (by rw [held_new, Framing.rest_nil])
    (by rw [held_new]; exact allSizes_nil _) h
  rw [held_new, List.nil_append] at hparses hsized
  constructor
  · intro n hn
    rw [hends, held_new, ← Framing.rest_nil (F := packetFraming), mem_writeEnds] at hn
    obtain ⟨first, chunk, second, rfl, rfl⟩ := hn
    rw [List.nil_append]
    have hchunk := hchunks chunk (by simp)
    have hrest := Framing.drop_length_flatten_frames (F := packetFraming) first.flatten
    have hboundary := Framing.boundary_flatten_frames (F := packetFraming) first.flatten
    have hle := hboundary.le_length
    have hstream : (first ++ chunk :: second).flatten =
        first.flatten ++ (chunk ++ second.flatten) := by simp
    rw [hstream] at hfit hsized
    have hdrop : (first.flatten ++ (chunk ++ second.flatten)).drop
        (packetFraming.frames first.flatten).flatten.length =
          packetFraming.rest first.flatten ++ (chunk ++ second.flatten) := by
      rw [List.drop_append_of_le_length hle, hrest]
    by_cases hheader : packetFraming.header ≤ (packetFraming.rest first.flatten).length
    · -- the leftover declares a size it does not reach
      have hsize := packetFraming.size_append _ (chunk ++ second.flatten) hheader
      have hpos : 0 < packetFraming.size (packetFraming.rest first.flatten) := by
        have hdeclared := hsized.of_append _ hboundary (by rw [hrest]; exact hheader)
        rwa [hrest] at hdeclared
      have hshort : (packetFraming.rest first.flatten).length <
          packetFraming.size (packetFraming.rest first.flatten) := by
        by_contra hle
        exact Framing.not_complete_rest first.flatten ⟨hheader, hpos, by omega⟩
      obtain ⟨_, hfit'⟩ := hfit _ (hboundary.append _) (by
        rw [hdrop, List.length_append]
        exact hheader.trans (Nat.le_add_right _ _))
      rw [hdrop, hsize] at hfit'
      simp only [List.length_append] at hfit'
      unfold packetLimit at *
      omega
    · have hheader' : (packetFraming.rest first.flatten).length < 3 := Nat.lt_of_not_le hheader
      unfold packetLimit at *
      omega
  · intro n hn
    rw [hparses.copies] at hn
    obtain ⟨p, hp, rfl⟩ := List.mem_map.mp hn
    obtain ⟨k, hk, hcomplete, hlength⟩ := Framing.exists_boundary_of_mem_frames hp
    rw [hlength]
    exact (hfit k hk hcomplete.1).1 hcomplete.2.2

/-! ## The round trip -/

/-- Packets made by `create_packet`, cut into chunks anywhere and fed to a drained
reader, come out one by one with their types and payloads; the reader ends
empty and stays inside its allocations. -/
theorem framing_round_trip {pairs : List (UInt8 × List UInt8)} {packets : List Packet}
    {chunks : List (List UInt8)} {buffer data : Block UInt8} {fuel : ℕ}
    (hfit : ∀ pair ∈ pairs, pair.2.length ≤ packetLimit - headerSize)
    (hcreated : List.Forall₂ Created pairs packets)
    (hcut : chunks.flatten = (packets.map Packet.image).flatten)
    (hchunks : ∀ chunk ∈ chunks, 1 ≤ chunk.length ∧ chunk.length ≤ packetLimit)
    (hfuel : chunks.flatten.length < fuel) :
    ∃ t, feed fuel (new buffer data) chunks = some t ∧
      t.packets.map (fun packet => (packet.packetType, packet.getData)) = pairs ∧
      t.packets.map Packet.image = packets.map Packet.image ∧
      t.reader.size = 0 ∧
      (∀ size ∈ t.sizes, size ≤ 2 * packetLimit) ∧
      ∀ n ∈ t.copies, n ≤ packetLimit + 4 := by
  have himages := image_all hcreated hfit
  rw [himages] at hcut
  have hframes := isFrame_of_pairs hfit
  have hlengths : ∀ p ∈ pairs.map fun pair => packetBytes pair.1 pair.2,
      headerSize ≤ p.length ∧ p.length ≤ packetLimit := by
    intro p hp
    obtain ⟨pair, hpair, rfl⟩ := List.mem_map.mp hp
    have hlength := hfit pair hpair
    rw [length_packetBytes]
    unfold packetLimit headerSize at *
    omega
  have hsized : packetFraming.AllSizes (fun n => headerSize ≤ n ∧ n ≤ packetLimit)
      chunks.flatten := by
    rw [hcut]
    exact allSizes_of_frames hframes hlengths
  obtain ⟨t, ht⟩ := exists_feed (r := new buffer data) fuel chunks
    (by
      rw [held_new, List.nil_append]
      refine hsized.mono ?_
      intro n hn
      unfold headerSize at hn
      omega)
    (by rwa [held_new, List.nil_append])
  have hinside : t.StaysInside := by
    refine Session.staysInside_of_sizesFit ?_
      (fun chunk hchunk => (hchunks chunk hchunk).2) ht
    intro k hk hheader
    have hsize := hsized k hk hheader
    unfold packetLimit at *
    omega
  obtain ⟨hparses, _, _, hsizes⟩ := feed_spec (by rw [held_new, Framing.rest_nil])
    (by rw [held_new]; exact allSizes_nil _) ht
  rw [held_new, List.nil_append, hcut] at hparses
  obtain ⟨hpackets, hrest⟩ := frames_of_pairs hfit
  have hshown := hparses.packets
  rw [hpackets] at hshown
  obtain ⟨hpairs, himages'⟩ := shown_packet hfit hshown
  refine ⟨t, ht, hpairs, by rw [himages', himages], ?_, ?_, hinside.2⟩
  · rw [← length_held, hparses.held, hrest]
    rfl
  · intro size hsize
    obtain ⟨n, hn, hle⟩ := hsizes size hsize
    exact hle.trans (hinside.1 n hn)

/-- Freshly allocated memory that happens to be zero. -/
def zeros : Block UInt8 := fun _ => 0

private theorem created_five :
    Created (7, [1, 2]) (Block.ofList 0 (packetBytes 7 [1, 2])) := by
  refine ⟨fun _ => some zeros, ?_⟩
  rw [createPacket, Option.some.injEq]
  funext i
  rcases i with _ | _ | _ | _ | _ | i
  all_goals rfl

/-- Two packets, the cut inside the header of the second. -/
theorem framing_round_trip_two : ∃ t,
    feed 11 (new zeros zeros) [[5, 0, 7, 1, 2, 5], [0, 7, 1, 2]] = some t ∧
      t.packets.map (fun packet => (packet.packetType, packet.getData)) =
        [(7, [1, 2]), (7, [1, 2])] ∧
      t.packets.map Packet.image =
        [Block.ofList 0 (packetBytes 7 [1, 2]), Block.ofList 0 (packetBytes 7 [1, 2])].map
          Packet.image ∧
      t.reader.size = 0 ∧
      (∀ size ∈ t.sizes, size ≤ 2 * packetLimit) ∧
      ∀ n ∈ t.copies, n ≤ packetLimit + 4 :=
  framing_round_trip (by decide) (.cons created_five (.cons created_five .nil)) (by decide)
    (by decide) (by decide)

/-! ## Progress of the drain -/

/-- The reader after `n` calls of `read`. -/
def afterReads : ℕ → PacketReader → PacketReader
  | 0, r => r
  | n + 1, r => (afterReads n r).read.2

/-- Every read the drain makes consumes at least a header, and the drain ends. -/
def DrainsByHeaders (r : PacketReader) : Prop :=
  (∀ n, (r.afterReads n).canRead = true →
    (r.afterReads (n + 1)).size + headerSize ≤ (r.afterReads n).size) ∧
  ∃ fuel t, drain fuel r = some t

/-- The reads stand at boundaries of the bytes held at first. -/
theorem exists_boundary_afterReads (r : PacketReader) (n : ℕ) :
    ∃ k, packetFraming.Boundary r.held k ∧ (r.afterReads n).held = r.held.drop k := by
  induction n with
  | zero => exact ⟨0, .start, rfl⟩
  | succ n ih =>
      obtain ⟨k, hk, hheld⟩ := ih
      by_cases hread : (r.afterReads n).canRead = true
      · obtain ⟨packet, r', heq, _, hheld', _, _⟩ := read_of_canRead hread
        obtain ⟨hheader, hle⟩ := canRead_iff.mp hread
        rw [hheld] at hheader hle hheld'
        exact ⟨_, hk.next hheader hle, by rw [afterReads, heq, hheld', List.drop_drop]⟩
      · exact ⟨k, hk, by rw [afterReads, read_of_not_canRead (by simpa using hread), hheld]⟩

/-- Every boundary of the bytes held is reached by a read. -/
theorem exists_afterReads {r : PacketReader} {k : ℕ} (hk : packetFraming.Boundary r.held k) :
    ∃ n, (r.afterReads n).held = r.held.drop k := by
  induction hk with
  | start => exact ⟨0, rfl⟩
  | next _ hheader hle ih =>
      obtain ⟨n, hheld⟩ := ih
      have hread : (r.afterReads n).canRead = true := by
        rw [canRead_iff, hheld]
        exact ⟨hheader, hle⟩
      obtain ⟨packet, r', heq, _, hheld', _, _⟩ := read_of_canRead hread
      exact ⟨n + 1, by rw [afterReads, heq, hheld', hheld, List.drop_drop]⟩

/-- What one read consumes is the declared size. -/
theorem size_afterReads_succ {r : PacketReader} {n : ℕ} (hread : (r.afterReads n).canRead = true) :
    (r.afterReads (n + 1)).size + packetFraming.size (r.afterReads n).held =
      (r.afterReads n).size := by
  obtain ⟨packet, r', heq, _, _, hsize, _⟩ := read_of_canRead hread
  obtain ⟨_, hle⟩ := canRead_iff.mp hread
  rw [length_held] at hle
  rw [afterReads, heq, hsize]
  omega

/-- The drain proceeds by whole headers exactly when no packet it meets declares
less than its header. -/
theorem drainsByHeaders_iff (r : PacketReader) :
    r.DrainsByHeaders ↔ packetFraming.AllSizes (headerSize ≤ ·) r.held := by
  constructor
  · rintro ⟨hconsumes, _⟩ k hk hheader
    by_contra hsmall
    obtain ⟨n, hheld⟩ := exists_afterReads hk
    have hread : (r.afterReads n).canRead = true := by
      rw [canRead_iff, hheld]
      exact ⟨hheader, by
        have hheader' : headerSize ≤ (r.held.drop k).length := hheader
        omega⟩
    have hstep := size_afterReads_succ hread
    have hbound := hconsumes n hread
    rw [hheld] at hstep
    omega
  · intro hsized
    constructor
    · intro n hread
      obtain ⟨k, hk, hheld⟩ := exists_boundary_afterReads r n
      have hstep := size_afterReads_succ hread
      obtain ⟨hheader, _⟩ := canRead_iff.mp hread
      rw [hheld] at hstep hheader
      have hlarge : headerSize ≤ packetFraming.size (r.held.drop k) := hsized k hk hheader
      omega
    · exact ⟨_, exists_drain _ (hsized.mono fun n hn => by
        have hn' : headerSize ≤ n := hn
        unfold headerSize at hn'
        omega) (Nat.lt_succ_self _)⟩

/-- Three zero bytes: the packet they announce is complete and empty, and the
drain reads it for ever. -/
theorem not_drainsByHeaders_zeros :
    ¬ ((new zeros zeros).write [0, 0, 0]).DrainsByHeaders := by
  rintro ⟨_, fuel, t, ht⟩
  rw [drain_of_size_zero fuel (by decide) (by decide)] at ht
  cases ht

/-! ## The two allocations -/

/-- One byte at a time. -/
private def bytewise (bytes : List UInt8) : List (List UInt8) := bytes.map fun byte => [byte]

private theorem flatten_bytewise (bytes : List UInt8) : (bytewise bytes).flatten = bytes := by
  induction bytes with
  | nil => rfl
  | cons byte bytes ih => rw [bytewise, List.map_cons, List.flatten_cons, ← bytewise, ih]; rfl

private theorem length_of_mem_bytewise {bytes chunk : List UInt8} (h : chunk ∈ bytewise bytes) :
    chunk.length = 1 := by
  obtain ⟨byte, _, rfl⟩ := List.mem_map.mp h
  rfl

/-- The longest write at a boundary: bytes trickle in until one more than
`PACKET_LIMIT` of them are held behind it, and a full chunk follows. -/
private def overfill (stream : List UInt8) (k : ℕ) : List (List UInt8) :=
  bytewise (stream.take (k + (packetLimit + 1))) ++
    ((stream.drop (k + (packetLimit + 1))).take packetLimit) ::
      bytewise (stream.drop (k + (packetLimit + 1) + packetLimit))

private theorem flatten_overfill (stream : List UInt8) (k : ℕ) :
    (overfill stream k).flatten = stream := by
  have hdrop : stream.drop (k + (packetLimit + 1) + packetLimit) =
      (stream.drop (k + (packetLimit + 1))).drop packetLimit := List.drop_drop.symm
  rw [overfill, List.flatten_append, List.flatten_cons, flatten_bytewise, flatten_bytewise,
    hdrop, List.take_append_drop, List.take_append_drop]

private theorem length_of_mem_overfill {stream chunk : List UInt8} {k : ℕ}
    (h : chunk ∈ overfill stream k) : chunk.length ≤ packetLimit := by
  rw [overfill, List.mem_append, List.mem_cons] at h
  rcases h with h | rfl | h
  · rw [length_of_mem_bytewise h]
    decide
  · exact List.length_take_le _ _
  · rw [length_of_mem_bytewise h]
    decide

/-- Behind a boundary at which more than `PACKET_LIMIT + 1` bytes are declared, that
many are not enough for a packet. -/
private theorem rest_take {stream : List UInt8} {k : ℕ}
    (hk : packetFraming.Boundary stream k) (hsized : packetFraming.AllSizes (0 < ·) stream)
    (hlarge : packetLimit + 1 < packetFraming.size (stream.drop k)) :
    packetFraming.rest (stream.take (k + (packetLimit + 1))) =
      (stream.drop k).take (packetLimit + 1) := by
  have hboundary : packetFraming.Boundary (stream.take (k + (packetLimit + 1))) k :=
    hk.take (Nat.add_le_add_left (show headerSize ≤ packetLimit + 1 by decide) k)
  have hsized' : packetFraming.AllSizes (0 < ·) (stream.take (k + (packetLimit + 1))) := by
    rw [← List.take_append_drop (k + (packetLimit + 1)) stream] at hsized
    exact hsized.of_append
  obtain ⟨_, _, _, hrest⟩ := hboundary.frames_eq hsized'
  rw [hrest, List.drop_take, Nat.add_sub_cancel_left]
  apply Framing.rest_of_not_complete
  intro hcomplete
  have hlength := List.length_take_le (packetLimit + 1) (stream.drop k)
  -- the header is among the bytes taken, so they declare what the stream does
  have hdeclared := packetFraming.size_append _ ((stream.drop k).drop (packetLimit + 1))
    hcomplete.1
  rw [List.take_append_drop] at hdeclared
  have hle := hcomplete.2.2
  omega

/-- For a stream the drains of which end: every cut of it into chunks of at most
`PACKET_LIMIT` bytes stays inside the allocations exactly when the sizes it
declares fit. -/
theorem staysInside_iff {buffer data : Block UInt8} {stream : List UInt8}
    (hends : ∃ chunks fuel t, chunks.flatten = stream ∧
      (∀ chunk ∈ chunks, chunk.length ≤ packetLimit) ∧
      feed fuel (new buffer data) chunks = some t) :
    (∀ chunks fuel t, chunks.flatten = stream → (∀ chunk ∈ chunks, chunk.length ≤ packetLimit) →
      feed fuel (new buffer data) chunks = some t → t.StaysInside) ↔ SizesFit stream := by
  constructor
  · intro hinside k hk hheader
    obtain ⟨chunks, fuel, t, rfl, hchunks, ht⟩ := hends
    obtain ⟨hparses, hsized, _, _⟩ := feed_spec (by rw [held_new, Framing.rest_nil])
      (by rw [held_new]; exact allSizes_nil _) ht
    rw [held_new, List.nil_append] at hparses hsized
    have hpos := hsized k hk hheader
    constructor
    · intro hle
      obtain ⟨p, hp, hlength⟩ := hk.exists_mem_frames hsized ⟨hheader, hpos, hle⟩
      rw [← hlength]
      apply (hinside chunks fuel t rfl hchunks ht).2 p.length
      rw [hparses.copies]
      exact List.mem_map_of_mem hp
    · by_contra hlarge
      push Not at hlarge
      obtain ⟨hsize, hlong⟩ := hlarge
      rw [List.length_drop] at hlong
      obtain ⟨t', ht'⟩ := exists_feed (r := new buffer data) (chunks.flatten.length + 1)
        (overfill chunks.flatten k)
        (by rwa [held_new, List.nil_append, flatten_overfill])
        (by rw [held_new, List.nil_append, flatten_overfill]; exact Nat.lt_succ_self _)
      have hends' := (feed_spec (by rw [held_new, Framing.rest_nil])
        (by rw [held_new]; exact allSizes_nil _) ht').2.2.1
      -- that many bytes are held when the full chunk arrives
      have hfront := rest_take hk hsized hsize
      have hmem : 2 * packetLimit + 1 ∈ t'.ends := by
        rw [hends', held_new, ← Framing.rest_nil (F := packetFraming), mem_writeEnds]
        refine ⟨_, _, _, rfl, ?_⟩
        rw [List.nil_append, flatten_bytewise, hfront]
        simp only [List.length_take, List.length_drop]
        unfold packetLimit at *
        omega
      have hbound := (hinside _ _ t' (flatten_overfill chunks.flatten k)
        (fun chunk hchunk => length_of_mem_overfill hchunk) ht').1 _ hmem
      omega
  · rintro hfit chunks fuel t rfl hchunks ht
    exact Session.staysInside_of_sizesFit hfit hchunks ht

/-- Two packets, each cut inside its header. -/
theorem staysInside_iff_cut :
    (∀ chunks fuel t, chunks.flatten = [5, 0, 7, 1, 2, 3, 0, 9] →
        (∀ chunk ∈ chunks, chunk.length ≤ packetLimit) →
        feed fuel (new zeros zeros) chunks = some t → t.StaysInside) ↔
      SizesFit [5, 0, 7, 1, 2, 3, 0, 9] :=
  staysInside_iff ⟨[[5], [0, 7, 1], [2, 3, 0], [9]], 9, _, rfl, by decide, rfl⟩

/-- A packet that declares the largest size there is, in two chunks. -/
def twoChunks (n m : ℕ) : List (List UInt8) :=
  [[0xFF, 0xFF, 0] ++ List.replicate n 0, List.replicate m 0]

private theorem length_twoChunks (n m : ℕ) : (twoChunks n m).flatten.length = n + m + 3 := by
  simp [twoChunks]

private theorem size_twoChunks (n m : ℕ) : packetFraming.size (twoChunks n m).flatten = 65535 := by
  rw [twoChunks, List.flatten_cons, List.append_assoc, packetFraming.size_append _ _ (by decide)]
  decide

private theorem frames_twoChunks {n m : ℕ} (h : n + m + 3 = 65535) :
    packetFraming.frames (twoChunks n m).flatten = [(twoChunks n m).flatten] ∧
      packetFraming.AllSizes (0 < ·) (twoChunks n m).flatten := by
  have hlength : (twoChunks n m).flatten.length = 65535 := (length_twoChunks n m).trans h
  have hframe : ∀ p ∈ [(twoChunks n m).flatten], packetFraming.IsFrame p := fun p hp => by
    rw [List.mem_singleton.mp hp]
    exact ⟨by rw [hlength]; decide, by rw [size_twoChunks, hlength]⟩
  have hpositive : ∀ p ∈ [(twoChunks n m).flatten], 0 < p.length := fun p hp => by
    rw [List.mem_singleton.mp hp, hlength]
    decide
  constructor
  · simpa using (Framing.frames_unique hframe Framing.not_complete_nil).1
  · simpa using allSizes_of_frames hframe hpositive

/-- The reader copies all 65535 bytes of it into the `PACKET_LIMIT + 4` bytes of
`data_`. -/
theorem not_staysInside_twoChunks :
    (∀ chunk ∈ twoChunks (packetLimit - 3) (packetLimit - 1), chunk.length ≤ packetLimit) ∧
      ¬ ∀ fuel t, feed fuel (new zeros zeros) (twoChunks (packetLimit - 3) (packetLimit - 1)) =
        some t → t.StaysInside := by
  constructor
  · intro chunk hchunk
    rw [twoChunks, List.mem_pair] at hchunk
    rcases hchunk with rfl | rfl
    · rw [List.length_append, List.length_replicate]
      decide
    · rw [List.length_replicate]
      decide
  · intro hinside
    obtain ⟨hframes, hsized⟩ := frames_twoChunks (n := packetLimit - 3) (m := packetLimit - 1) rfl
    obtain ⟨t, ht⟩ := exists_feed (r := new zeros zeros) _ _
      (by rwa [held_new, List.nil_append]) (Nat.lt_succ_self _)
    have hcopies := (feed_spec (by rw [held_new, Framing.rest_nil])
      (by rw [held_new]; exact allSizes_nil _) ht).1.copies
    rw [held_new, List.nil_append, hframes] at hcopies
    have hbound := (hinside _ t ht).2 _ (by rw [hcopies]; exact List.mem_cons_self)
    rw [length_twoChunks] at hbound
    exact absurd hbound (by decide)

end RyuLib.PacketReader
