import RyuLib.Socket.Packet

/-!
# PacketReader

`write` appends a chunk of the stream at `buffer_ + size_`; `read` copies the
packet at the front of `buffer_` to `data_` and moves the remaining bytes down.
The C++ buffers are two fixed allocations of `2 * PACKET_LIMIT` and
`PACKET_LIMIT + 4` bytes that no call checks against; here every copy is carried
out and its extent recorded in the `Session`, so that staying inside the
allocations is a statement about sessions.

The bytes held are `held r`; with respect to them a drain computes the
`frames` and the `rest` of the packet format (`drain_spec`), and so does a
whole session (`feed_spec`), however the stream was cut.
-/

namespace RyuLib

open Foundations

/-- The constructor's allocations succeed, so `buffer_` is never null.  `memcpy`
within `buffer_` is an overlap-safe copy. -/
structure PacketReader where
  buffer : Block UInt8
  data : Block UInt8
  size : ℕ

namespace PacketReader

/-- A new reader: the allocated memory may hold anything. -/
def new (buffer data : Block UInt8) : PacketReader := ⟨buffer, data, 0⟩

def clear (r : PacketReader) : PacketReader := { r with size := 0 }

def write (r : PacketReader) (chunk : List UInt8) : PacketReader :=
  if chunk.length = 0 then r
  else { r with buffer := r.buffer.store r.size chunk, size := r.size + chunk.length }

def canRead (r : PacketReader) : Bool :=
  -- the declared size is not checked from below: one that is less than a header passes
  if r.size < headerSize then false else decide (Packet.packetSize r.buffer ≤ r.size)

/-- `read` returns a pointer to `data_`: the packet is what `data_` holds then. -/
def read (r : PacketReader) : Option Packet × PacketReader :=
  if r.canRead = false then (none, r)
  else
    let packetSize := Packet.packetSize r.buffer
    let data := r.data.store 0 (r.buffer.load 0 packetSize)
    let size := r.size - packetSize
    let buffer := if 0 < size then r.buffer.store 0 (r.buffer.load packetSize size) else r.buffer
    (some data, ⟨buffer, data, size⟩)

/-- What a sequence of calls returned and copied: the packets read, the lengths
of the copies into `data_`, the offsets in `buffer_` at which the writes ended,
and the values `size_` took. -/
structure Session where
  packets : List Packet
  copies : List ℕ
  ends : List ℕ
  sizes : List ℕ
  reader : PacketReader

/-- `while ((p = reader.read()) != nullptr)`, given up after `fuel` reads. -/
def drain : ℕ → PacketReader → Option Session
  | 0, _ => none
  | fuel + 1, r =>
      match r.read with
      | (none, r') => some ⟨[], [], [], [], r'⟩
      | (some packet, r') =>
          (drain fuel r').map fun t =>
            { t with
              packets := packet :: t.packets
              copies := Packet.packetSize r.buffer :: t.copies
              sizes := r'.size :: t.sizes }

/-- Each chunk is written and the reader drained after it. -/
def feed (fuel : ℕ) : PacketReader → List (List UInt8) → Option Session
  | r, [] => some ⟨[], [], [], [], r⟩
  | r, chunk :: chunks =>
      (drain fuel (r.write chunk)).bind fun t =>
        (feed fuel t.reader chunks).map fun u =>
          { packets := t.packets ++ u.packets
            copies := t.copies ++ u.copies
            ends := (r.write chunk).size :: (t.ends ++ u.ends)
            sizes := (r.write chunk).size :: (t.sizes ++ u.sizes)
            reader := u.reader }

/-- The bytes written and not yet read. -/
def held (r : PacketReader) : List UInt8 := r.buffer.load 0 r.size

@[simp] theorem length_held (r : PacketReader) : r.held.length = r.size :=
  Block.length_load _ _ _

@[simp] theorem held_new (buffer data : Block UInt8) : (new buffer data).held = [] := rfl

/-! ## One call -/

theorem held_write (r : PacketReader) (chunk : List UInt8) :
    (r.write chunk).held = r.held ++ chunk := by
  unfold write held
  split
  · have hnil : chunk = [] := List.eq_nil_of_length_eq_zero ‹_›
    simp [hnil]
  · have happend := Block.load_store_append r.buffer 0 r.size chunk
    rwa [Nat.zero_add] at happend

theorem size_write (r : PacketReader) (chunk : List UInt8) :
    (r.write chunk).size = r.size + chunk.length := by
  rw [← length_held, held_write, List.length_append, length_held]

/-- The declared size of the packet at the front is read off the bytes held. -/
theorem size_held {r : PacketReader} (h : headerSize ≤ r.size) :
    packetFraming.size r.held = Packet.packetSize r.buffer :=
  Packet.shortAt_load r.buffer (by unfold headerSize at h; omega)

theorem canRead_iff {r : PacketReader} :
    r.canRead = true ↔
      packetFraming.header ≤ r.held.length ∧ packetFraming.size r.held ≤ r.held.length := by
  rw [length_held]
  unfold canRead
  constructor
  · intro h
    split at h
    · cases h
    · rename_i hheader
      rw [size_held (by omega)]
      exact ⟨Nat.le_of_not_lt hheader, by simpa using h⟩
  · rintro ⟨hheader, hsize⟩
    have hheader' : headerSize ≤ r.size := hheader
    rw [size_held hheader'] at hsize
    rw [if_neg (by omega)]
    simpa using hsize

theorem read_of_not_canRead {r : PacketReader} (h : r.canRead = false) : r.read = (none, r) := by
  rw [read, if_pos h]

/-- A read takes the declared number of bytes off the front of the bytes held
and shows them at `data_`. -/
theorem read_of_canRead {r : PacketReader} (h : r.canRead = true) :
    ∃ packet r', r.read = (some packet, r') ∧
      packet.load 0 (packetFraming.size r.held) = r.held.take (packetFraming.size r.held) ∧
      r'.held = r.held.drop (packetFraming.size r.held) ∧
      r'.size = r.size - packetFraming.size r.held ∧
      Packet.packetSize r.buffer = packetFraming.size r.held := by
  obtain ⟨hheader, hle⟩ := canRead_iff.mp h
  rw [length_held] at hheader hle
  have hsize := size_held hheader
  rw [read, if_neg (by rw [h]; simp)]
  refine ⟨_, _, rfl, ?_, ?_, by rw [hsize], hsize.symm⟩
  · rw [hsize] at hle ⊢
    have hself := Block.load_store_self r.data 0 (r.buffer.load 0 (Packet.packetSize r.buffer))
    rw [Block.length_load] at hself
    rw [hself, held, Block.take_load, Nat.min_eq_left hle]
  · rw [hsize] at hle ⊢
    rw [held, held, Block.drop_load, Nat.zero_add]
    simp only
    split
    · have hself := Block.load_store_self r.buffer 0
        (r.buffer.load (Packet.packetSize r.buffer) (r.size - Packet.packetSize r.buffer))
      rwa [Block.length_load] at hself
    · have hzero : r.size - Packet.packetSize r.buffer = 0 := by omega
      rw [hzero]
      rfl

/-! ## Draining -/

/-- The session read the complete packets of `bytes` and left the reader with the
rest. -/
structure Session.Parses (t : Session) (bytes : List UInt8) : Prop where
  packets : List.Forall₂ (fun (packet : Packet) frame => packet.load 0 frame.length = frame)
    t.packets (packetFraming.frames bytes)
  copies : t.copies = (packetFraming.frames bytes).map List.length
  held : t.reader.held = packetFraming.rest bytes

/-- An empty packet at the front is read over and over. -/
theorem drain_of_size_zero (fuel : ℕ) {r : PacketReader} (hread : r.canRead = true)
    (hzero : packetFraming.size r.held = 0) : drain fuel r = none := by
  induction fuel generalizing r with
  | zero => rfl
  | succ fuel ih =>
      obtain ⟨packet, r', heq, _, hheld, _, _⟩ := read_of_canRead hread
      rw [hzero, List.drop_zero] at hheld
      have hread' : r'.canRead = true := by
        rw [canRead_iff, hheld]
        exact canRead_iff.mp hread
      rw [drain, heq]
      simp only
      rw [ih hread' (by rw [hheld]; exact hzero), Option.map_none]

/-- Reading the packet at the front leaves a shorter drain. -/
theorem drain_succ_of_canRead {fuel : ℕ} {r : PacketReader} {t : Session}
    (hread : r.canRead = true) (h : drain (fuel + 1) r = some t) :
    ∃ packet r' t', packetFraming.Complete r.held ∧
      packet.load 0 (packetFraming.size r.held) = r.held.take (packetFraming.size r.held) ∧
      r'.held = r.held.drop (packetFraming.size r.held) ∧
      drain fuel r' = some t' ∧
      t = { t' with
        packets := packet :: t'.packets
        copies := packetFraming.size r.held :: t'.copies
        sizes := r'.size :: t'.sizes } := by
  obtain ⟨hheader, hle⟩ := canRead_iff.mp hread
  have hpos : 0 < packetFraming.size r.held := by
    rcases Nat.eq_zero_or_pos (packetFraming.size r.held) with hzero | hpos
    · rw [drain_of_size_zero (fuel + 1) hread hzero] at h
      cases h
    · exact hpos
  obtain ⟨packet, r', heq, hload, hheld, _, hsize⟩ := read_of_canRead hread
  rw [drain, heq] at h
  simp only [Option.map_eq_some_iff] at h
  obtain ⟨t', ht', rfl⟩ := h
  exact ⟨packet, r', t', ⟨hheader, hpos, hle⟩, hload, hheld, ht', by rw [hsize]⟩

theorem drain_succ_of_not_canRead {fuel : ℕ} {r : PacketReader} {t : Session}
    (hread : ¬ r.canRead = true) (h : drain (fuel + 1) r = some t) :
    t = ⟨[], [], [], [], r⟩ := by
  rw [drain, read_of_not_canRead (by simpa using hread)] at h
  cases h
  rfl

theorem not_complete_of_not_canRead {r : PacketReader} (hread : ¬ r.canRead = true) :
    ¬ packetFraming.Complete r.held :=
  fun hcomplete => hread (canRead_iff.mpr ⟨hcomplete.1, hcomplete.2.2⟩)

/-- A drain that ends has parsed the bytes held, at which no packet was empty. -/
theorem drain_spec {fuel : ℕ} {r : PacketReader} {t : Session} (h : drain fuel r = some t) :
    t.Parses r.held ∧ packetFraming.AllSizes (0 < ·) r.held ∧ t.ends = [] ∧
      ∀ size ∈ t.sizes, size ≤ r.size := by
  induction fuel generalizing r t with
  | zero => cases h
  | succ fuel ih =>
      by_cases hread : r.canRead = true
      · obtain ⟨packet, r', t', hcomplete, hload, hheld, ht', rfl⟩ :=
          drain_succ_of_canRead hread h
        obtain ⟨hparses, hsized, hends, hsizes⟩ := ih ht'
        rw [hheld] at hparses hsized
        have hlength : (r.held.take (packetFraming.size r.held)).length =
            packetFraming.size r.held := List.length_take_of_le hcomplete.2.2
        have hshorter : r'.size ≤ r.size := by
          rw [← length_held, ← length_held, hheld, List.length_drop]
          omega
        refine ⟨⟨?_, ?_, ?_⟩, ?_, hends, ?_⟩
        · rw [Framing.frames_of_complete hcomplete]
          exact .cons (by rw [hlength]; exact hload) hparses.packets
        · rw [Framing.frames_of_complete hcomplete, List.map_cons, hlength, hparses.copies]
        · rw [Framing.rest_of_complete hcomplete, hparses.held]
        · exact .of_head (fun _ => hcomplete.2.1) fun _ _ => hsized
        · intro size hsize
          rcases List.mem_cons.mp hsize with rfl | hsize
          · exact hshorter
          · exact (hsizes size hsize).trans hshorter
      · rw [drain_succ_of_not_canRead hread h]
        have hincomplete := not_complete_of_not_canRead hread
        refine ⟨⟨?_, ?_, ?_⟩, ?_, rfl, by simp⟩
        · rw [Framing.frames_of_not_complete hincomplete]
          exact .nil
        · rw [Framing.frames_of_not_complete hincomplete]
          rfl
        · rw [Framing.rest_of_not_complete hincomplete]
        · refine .of_head ?_ ?_
          · intro hheader
            by_contra hzero
            exact hread (canRead_iff.mpr ⟨hheader, by omega⟩)
          · intro hheader hle
            exact absurd (canRead_iff.mpr ⟨hheader, hle⟩) hread

/-- A drain ends when no packet it meets is empty. -/
theorem exists_drain (fuel : ℕ) {r : PacketReader}
    (hsized : packetFraming.AllSizes (0 < ·) r.held) (hfuel : r.held.length < fuel) :
    ∃ t, drain fuel r = some t := by
  induction fuel generalizing r with
  | zero => exact absurd hfuel (Nat.not_lt_zero _)
  | succ fuel ih =>
      by_cases hread : r.canRead = true
      · obtain ⟨hheader, hle⟩ := canRead_iff.mp hread
        obtain ⟨packet, r', heq, _, hheld, _, _⟩ := read_of_canRead hread
        have hpos : 0 < packetFraming.size r.held := by
          simpa using hsized 0 .start hheader
        obtain ⟨t, ht⟩ := ih (r := r')
          (by rw [hheld]; exact hsized.drop (.of_complete ⟨hheader, hpos, hle⟩))
          (by rw [hheld, List.length_drop]; omega)
        exact ⟨_, by rw [drain, heq]; simp only; rw [ht, Option.map_some]⟩
      · exact ⟨_, by rw [drain, read_of_not_canRead (by simpa using hread)]⟩

/-! ## A whole session -/

/-- The offsets at which the writes of `chunks` end, for a reader that keeps the
incomplete packet between them. -/
def writeEnds : List UInt8 → List (List UInt8) → List ℕ
  | _, [] => []
  | bytes, chunk :: chunks =>
      (bytes ++ chunk).length :: writeEnds (packetFraming.rest (bytes ++ chunk)) chunks

/-- Where one write ends: behind what the packets before it left over. -/
theorem mem_writeEnds {bytes : List UInt8} {chunks : List (List UInt8)} {n : ℕ} :
    n ∈ writeEnds (packetFraming.rest bytes) chunks ↔
      ∃ first chunk second, chunks = first ++ chunk :: second ∧
        n = (packetFraming.rest (bytes ++ first.flatten)).length + chunk.length := by
  induction chunks generalizing bytes with
  | nil => simp [writeEnds]
  | cons chunk chunks ih =>
      rw [writeEnds, ← Framing.rest_append, List.mem_cons, ih, List.length_append]
      constructor
      · rintro (rfl | ⟨first, chunk', second, rfl, rfl⟩)
        · exact ⟨[], chunk, chunks, rfl, by simp⟩
        · exact ⟨chunk :: first, chunk', second, rfl, by simp⟩
      · rintro ⟨first, chunk', second, hsplit, rfl⟩
        cases first with
        | nil =>
            rw [List.nil_append, List.cons.injEq] at hsplit
            exact Or.inl (by simp [hsplit.1])
        | cons head first =>
            rw [List.cons_append, List.cons.injEq] at hsplit
            obtain ⟨rfl, rfl⟩ := hsplit
            exact Or.inr ⟨first, chunk', second, rfl, by simp⟩

/-- A session parses the stream, whatever chunks it arrives in. -/
theorem feed_spec {fuel : ℕ} {r : PacketReader} {chunks : List (List UInt8)} {t : Session}
    (hrest : packetFraming.rest r.held = r.held) (hsized : packetFraming.AllSizes (0 < ·) r.held)
    (h : feed fuel r chunks = some t) :
    t.Parses (r.held ++ chunks.flatten) ∧
      packetFraming.AllSizes (0 < ·) (r.held ++ chunks.flatten) ∧
      t.ends = writeEnds r.held chunks ∧
      ∀ size ∈ t.sizes, ∃ n ∈ t.ends, size ≤ n := by
  induction chunks generalizing r t with
  | nil =>
      cases h
      rw [List.flatten_nil, List.append_nil]
      refine ⟨⟨?_, ?_, hrest.symm⟩, hsized, rfl, by simp⟩
      all_goals rw [← hrest, Framing.frames_of_not_complete (Framing.not_complete_rest _)]
      · exact .nil
      · rfl
  | cons chunk chunks ih =>
      simp only [feed, Option.bind_eq_some_iff, Option.map_eq_some_iff] at h
      obtain ⟨t, ht, u, hu, rfl⟩ := h
      obtain ⟨hparses, hsized', hends, hsizes⟩ := drain_spec ht
      rw [held_write] at hparses hsized'
      have hheld := hparses.held
      have hsplit : r.held ++ (chunk :: chunks).flatten = (r.held ++ chunk) ++ chunks.flatten := by
        simp
      obtain ⟨hparses', hsized'', hends', hsizes'⟩ := ih
        (by rw [hheld, Framing.rest_of_not_complete (Framing.not_complete_rest _)])
        (by
          rw [hheld, ← Framing.drop_length_flatten_frames]
          exact hsized'.drop (Framing.boundary_flatten_frames _)) hu
      rw [hheld] at hparses' hsized'' hends'
      rw [hsplit]
      refine ⟨⟨?_, ?_, ?_⟩, hsized'.of_rest hsized'', ?_, ?_⟩
      · rw [Framing.frames_append]
        exact List.rel_append hparses.packets hparses'.packets
      · rw [Framing.frames_append, List.map_append, hparses.copies, hparses'.copies]
      · rw [Framing.rest_append, hparses'.held]
      · rw [hends, List.nil_append, hends', writeEnds, size_write, List.length_append, length_held]
      · intro size hsize
        simp only [List.mem_cons, List.mem_append] at hsize ⊢
        rcases hsize with rfl | hsize | hsize
        · exact ⟨_, Or.inl rfl, le_rfl⟩
        · exact ⟨_, Or.inl rfl, hsizes size hsize⟩
        · obtain ⟨n, hn, hle⟩ := hsizes' size hsize
          exact ⟨n, Or.inr (Or.inr hn), hle⟩

/-- A session comes to its end when no packet of the stream is empty. -/
theorem exists_feed (fuel : ℕ) {r : PacketReader} (chunks : List (List UInt8))
    (hsized : packetFraming.AllSizes (0 < ·) (r.held ++ chunks.flatten))
    (hfuel : (r.held ++ chunks.flatten).length < fuel) : ∃ t, feed fuel r chunks = some t := by
  induction chunks generalizing r with
  | nil => exact ⟨_, rfl⟩
  | cons chunk chunks ih =>
      have hsplit : r.held ++ (chunk :: chunks).flatten =
          (r.write chunk).held ++ chunks.flatten := by
        simp [held_write]
      rw [hsplit] at hsized hfuel
      have hfront : packetFraming.AllSizes (0 < ·) (r.write chunk).held := hsized.of_append
      obtain ⟨t, ht⟩ := exists_drain fuel hfront (by
        rw [List.length_append] at hfuel
        omega)
      have hheld := (drain_spec ht).1.held
      have hlength := Framing.length_flatten_frames (F := packetFraming) (r.write chunk).held
      obtain ⟨u, hu⟩ := ih (r := t.reader)
        (by
          have hdrop := hsized.drop ((Framing.boundary_flatten_frames _).append chunks.flatten)
          rwa [List.drop_append_of_le_length (by omega), Framing.drop_length_flatten_frames,
            ← hheld] at hdrop)
        (by
          rw [hheld]
          rw [List.length_append] at hfuel ⊢
          omega)
      exact ⟨_, by rw [feed, ht, Option.bind_some, hu, Option.map_some]⟩

end PacketReader

end RyuLib
