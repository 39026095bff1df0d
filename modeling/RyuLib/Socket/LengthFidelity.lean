import RyuLib.Socket.SocketServer
import RyuLib.Socket.SocketClient

/-!
# The length of a packet

`create_packet` computes the size of a packet in `size_t` and stores sixteen bits of it.
How many bytes `send` writes, how many the peer waits for and how many `getText` copies
all come from those.  They count the whole payload exactly when payload and header fit
(`length_fidelity_iff`).
-/

namespace RyuLib

open Foundations

/-! ## Created packets -/

/-- The packet counts all of the payload: its bytes are a header and the payload, and a
text comes back from it. -/
structure Packet.Carries (p : Packet) (payload : List UInt8) : Prop where
  packetSize : packetSize p = payload.length + headerSize
  image : ∃ header, header.length = headerSize ∧ image p = header ++ payload
  getDataSize : getDataSize p = payload.length
  getText : (∀ b ∈ payload, b ≠ 0) → (getText p).map cString = some payload

namespace Packet

@[simp] theorem length_image (p : Packet) : (image p).length = packetSize p :=
  Block.length_load ..

/-- A text ends at the first of the zero bytes behind it. -/
theorem cString_append {text : List UInt8} (htext : ∀ b ∈ text, b ≠ 0) (more : List UInt8) :
    cString (text ++ 0 :: more) = text := by
  unfold cString
  rw [List.takeWhile_append_of_pos (by simpa using htext)]
  simp

/-- `getText` leaves as many zero bytes behind the data as the header is long. -/
theorem getText_eq {p : Packet} (hsize : headerSize ≤ packetSize p) :
    getText p = some (getData p ++ [0, 0, 0]) := by
  -- `malloc` and `memset` take `packet_size`, `memcpy` three bytes less
  have hdata : (getData p).length + headerSize = packetSize p := by
    rw [getData, Block.length_load, getDataSize]
    unfold headerSize at hsize ⊢
    omega
  have hzero : ∀ n, Block.ofList (0 : UInt8) (List.replicate n 0) = fun _ => 0 := by
    intro n
    funext i
    by_cases hi : i < n <;> simp [Block.ofList, hi]
  have hnonneg : ¬ getDataSize p < 0 := by
    rw [getDataSize]
    unfold headerSize at hsize
    omega
  simp only [getText, if_neg hnonneg, hzero]
  rw [← hdata, Block.load_add, Block.load_store_self, Block.load_store_after _ _ le_rfl]
  rfl

/-- No image is longer than the size field can say. -/
theorem lt_of_image {p : Packet} {payload header : List UInt8}
    (hheader : header.length = headerSize) (himage : image p = header ++ payload) :
    payload.length + headerSize < 2 ^ 16 := by
  have hlength := congrArg List.length himage
  rw [length_image, List.length_append, hheader] at hlength
  rw [Nat.add_comm, ← hlength]
  exact packetSize_lt p

theorem carries_of_load {p : Packet} {packetType : UInt8} {payload : List UInt8}
    (hload : p.load 0 (payload.length + headerSize) = packetBytes packetType payload)
    (hfit : payload.length + headerSize < 2 ^ 16) : Carries p payload := by
  obtain ⟨hdataSize, hdata, himage⟩ := getData_of_load hload hfit
  have hsize : packetSize p = payload.length + headerSize := by
    rw [packetSize_of_load hload, Nat.mod_eq_of_lt hfit]
  refine ⟨hsize, ⟨_, rfl, himage.trans (packetBytes_eq packetType payload)⟩, hdataSize, ?_⟩
  intro htext
  rw [getText_eq (hsize ▸ Nat.le_add_left _ _), hdata]
  exact congrArg some (cString_append htext [0, 0])

end Packet

theorem createPacket_eq_none {malloc : ℕ → Option (Block UInt8)} {packetType : UInt8}
    {data : Block UInt8} {size : ℤ} :
    createPacket malloc packetType data size = none ↔
      malloc (sizeT (size + sizeofPacket - 1)) = none := by
  unfold createPacket
  cases malloc (sizeT (size + sizeofPacket - 1)) <;> simp

theorem createTextPacket_eq_none {malloc : ℕ → Option (Block UInt8)} {packetType : UInt8}
    {text : List UInt8} :
    createTextPacket malloc packetType text = none ↔
      malloc (sizeT (text.length + sizeofPacket - 1)) = none := by
  unfold createTextPacket
  cases malloc (sizeT (text.length + sizeofPacket - 1)) <;> simp

/-- What is created carries the payload exactly when there is no memory for it or it fits. -/
theorem carries_iff {created : Option Packet} {packetType : UInt8} {payload : List UInt8}
    (hload : ∀ p, created = some p →
      p.load 0 (payload.length + headerSize) = packetBytes packetType payload) :
    (∀ p, created = some p → p.Carries payload) ↔
      created = none ∨ payload.length + headerSize < 2 ^ 16 := by
  constructor
  · intro hcarries
    cases created with
    | none => exact Or.inl rfl
    | some p =>
        obtain ⟨header, hheader, himage⟩ := (hcarries p rfl).image
        exact Or.inr (Packet.lt_of_image hheader himage)
  · rintro (rfl | hfit) p hp
    · cases hp
    · exact Packet.carries_of_load (hload p hp) hfit

/-! ## Sends -/

/-- From `k` to `k'` the write of a header with the whole payload behind it was started. -/
def Transmits {κ ν : Type} (k k' : StreamSocket κ ν UInt8) (payload : List UInt8) : Prop :=
  ∃ header, header.length = headerSize ∧ k'.queued = k.queued ++ [header ++ payload]

theorem transmits_iff {κ ν : Type} {k k' : StreamSocket κ ν UInt8} {p : Packet}
    (hqueued : k'.queued = k.queued ++ [p.image]) (payload : List UInt8) :
    Transmits k k' payload ↔
      ∃ header, header.length = headerSize ∧ p.image = header ++ payload := by
  simp only [Transmits, hqueued, List.append_cancel_left_eq, List.cons.injEq, and_true]

/-- A send of a created packet transmits the payload exactly when it fits. -/
theorem transmits_created_iff {κ ν : Type} {k k' : StreamSocket κ ν UInt8} {p : Packet}
    (hqueued : k'.queued = k.queued ++ [p.image]) (packetType : UInt8) (payload : List UInt8)
    (hload : payload.length + headerSize < 2 ^ 16 →
      p.load 0 (payload.length + headerSize) = packetBytes packetType payload) :
    Transmits k k' payload ↔ payload.length + headerSize < 2 ^ 16 := by
  rw [transmits_iff hqueued]
  constructor
  · rintro ⟨header, hheader, himage⟩
    exact Packet.lt_of_image hheader himage
  · intro hfit
    exact (Packet.carries_of_load (hload hfit) hfit).image

/-- `text.size()` converted to `int` is the length, if that fits. -/
theorem toInt_of_fit {n : ℕ} (hfit : n + headerSize < 2 ^ 16) : toInt n = n := by
  unfold headerSize at hfit
  exact toInt_of_lt (by omega) (by omega)

/-- What is created from the text converted to a pointer and an `int`. -/
theorem createPacket_text_load {malloc : ℕ → Option (Block UInt8)} {packetType : UInt8}
    {text : List UInt8} {p : Packet}
    (hcreate : createPacket malloc packetType (Block.ofList 0 text) (toInt text.length) = some p)
    (hfit : text.length + headerSize < 2 ^ 16) :
    p.load 0 (text.length + headerSize) = packetBytes packetType text := by
  rw [toInt_of_fit hfit] at hcreate
  rw [createPacket_load hcreate, Block.load_ofList]

namespace SocketServer

/-- What a send of a new packet adds to the writes of the connection. -/
theorem queued_sendData (s : SocketServer) (c : ConnectionPtr) (block : ℕ) (packetType : ℤ)
    (data : Block UInt8) (size : ℤ) :
    ∃ p, createPacket (fun _ => some (s.memory (.heap block))) (UInt8.ofInt packetType) data size =
        some p ∧
      ((s.sendData c block packetType data size).connections c).socket.queued =
        (s.connections c).socket.queued ++ [p.image] := by
  cases hcreate : createPacket (fun _ => some (s.memory (.heap block))) (UInt8.ofInt packetType)
      data size with
  | none => exact nomatch createPacket_eq_none.mp hcreate
  | some p =>
      refine ⟨p, rfl, ?_⟩
      simp [sendData, hcreate, send, doSend, setSocket, modify, rewrite, StreamSocket.asyncWrite,
        Packet.image]

theorem transmits_sendData_iff (s : SocketServer) (c : ConnectionPtr) (block : ℕ) (packetType : ℤ)
    (data : Block UInt8) (n : ℕ) :
    Transmits (s.connections c).socket ((s.sendData c block packetType data n).connections c).socket
      (data.load 0 n) ↔ n + headerSize < 2 ^ 16 := by
  obtain ⟨p, hcreate, hqueued⟩ := s.queued_sendData c block packetType data n
  have hload := createPacket_load hcreate
  have htransmits := transmits_created_iff hqueued (UInt8.ofInt packetType) (data.load 0 n)
    fun _ => by rw [Block.length_load, hload]
  rwa [Block.length_load] at htransmits

theorem transmits_sendText_iff (s : SocketServer) (c : ConnectionPtr) (block : ℕ)
    (packetType : UInt8) (text : List UInt8) :
    Transmits (s.connections c).socket ((s.sendText c block packetType text).connections c).socket
      text ↔ text.length + headerSize < 2 ^ 16 := by
  obtain ⟨p, hcreate, hqueued⟩ := s.queued_sendData c block packetType.toNat (Block.ofList 0 text)
    (toInt text.length)
  exact transmits_created_iff hqueued _ _ fun hfit => createPacket_text_load hcreate hfit

end SocketServer

namespace SocketClient

theorem queued_sendData {s : SocketClient} {k : StreamSocket ReadHandler ClientAddress UInt8}
    (hk : s.socket = some k) (block : ℕ) (packetType : ℤ) (data : Block UInt8) (size : ℤ) :
    ∃ p k', createPacket (fun _ => some (s.memory (.heap block))) (UInt8.ofInt packetType) data
        size = some p ∧
      (s.sendData block packetType data size).socket = some k' ∧
        k'.queued = k.queued ++ [p.image] := by
  cases hcreate : createPacket (fun _ => some (s.memory (.heap block))) (UInt8.ofInt packetType)
      data size with
  | none => exact nomatch createPacket_eq_none.mp hcreate
  | some p =>
      refine ⟨p, k.asyncWrite (s.rewrite (.heap block) p).memory (.heap block)
        (Packet.packetSize p), rfl, ?_, ?_⟩
      · simp [sendData, hcreate, send, doSend, modify, rewrite, hk]
      · simp [StreamSocket.asyncWrite, rewrite, Packet.image]

theorem transmits_sendData_iff {s : SocketClient} {k : StreamSocket ReadHandler ClientAddress UInt8}
    (hk : s.socket = some k) (block : ℕ) (packetType : ℤ) (data : Block UInt8) (n : ℕ) :
    (∃ k', (s.sendData block packetType data n).socket = some k' ∧ Transmits k k' (data.load 0 n)) ↔
      n + headerSize < 2 ^ 16 := by
  obtain ⟨p, k', hcreate, hk', hqueued⟩ := queued_sendData hk block packetType data n
  have hload := createPacket_load hcreate
  have htransmits := transmits_created_iff hqueued (UInt8.ofInt packetType) (data.load 0 n)
    fun _ => by rw [Block.length_load, hload]
  rw [Block.length_load] at htransmits
  simpa [hk'] using htransmits

theorem transmits_sendText_iff {s : SocketClient} {k : StreamSocket ReadHandler ClientAddress UInt8}
    (hk : s.socket = some k) (block : ℕ) (packetType : UInt8) (text : List UInt8) :
    (∃ k', (s.sendText block packetType text).socket = some k' ∧ Transmits k k' text) ↔
      text.length + headerSize < 2 ^ 16 := by
  obtain ⟨p, k', hcreate, hk', hqueued⟩ := queued_sendData hk block packetType.toNat
    (Block.ofList 0 text) (toInt text.length)
  have htransmits := transmits_created_iff hqueued _ _ fun hfit =>
    createPacket_text_load hcreate hfit
  simpa [sendText, hk'] using htransmits

end SocketClient

/-! ## Fidelity -/

/-- Both overloads of `create_packet`, and both sends of new packets of a connection and
of a client, keep the length of the payload exactly when it fits the size field with the
header; `create_packet` also when there is no memory. -/
theorem length_fidelity_iff (malloc : ℕ → Option (Block UInt8)) (data : Block UInt8) (n : ℕ)
    (text : List UInt8) (packetType : UInt8) (intType : ℤ) (block : ℕ) (s : SocketServer)
    (c : ConnectionPtr) (client : SocketClient) {k : StreamSocket ReadHandler ClientAddress UInt8}
    (hk : client.socket = some k) :
    ((∀ p, createPacket malloc packetType data n = some p → p.Carries (data.load 0 n)) ↔
        malloc (sizeT (n + sizeofPacket - 1)) = none ∨ n + headerSize < 2 ^ 16) ∧
      ((∀ p, createTextPacket malloc packetType text = some p → p.Carries text) ↔
        malloc (sizeT (text.length + sizeofPacket - 1)) = none ∨
          text.length + headerSize < 2 ^ 16) ∧
      (Transmits (s.connections c).socket ((s.sendData c block intType data n).connections c).socket
        (data.load 0 n) ↔ n + headerSize < 2 ^ 16) ∧
      (Transmits (s.connections c).socket
        ((s.sendText c block packetType text).connections c).socket text ↔
          text.length + headerSize < 2 ^ 16) ∧
      ((∃ k', (client.sendData block intType data n).socket = some k' ∧
        Transmits k k' (data.load 0 n)) ↔ n + headerSize < 2 ^ 16) ∧
      ((∃ k', (client.sendText block packetType text).socket = some k' ∧ Transmits k k' text) ↔
        text.length + headerSize < 2 ^ 16) := by
  refine ⟨?_, ?_, s.transmits_sendData_iff c block intType data n,
    s.transmits_sendText_iff c block packetType text,
    SocketClient.transmits_sendData_iff hk block intType data n,
    SocketClient.transmits_sendText_iff hk block packetType text⟩
  · have hload : ∀ p, createPacket malloc packetType data n = some p →
        p.load 0 ((data.load 0 n).length + headerSize) =
          packetBytes packetType (data.load 0 n) := by
      intro p hp
      rw [Block.length_load]
      exact createPacket_load hp
    have hcarries := carries_iff hload
    rwa [createPacket_eq_none, Block.length_load] at hcarries
  · have hload : ∀ p, createTextPacket malloc packetType text = some p →
        p.load 0 (text.length + headerSize) = packetBytes packetType text :=
      fun p hp => createTextPacket_load hp
    have hcarries := carries_iff hload
    rwa [createTextPacket_eq_none] at hcarries

/-- One byte, created as a packet and sent by a client with a new socket. -/
theorem length_fidelity_iff_short :
    (∀ p, createTextPacket (fun _ => some fun _ => 0) 1 [65] = some p → p.Carries [65]) ∧
      ∃ k', (SocketClient.sendText { memory := fun _ _ => 0, socket := some {} } 0 1 [65]).socket =
        some k' ∧ Transmits {} k' [65] := by
  obtain ⟨_, htext, _, _, _, hsend⟩ := length_fidelity_iff (fun _ => some fun _ => 0)
    (fun _ => 0) 0 [65] 1 1 0 { memory := fun _ _ => 0 } 0
    { memory := fun _ _ => 0, socket := some {} } rfl
  exact ⟨htext.mpr (Or.inr (by decide)), hsend.mpr (by decide)⟩

/-- With 65533 bytes of data the size wraps to `0`, and nothing is sent. -/
theorem not_carries_wrapped :
    ∃ p, createPacket (fun _ => some fun _ => 0) 1 (fun _ => 65) (65533 : ℕ) = some p ∧
      p.packetSize = 0 ∧ p.image = [] ∧ ¬ p.Carries (Block.load (fun _ => 65) 0 65533) := by
  -- the packet is created: there is memory, and nothing else is asked
  obtain ⟨p, hp⟩ := Option.ne_none_iff_exists'.mp
    (mt createPacket_eq_none.mp nofun : createPacket (fun _ => some fun _ => 0) 1 (fun _ => 65)
      (65533 : ℕ) ≠ none)
  have hload := createPacket_load hp
  have hsize : p.packetSize = 0 := by
    rw [← Packet.shortAt_load p (n := 65533 + headerSize) (by decide), hload, shortAt_packetBytes,
      Block.length_load]
    rfl
  refine ⟨p, hp, hsize, ?_, ?_⟩
  · rw [Packet.image, hsize, Block.load_zero]
  · intro hcarries
    have hlength := hcarries.packetSize
    rw [hsize, Block.length_load] at hlength
    exact absurd hlength (by decide)

end RyuLib
