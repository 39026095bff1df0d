import RyuLib.Foundations.Memory
import RyuLib.Foundations.Framing
import RyuLib.Foundations.Wrapping

/-!
# Packets

`SocketUtils.hpp` lays a packet out as two bytes of `packet_size`, one byte of
`packet_type` and the data, packed, and hands packets around as pointers into
memory.  A `Packet` is the memory behind such a pointer; the fields are read out
of it.  `unsigned short` is stored low byte first.

`packet_size` counts the header.  It is computed in `size_t` and stored in
sixteen bits (`setPacketSize`); every consumer works from the stored field.
-/

namespace RyuLib

open Foundations

abbrev headerSize : ℕ := 3
abbrev packetLimit : ℕ := 32 * 1024

abbrev errorConnect : ℤ := -1
abbrev errorRead : ℤ := -2
abbrev errorWrite : ℤ := -3

/-- `sizeof(Packet)`: the header and the first byte of the data. -/
abbrev sizeofPacket : ℤ := 4

/-- A value converted to `size_t`. -/
def sizeT (n : ℤ) : ℕ := (n % 2 ^ 64).toNat

/-- A value converted to `int`. -/
def toInt (n : ℤ) : ℤ := Int.bmod n (2 ^ 32)

theorem toInt_eq_wrap (n : ℤ) : toInt n = n.bmod (2 * 2 ^ 31) := rfl

theorem toInt_of_bounds {n : ℤ} (hlow : -2 ^ 31 ≤ n) (hhigh : n < 2 ^ 31) : toInt n = n :=
  Int.bmod_eq_of_le (by norm_num; omega) (by norm_num; omega)

theorem toInt_of_lt {n : ℤ} (hlow : 0 ≤ n) (hhigh : n < 2 ^ 31) : toInt n = n := by
  rw [toInt_eq_wrap]
  exact wrap_of_lt (h := 2 ^ 31) hlow hhigh

theorem toInt_lt (n : ℤ) : toInt n < 2 ^ 31 := by
  rw [toInt_eq_wrap]
  exact wrap_lt (h := 2 ^ 31) (by norm_num) n

/-- An `int` that is too small for a number loses a whole modulus of it at least. -/
theorem toInt_le_sub {n : ℤ} (hhigh : 2 ^ 31 ≤ n) : toInt n ≤ n - 2 ^ 32 := by
  rw [toInt_eq_wrap]
  exact wrap_le_sub (h := 2 ^ 31) (by norm_num) hhigh

theorem toInt_le {n : ℤ} (hlow : 0 ≤ n) : toInt n ≤ n := by
  by_cases hhigh : n < 2 ^ 31
  · exact (toInt_of_lt hlow hhigh).le
  · have hlost := toInt_le_sub (not_lt.mp hhigh)
    omega

/-- Of the numbers that are not negative an `int` holds those below `2 ^ 31`. -/
theorem toInt_eq_iff {n : ℤ} (hlow : 0 ≤ n) : toInt n = n ↔ n < 2 ^ 31 :=
  ⟨fun h => h ▸ toInt_lt n, toInt_of_lt hlow⟩

@[simp] theorem toInt_toInt_add (n m : ℤ) : toInt (toInt n + m) = toInt (n + m) :=
  Int.bmod_add_bmod

/-- What is taken from an `int` that holds as much does not wrap. -/
theorem toInt_sub {n k : ℤ} (hk : 0 ≤ k) (hle : k ≤ toInt n) : toInt n - k = toInt (n - k) := by
  have hlt := toInt_lt n
  calc toInt n - k = toInt (toInt n - k) := (toInt_of_lt (by omega) (by omega)).symm
    _ = toInt (n - k) := by rw [sub_eq_add_neg, toInt_toInt_add, sub_eq_add_neg]

/-- The memory behind a `Packet*`. -/
abbrev Packet := Block UInt8

/-- The bytes of an `unsigned short` that holds `n`. -/
def shortBytes (n : ℕ) : List UInt8 := [UInt8.ofNat n, UInt8.ofNat (n / 256)]

/-- The `unsigned short` at the start of a byte list. -/
def shortAt (bytes : List UInt8) : ℕ := (bytes.getD 0 0).toNat + 256 * (bytes.getD 1 0).toNat

namespace Packet

def packetSize (p : Packet) : ℕ := (p 0).toNat + 256 * (p 1).toNat

def packetType (p : Packet) : UInt8 := p 2

/-- `packet_size - 3`, negative when the size field is too small for a header. -/
def getDataSize (p : Packet) : ℤ := (packetSize p : ℤ) - 3

/-- The bytes at `data_start` that `getDataSize` counts. -/
def getData (p : Packet) : List UInt8 := p.load 3 (getDataSize p).toNat

/-- The `packet_size` bytes of the packet. -/
def image (p : Packet) : List UInt8 := p.load 0 (packetSize p)

/-- `getText`: `packet_size` zero bytes with the data copied to their front.
A negative data size is no length for `memcpy`. -/
def getText (p : Packet) : Option (List UInt8) :=
  if getDataSize p < 0 then none
  else
    let result : Block UInt8 := Block.ofList 0 (List.replicate (packetSize p) 0)
    some ((result.store 0 (getData p)).load 0 (packetSize p))

def setPacketType (p : Packet) (packetType : UInt8) : Packet := p.store 2 [packetType]

/-- `size` stored in the sixteen bits of `packet_size`. -/
def setPacketSize (p : Packet) (size : ℕ) : Packet := p.store 0 (shortBytes (size % 2 ^ 16))

end Packet

/-- The characters in front of the terminating NUL. -/
def cString (bytes : List UInt8) : List UInt8 := bytes.takeWhile (· ≠ 0)

/-- `create_packet(packet_type, data, size)`.  `malloc` gives the block it
allocates for a number of bytes, whatever that holds, or `none` for `NULL`. -/
def createPacket (malloc : ℕ → Option (Block UInt8)) (packetType : UInt8)
    (data : Block UInt8) (size : ℤ) : Option Packet :=
  match malloc (sizeT (size + sizeofPacket - 1)) with
  | none => none
  | some packet =>
      let packet := Packet.setPacketType packet packetType
      let packet := Packet.setPacketSize packet (sizeT (size + sizeofPacket - 1))
      -- all of the data is copied, whatever the stored size says
      some (if 0 < size then packet.store 3 (data.load 0 size.toNat) else packet)

/-- `create_packet(packet_type, text)`. -/
def createTextPacket (malloc : ℕ → Option (Block UInt8)) (packetType : UInt8)
    (text : List UInt8) : Option Packet :=
  match malloc (sizeT (text.length + sizeofPacket - 1)) with
  | none => none
  | some packet =>
      let packet := Packet.setPacketType packet packetType
      let packet := Packet.setPacketSize packet (sizeT (text.length + sizeofPacket - 1))
      some (if 0 < text.length then packet.store 3 text else packet)

/-! ## The size field -/

theorem shortAt_shortBytes {n : ℕ} (h : n < 2 ^ 16) : shortAt (shortBytes n) = n := by
  simp only [shortAt, shortBytes, List.getD_cons_zero, List.getD_cons_succ, UInt8.toNat_ofNat']
  omega

theorem shortAt_append {bytes : List UInt8} (more : List UInt8) (h : headerSize ≤ bytes.length) :
    shortAt (bytes ++ more) = shortAt bytes := by
  unfold headerSize at h
  simp only [shortAt, List.getD_eq_getElem?_getD]
  rw [List.getElem?_append_left (by omega), List.getElem?_append_left (by omega)]

/-- The packet format of the wire: three header bytes, the first two of which
declare the size of the whole packet. -/
def packetFraming : Framing UInt8 where
  header := headerSize
  size := shortAt
  header_pos := by decide
  size_append := fun _ more h => shortAt_append more h

namespace Packet

theorem packetSize_lt (p : Packet) : packetSize p < 2 ^ 16 := by
  have h0 := (p 0).toNat_lt
  have h1 := (p 1).toNat_lt
  simp only [packetSize]
  omega

/-- The size field is in the first two bytes of whatever is loaded. -/
theorem shortAt_load (p : Packet) {n : ℕ} (h : 2 ≤ n) : shortAt (p.load 0 n) = packetSize p := by
  obtain ⟨n, rfl⟩ := Nat.exists_eq_add_of_le h
  rw [Block.load_add]
  rfl

theorem packetSize_congr {p q : Packet} {n : ℕ} (hn : 2 ≤ n) (h : p.load 0 n = q.load 0 n) :
    packetSize p = packetSize q := by
  rw [← shortAt_load p hn, h, shortAt_load q hn]

end Packet

/-! ## What `create_packet` lays out -/

/-- The bytes of a packet: the sixteen bits of its size, its type, its data. -/
def packetBytes (packetType : UInt8) (payload : List UInt8) : List UInt8 :=
  shortBytes ((payload.length + headerSize) % 2 ^ 16) ++ packetType :: payload

@[simp] theorem length_packetBytes (packetType : UInt8) (payload : List UInt8) :
    (packetBytes packetType payload).length = payload.length + headerSize := by
  simp [packetBytes, shortBytes, headerSize]

theorem packetBytes_eq (packetType : UInt8) (payload : List UInt8) :
    packetBytes packetType payload =
      (shortBytes ((payload.length + headerSize) % 2 ^ 16) ++ [packetType]) ++ payload := by
  simp [packetBytes]

theorem shortAt_packetBytes (packetType : UInt8) (payload : List UInt8) :
    shortAt (packetBytes packetType payload) = (payload.length + headerSize) % 2 ^ 16 :=
  shortAt_shortBytes (Nat.mod_lt _ (by norm_num))

theorem load_header (m : Block UInt8) (packetType : UInt8) (size : ℕ) :
    (Packet.setPacketSize (Packet.setPacketType m packetType) size).load 0 headerSize =
      shortBytes (size % 2 ^ 16) ++ [packetType] := by
  rfl

theorem sizeT_natCast_add (n : ℕ) :
    sizeT ((n : ℤ) + sizeofPacket - 1) % 2 ^ 16 = (n + headerSize) % 2 ^ 16 := by
  unfold sizeT sizeofPacket headerSize
  omega

theorem load_stored_packet (m : Block UInt8) (packetType : UInt8) (payload : List UInt8) :
    Block.load
        (Block.store (Packet.setPacketSize (Packet.setPacketType m packetType)
          (sizeT ((payload.length : ℤ) + sizeofPacket - 1))) headerSize payload)
        0 (headerSize + payload.length) =
      packetBytes packetType payload := by
  have happend := Block.load_store_append (Packet.setPacketSize
    (Packet.setPacketType m packetType) (sizeT ((payload.length : ℤ) + sizeofPacket - 1)))
    0 headerSize payload
  rw [Nat.zero_add] at happend
  rw [happend, load_header, sizeT_natCast_add, packetBytes_eq]

/-- A created packet is its header followed by the given data. -/
theorem createPacket_load {malloc : ℕ → Option (Block UInt8)} {packetType : UInt8}
    {data : Block UInt8} {n : ℕ} {p : Packet}
    (h : createPacket malloc packetType data (n : ℤ) = some p) :
    p.load 0 (n + headerSize) = packetBytes packetType (data.load 0 n) := by
  unfold createPacket at h
  split at h
  · cases h
  · rename_i m _
    rw [Option.some.injEq] at h
    have hstored := load_stored_packet m packetType (data.load 0 n)
    rw [Block.length_load] at hstored
    rw [← h, Nat.add_comm]
    split
    · rw [Int.toNat_natCast]
      exact hstored
    · have hn : n = 0 := by omega
      subst hn
      simpa using hstored

theorem createTextPacket_load {malloc : ℕ → Option (Block UInt8)} {packetType : UInt8}
    {text : List UInt8} {p : Packet} (h : createTextPacket malloc packetType text = some p) :
    p.load 0 (text.length + headerSize) = packetBytes packetType text := by
  unfold createTextPacket at h
  split at h
  · cases h
  · rename_i m _
    rw [Option.some.injEq] at h
    have hstored := load_stored_packet m packetType text
    rw [← h, Nat.add_comm]
    split
    · exact hstored
    · have hnil : text = [] := List.eq_nil_of_length_eq_zero (by omega)
      subst hnil
      simpa using hstored

namespace Packet

/-- The fields of a packet whose bytes are known. -/
theorem packetSize_of_load {p : Packet} {packetType : UInt8} {payload : List UInt8}
    (h : p.load 0 (payload.length + headerSize) = packetBytes packetType payload) :
    packetSize p = (payload.length + headerSize) % 2 ^ 16 := by
  rw [← shortAt_load p (n := payload.length + headerSize) (by unfold headerSize; omega), h,
    shortAt_packetBytes]

theorem packetType_of_load {p : Packet} {packetType : UInt8} {payload : List UInt8}
    (h : p.load 0 (payload.length + headerSize) = packetBytes packetType payload) :
    p.packetType = packetType := by
  have hget := congrArg (fun bytes : List UInt8 => bytes[2]?) h
  rw [Nat.add_comm, Block.load_add] at hget
  show p 2 = packetType
  simpa [packetBytes, shortBytes, Block.load, List.range_succ] using hget

theorem load_payload {p : Packet} {packetType : UInt8} {payload : List UInt8}
    (h : p.load 0 (payload.length + headerSize) = packetBytes packetType payload) :
    p.load headerSize payload.length = payload := by
  have hdrop := congrArg (List.drop headerSize) h
  rw [Block.drop_load] at hdrop
  simpa [packetBytes, shortBytes, headerSize] using hdrop

/-- A packet whose size did not wrap holds its data. -/
theorem getData_of_load {p : Packet} {packetType : UInt8} {payload : List UInt8}
    (h : p.load 0 (payload.length + headerSize) = packetBytes packetType payload)
    (hfit : payload.length + headerSize < 2 ^ 16) :
    getDataSize p = payload.length ∧ getData p = payload ∧
      image p = packetBytes packetType payload := by
  have hsize : packetSize p = payload.length + headerSize := by
    rw [packetSize_of_load h, Nat.mod_eq_of_lt hfit]
  have hdata : getDataSize p = payload.length := by
    rw [getDataSize, hsize]
    unfold headerSize
    omega
  refine ⟨hdata, ?_, ?_⟩
  · rw [getData, hdata, Int.toNat_natCast]
    exact load_payload h
  · rw [image, hsize, h]

end Packet

end RyuLib
