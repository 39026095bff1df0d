import RyuLib.Socket.Packet

/-!
# The records of a compressed video

`VideoZip` puts the length of a frame as an `int` in front of its bytes, and `VideoUnZip`
reads it back from there.  An `int` has four bytes, the low one first.
-/

namespace RyuLib

open Foundations

/-- `sizeof(int)`. -/
abbrev sizeofInt : ℕ := 4

/-- The bytes of an `int` that holds `n`. -/
def intBytes (n : ℤ) : List UInt8 :=
  [UInt8.ofNat (n % 2 ^ 32).toNat, UInt8.ofNat ((n % 2 ^ 32).toNat / 2 ^ 8),
    UInt8.ofNat ((n % 2 ^ 32).toNat / 2 ^ 16), UInt8.ofNat ((n % 2 ^ 32).toNat / 2 ^ 24)]

/-- The `int` at the start of a byte list. -/
def intAt (bytes : List UInt8) : ℤ :=
  toInt ((bytes.getD 0 0).toNat + 2 ^ 8 * (bytes.getD 1 0).toNat +
    2 ^ 16 * (bytes.getD 2 0).toNat + 2 ^ 24 * (bytes.getD 3 0).toNat : ℕ)

@[simp] theorem length_intBytes (n : ℤ) : (intBytes n).length = sizeofInt := rfl

theorem intAt_take (bytes : List UInt8) : intAt (bytes.take sizeofInt) = intAt bytes := by
  simp [intAt, List.getD, sizeofInt]

/-- Only the first four bytes are read. -/
theorem intAt_append {bytes : List UInt8} (h : sizeofInt ≤ bytes.length) (rest : List UInt8) :
    intAt (bytes ++ rest) = intAt bytes := by
  rw [← intAt_take, List.take_append_of_le_length h, intAt_take]

/-- What was written as an `int` is read as one. -/
theorem intAt_intBytes (n : ℤ) : intAt (intBytes n) = toInt n := by
  have hlow : 0 ≤ n % 2 ^ 32 := Int.emod_nonneg n (by norm_num)
  have hhigh : n % 2 ^ 32 < 2 ^ 32 := Int.emod_lt_of_pos n (by norm_num)
  have hbytes : intAt (intBytes n) = toInt (n % 2 ^ 32) := by
    simp only [intAt, intBytes, List.getD_cons_zero, List.getD_cons_succ, UInt8.toNat_ofNat']
    congr 1
    omega
  calc
    intAt (intBytes n) = Int.bmod (n % 2 ^ 32) (2 ^ 32) := hbytes
    _ = toInt n := by exact_mod_cast Int.emod_bmod n (2 ^ 32)

/-- A record: an `int` and as many bytes as it says; none starts with a negative length. -/
def recordFraming : Framing UInt8 where
  header := sizeofInt
  size bytes := if 0 ≤ intAt bytes then sizeofInt + (intAt bytes).toNat else 0
  header_pos := by decide
  size_append bytes rest h := by
    rw [intAt_append h]

theorem recordFraming_size {bytes : List UInt8} (h : 0 ≤ intAt bytes) :
    recordFraming.size bytes = sizeofInt + (intAt bytes).toNat := by
  simp [recordFraming, h]

theorem recordFraming_complete {bytes : List UInt8} :
    recordFraming.Complete bytes ↔
      sizeofInt ≤ bytes.length ∧ 0 ≤ intAt bytes ∧ sizeofInt + intAt bytes ≤ bytes.length := by
  simp only [Framing.Complete, recordFraming, sizeofInt]
  split <;> omega

/-- The record of a frame. -/
def record (frame : List UInt8) : List UInt8 := intBytes frame.length ++ frame

theorem isFrame_record {frame : List UInt8} (h : frame.length < 2 ^ 31) :
    recordFraming.IsFrame (record frame) := by
  have hlength : intAt (record frame) = frame.length := by
    rw [record, intAt_append (by simp), intAt_intBytes, toInt_of_lt (by omega) (by omega)]
  refine ⟨by simp [record, recordFraming], ?_⟩
  simp only [recordFraming, hlength]
  simp [record]

/-- The bytes are records, one behind the other. -/
def WellFormed (bytes : List UInt8) : Prop :=
  ∃ records : List (List UInt8), (∀ p ∈ records, recordFraming.IsFrame p) ∧
    bytes = records.flatten

theorem wellFormed_iff {bytes : List UInt8} :
    WellFormed bytes ↔ recordFraming.rest bytes = [] := by
  refine (Framing.rest_eq_nil_iff ?_).symm
  intro l hpositive
  simp only [recordFraming] at hpositive ⊢
  split
  · exact Nat.le_add_right _ _
  · rename_i hnegative
    rw [if_neg hnegative] at hpositive
    omega

end RyuLib
