import RyuLib.Foundations.Loop
import RyuLib.Video.Records

/-!
# VideoUnZip

`decode` follows the lengths it finds in the bytes that were received, with a pointer
(`frame`) and a separate `int` (`count`), and hands what lies behind each of them to
`vpx_codec_decode`.  Offsets are relative to `data` and may leave the `size` bytes behind
it.  The pictures that `vpx_codec_get_frame` returns do not steer the loop.

* `VideoUnZip.safe_iff`: the loop ends, reads nothing outside the data, and refuses
  malformed data exactly when the data is well formed or the codec refuses one of the
  records at the front of it.
-/

namespace RyuLib

open Foundations

/-- The `length` bytes of the memory from `offset` on. -/
def bytesAt (memory : ℤ → UInt8) (offset : ℤ) (length : ℕ) : List UInt8 :=
  Block.load (fun i => memory (offset + i)) 0 length

@[simp] theorem length_bytesAt (memory : ℤ → UInt8) (offset : ℤ) (length : ℕ) :
    (bytesAt memory offset length).length = length := Block.length_load _ _ _

theorem take_bytesAt (memory : ℤ → UInt8) (offset : ℤ) {k length : ℕ} (hk : k ≤ length) :
    (bytesAt memory offset length).take k = bytesAt memory offset k := by
  rw [bytesAt, Block.take_load, min_eq_left hk, bytesAt]

theorem drop_bytesAt (memory : ℤ → UInt8) (offset : ℤ) (k length : ℕ) :
    (bytesAt memory offset length).drop k = bytesAt memory (offset + k) (length - k) := by
  rw [bytesAt, Block.drop_load]
  refine Block.load_congr fun i _ => ?_
  congr 1
  push_cast
  ring

namespace VideoUnZip

/-- Bytes handed to `vpx_codec_decode`. -/
structure Slice where
  offset : ℤ
  length : ℤ
  deriving DecidableEq

/-- The length and the bytes that `vpx_codec_decode` sees. -/
def Slice.handed (memory : ℤ → UInt8) (slice : Slice) : ℤ × List UInt8 :=
  (slice.length, bytesAt memory slice.offset slice.length.toNat)

/-- What a record holds. -/
def payload (p : List UInt8) : ℤ × List UInt8 := (p.length - sizeofInt, p.drop sizeofInt)

/-- The locals of `decode`, where it has read a length, what it has handed on, and what it
has returned. -/
structure Decoding where
  frame : ℤ := 0
  count : ℤ := 0
  headers : List ℤ := []
  slices : List Slice := []
  result : Option Bool := none
  deriving DecidableEq

/-- One execution of the loop's body: `failed` is what `vpx_codec_decode` returns for it. -/
def readFrame (s : Decoding) (length : ℤ) (failed : Bool) : Decoding :=
  if failed = true then
    { s with
      headers := s.headers ++ [s.frame]
      slices := s.slices ++ [⟨s.frame + sizeofInt, length⟩]
      result := some false }
  else
    { s with
      headers := s.headers ++ [s.frame]
      slices := s.slices ++ [⟨s.frame + sizeofInt, length⟩]
      frame := s.frame + sizeofInt + length
      count := toInt (s.count + sizeofInt + length) }

/-- `decode` on the memory around `data`; `fails k` is what the `k`-th call of
`vpx_codec_decode` returns. -/
def decode (memory : ℤ → UInt8) (size : ℤ) (fails : ℕ → Bool) : Loop Decoding where
  done s := s.result.isSome
  body s :=
    if s.count < size then
      readFrame s (intAt (bytesAt memory s.frame sizeofInt)) (fails s.slices.length)
    else { s with result := some true }

/-- Everything read and handed on lies inside the data. -/
structure Inside (size : ℤ) (s : Decoding) : Prop where
  headers : ∀ offset ∈ s.headers, 0 ≤ offset ∧ offset + sizeofInt ≤ size
  slices : ∀ slice ∈ s.slices,
    0 ≤ slice.length ∧ 0 ≤ slice.offset ∧ slice.offset + slice.length ≤ size

/-- Nothing is read outside the data, and malformed data is not accepted. -/
def Proper (memory : ℤ → UInt8) (size : ℕ) (s : Decoding) : Prop :=
  Inside size s ∧ (s.result = some true → WellFormed (bytesAt memory 0 size))

/-- The loop ends, and is proper on the way; on malformed data it can then only return
`false`. -/
def SafeFrom (memory : ℤ → UInt8) (size : ℕ) (fails : ℕ → Bool) (s : Decoding) : Prop :=
  (decode memory size fails).Terminates s ∧ (decode memory size fails).Keeps (Proper memory size) s

def Safe (memory : ℤ → UInt8) (size : ℕ) (fails : ℕ → Bool) : Prop :=
  SafeFrom memory size fails {}

section

variable {memory : ℤ → UInt8} {size : ℕ} {fails : ℕ → Bool} {s : Decoding} {offset : ℕ}

/-- The loop stands at `offset`, with the pointer and the counter in agreement. -/
structure At (offset size : ℕ) (s : Decoding) : Prop where
  frame : s.frame = offset
  count : s.count = offset
  le : offset ≤ size
  running : s.result = none

theorem At.not_done (h : At offset size s) : (decode memory size fails).done s = false := by
  simp [decode, h.running]

/-- Where bytes remain, the body reads the length at their front. -/
theorem body_eq (fails : ℕ → Bool) (h : At offset size s) {l : List UInt8}
    (hl : bytesAt memory offset (size - offset) = l) (hheader : sizeofInt ≤ l.length) :
    (decode memory size fails).body s = readFrame s (intAt l) (fails s.slices.length) := by
  have hlength := congrArg List.length hl
  rw [length_bytesAt] at hlength
  have hmore : s.count < size := by
    rw [h.count]
    unfold sizeofInt at hheader
    omega
  have hread : intAt (bytesAt memory s.frame sizeofInt) = intAt l := by
    rw [h.frame, ← take_bytesAt memory offset (hlength.symm ▸ hheader), hl, intAt_take]
  simp only [decode, hmore, if_true, hread]

theorem length_slices_readFrame (s : Decoding) (length : ℤ) (failed : Bool) :
    (readFrame s length failed).slices.length = s.slices.length + 1 := by
  unfold readFrame
  split <;> simp

theorem inside_readFrame {length : ℤ} {failed : Bool} :
    Inside size (readFrame s length failed) ↔
      Inside size s ∧ (0 ≤ s.frame ∧ s.frame + sizeofInt ≤ size) ∧
        0 ≤ length ∧ 0 ≤ s.frame + sizeofInt ∧ s.frame + sizeofInt + length ≤ size := by
  have hlists : (readFrame s length failed).headers = s.headers ++ [s.frame] ∧
      (readFrame s length failed).slices = s.slices ++ [⟨s.frame + sizeofInt, length⟩] := by
    unfold readFrame
    split <;> exact ⟨rfl, rfl⟩
  constructor
  · rintro ⟨hheaders, hslices⟩
    rw [hlists.1] at hheaders
    rw [hlists.2] at hslices
    refine ⟨⟨?_, ?_⟩, hheaders s.frame (by simp), hslices ⟨s.frame + sizeofInt, length⟩ (by simp)⟩
    · intro offset hoffset
      exact hheaders offset (by simp [hoffset])
    · intro slice hslice
      exact hslices slice (by simp [hslice])
  · rintro ⟨⟨hheaders, hslices⟩, hheader, hslice⟩
    constructor
    · rw [hlists.1]
      intro offset hoffset
      rcases List.mem_append.mp hoffset with hoffset | hoffset
      · exact hheaders offset hoffset
      · rw [List.mem_singleton.mp hoffset]
        exact hheader
    · rw [hlists.2]
      intro slice hmem
      rcases List.mem_append.mp hmem with hmem | hmem
      · exact hslices slice hmem
      · rw [List.mem_singleton.mp hmem]
        exact hslice

/-- A complete record is read, and if the codec takes it the loop stands behind it. -/
theorem At.readFrame (hsize : size < 2 ^ 31) (h : At offset size s) {l : List UInt8}
    (hl : bytesAt memory offset (size - offset) = l) (hcomplete : recordFraming.Complete l) :
    At (offset + recordFraming.size l) size (readFrame s (intAt l) false) ∧
      bytesAt memory (offset + recordFraming.size l : ℕ) (size - (offset + recordFraming.size l)) =
        l.drop (recordFraming.size l) := by
  obtain ⟨hheader, hlength, hfits⟩ := recordFraming_complete.mp hcomplete
  have hle := h.le
  have hsum : recordFraming.size l = sizeofInt + (intAt l).toNat :=
    recordFraming_size hlength
  have hl' := congrArg List.length hl
  rw [length_bytesAt] at hl'
  refine ⟨⟨?_, ?_, by omega, h.running⟩, ?_⟩
  · show s.frame + sizeofInt + intAt l = _
    rw [h.frame]
    omega
  · show toInt (s.count + sizeofInt + intAt l) = _
    rw [h.count, toInt_of_lt (by omega) (by omega)]
    omega
  · rw [← hl, drop_bytesAt, hl, Nat.sub_add_eq]
    push_cast
    rfl

/-- The record that is read lies inside the data. -/
theorem At.inside_readFrame (h : At offset size s) (hinside : Inside size s) {l : List UInt8}
    (hl : bytesAt memory offset (size - offset) = l) (hcomplete : recordFraming.Complete l)
    (failed : Bool) : Inside size (VideoUnZip.readFrame s (intAt l) failed) := by
  obtain ⟨hheader, hlength, hfits⟩ := recordFraming_complete.mp hcomplete
  have hle := h.le
  have hl' := congrArg List.length hl
  rw [length_bytesAt] at hl'
  rw [VideoUnZip.inside_readFrame, h.frame]
  exact ⟨hinside, by omega, hlength, by omega, by omega⟩

/-- Where bytes remain that are no complete record, the body leaves the data. -/
theorem At.not_inside (h : At offset size s) {l : List UInt8}
    (hl : bytesAt memory offset (size - offset) = l) (hcomplete : ¬ recordFraming.Complete l)
    (hne : l ≠ []) : ¬ Inside size ((decode memory size fails).body s) := by
  have hle := h.le
  have hl' := congrArg List.length hl
  rw [length_bytesAt] at hl'
  have hpositive := List.length_pos_of_ne_nil hne
  have hmore : s.count < size := by
    rw [h.count]
    omega
  have hbody : (decode memory size fails).body s = VideoUnZip.readFrame s
      (intAt (bytesAt memory s.frame sizeofInt)) (fails s.slices.length) := if_pos hmore
  rw [hbody, VideoUnZip.inside_readFrame, h.frame]
  rintro ⟨_, ⟨_, hheader⟩, hlength, _, hfits⟩
  have hread : intAt (bytesAt memory offset sizeofInt) = intAt l := by
    rw [← take_bytesAt memory offset (by omega : sizeofInt ≤ size - offset), hl, intAt_take]
  rw [hread] at hlength hfits
  exact hcomplete (recordFraming_complete.mpr ⟨by omega, hlength, by omega⟩)

/-- At the end of the data the loop returns `true`. -/
theorem At.body_of_end (h : At size size s) :
    (decode memory size fails).body s = { s with result := some true } := by
  have hend : ¬ s.count < size := by
    rw [h.count]
    omega
  exact if_neg hend

theorem safeFrom_of_not_done (h : (decode memory size fails).done s = false) :
    SafeFrom memory size fails s ↔
      Proper memory size s ∧ SafeFrom memory size fails ((decode memory size fails).body s) := by
  rw [SafeFrom, Loop.terminates_iff h, Loop.keeps_iff h, SafeFrom]
  tauto

theorem safeFrom_of_done (h : (decode memory size fails).done s = true) :
    SafeFrom memory size fails s ↔ Proper memory size s := by
  rw [SafeFrom, and_iff_right (Loop.terminates_of_done h), Loop.keeps_of_done h]

theorem At.proper (h : At offset size s) (hinside : Inside size s) : Proper memory size s := by
  refine ⟨hinside, fun htrue => ?_⟩
  rw [h.running] at htrue
  cases htrue

/-- From any record on, the loop is safe exactly if only records remain or the codec refuses
one of those at the front. -/
theorem safeFrom_iff (hsize : size < 2 ^ 31) (h : At offset size s) (hinside : Inside size s)
    {l : List UInt8} (hl : bytesAt memory offset (size - offset) = l)
    (hrest : recordFraming.rest (bytesAt memory 0 size) = recordFraming.rest l) :
    SafeFrom memory size fails s ↔ recordFraming.rest l = [] ∨
      ∃ k < (recordFraming.frames l).length, fails (s.slices.length + k) = true := by
  -- by the records that remain
  induction l using Framing.frames.induct recordFraming generalizing offset s with
  | case1 l hcomplete ih =>
      have hread := body_eq fails h hl (recordFraming_complete.mp hcomplete).1
      rw [safeFrom_of_not_done h.not_done, and_iff_right (h.proper hinside), hread,
        Framing.frames_of_complete hcomplete, List.length_cons]
      have hafter := h.inside_readFrame hinside hl hcomplete (fails s.slices.length)
      cases hfails : fails s.slices.length with
      | true =>
          rw [hfails] at hafter
          refine iff_of_true ((safeFrom_of_done rfl).mpr ⟨hafter, ?_⟩)
            (Or.inr ⟨0, Nat.succ_pos _, hfails⟩)
          intro htrue
          cases htrue
      | false =>
          rw [hfails] at hafter
          obtain ⟨hat, hnext⟩ := h.readFrame hsize hl hcomplete
          have hrest' := Framing.rest_of_complete hcomplete
          rw [ih hat hafter hnext (hrest.trans hrest'), hrest', length_slices_readFrame]
          constructor
          · rintro (hnone | ⟨k, hk, hfail⟩)
            · exact Or.inl hnone
            · exact Or.inr ⟨k + 1, by omega, by rwa [Nat.add_assoc, Nat.add_comm 1 k] at hfail⟩
          · rintro (hnone | ⟨k, hk, hfail⟩)
            · exact Or.inl hnone
            · cases k with
              | zero => rw [Nat.add_zero, hfails] at hfail; cases hfail
              | succ k =>
                  exact Or.inr ⟨k, by omega, by rwa [Nat.add_assoc, Nat.add_comm 1 k]⟩
  | case2 l hcomplete =>
      rw [Framing.rest_of_not_complete hcomplete] at hrest ⊢
      rw [Framing.frames_of_not_complete hcomplete, safeFrom_of_not_done h.not_done]
      by_cases hnil : l = []
      · refine iff_of_true ⟨h.proper hinside, ?_⟩ (Or.inl hnil)
        have hlength := congrArg List.length hl
        rw [length_bytesAt, hnil, List.length_nil] at hlength
        have hle := h.le
        obtain rfl : offset = size := by omega
        rw [h.body_of_end, safeFrom_of_done rfl]
        exact ⟨⟨hinside.headers, hinside.slices⟩, fun _ => wellFormed_iff.mpr (hrest.trans hnil)⟩
      · refine iff_of_false ?_ (by simp [hnil])
        rintro ⟨_, _, hkeeps⟩
        exact h.not_inside hl hcomplete hnil (hkeeps 0).1

/-- On whatever is received, the loop ends, reads lengths and hands on slices inside the
data only, and does not accept malformed data, exactly when the data is a sequence of
records or `vpx_codec_decode` fails on one of the complete records at its front. -/
theorem safe_iff (memory : ℤ → UInt8) (size : ℕ) (hsize : size < 2 ^ 31) (fails : ℕ → Bool) :
    Safe memory size fails ↔ WellFormed (bytesAt memory 0 size) ∨
      ∃ k < (recordFraming.frames (bytesAt memory 0 size)).length, fails k = true := by
  have hat : At 0 size {} := ⟨rfl, rfl, Nat.zero_le size, rfl⟩
  have hinside : Inside size {} := ⟨nofun, nofun⟩
  rw [wellFormed_iff, Safe, safeFrom_iff hsize hat hinside rfl rfl]
  simp

/-- A length of -4 in four bytes of data. -/
def backwards (i : ℤ) : UInt8 := if i = 0 then 252 else 255

theorem safe_iff_backwards :
    Safe backwards 4 (fun _ => false) ↔ WellFormed (bytesAt backwards 0 4) ∨
      ∃ k < (recordFraming.frames (bytesAt backwards 0 4)).length, false = true :=
  safe_iff backwards 4 (by norm_num) fun _ => false

/-- The loop comes back to the same length for ever, and a shorter piece of data ends in the
middle of a length. -/
theorem not_safe_backwards :
    ¬ (decode backwards 4 fun _ => false).Terminates {} ∧
      ¬ Safe backwards 2 (fun _ => false) := by
  constructor
  · have hlength : intAt (bytesAt backwards 0 sizeofInt) = -4 := by decide
    have hstuck : (decode backwards 4 fun _ => false).Keeps
        (fun s => s.frame = 0 ∧ s.count = 0 ∧ s.result = none) {} := by
      refine Loop.keeps_of_body ?_ ⟨rfl, rfl, rfl⟩
      rintro s ⟨hframe, hcount, hresult⟩
      have hmore : s.count < (4 : ℕ) := by
        rw [hcount]
        norm_num
      have hbody : (decode backwards 4 fun _ => false).body s = readFrame s (-4) false := by
        rw [← hlength, ← hframe]
        exact if_pos hmore
      rw [hbody]
      simp [readFrame, hframe, hcount, hresult, toInt]
    rintro ⟨n, hdone⟩
    obtain ⟨_, _, hresult⟩ := hstuck n
    change ((decode backwards 4 fun _ => false).after n {}).result.isSome = true at hdone
    rw [hresult] at hdone
    cases hdone
  · rintro ⟨_, hkeeps⟩
    have hheader := (hkeeps 1).1.headers 0 (by decide)
    norm_num at hheader

/-! ## Well-formed data -/

/-- What the codec sees of a complete record. -/
theorem handed_record {l : List UInt8} (hl : bytesAt memory offset (size - offset) = l)
    (hcomplete : recordFraming.Complete l) :
    Slice.handed memory ⟨(offset : ℤ) + sizeofInt, intAt l⟩ =
      payload (l.take (recordFraming.size l)) := by
  obtain ⟨hheader, hlength, hfits⟩ := recordFraming_complete.mp hcomplete
  have hl' := congrArg List.length hl
  rw [length_bytesAt] at hl'
  have hfit : sizeofInt + (intAt l).toNat ≤ size - offset := by omega
  have htake := take_bytesAt memory offset hfit
  rw [hl] at htake
  have hrecord : (l.take (sizeofInt + (intAt l).toNat)).length = sizeofInt + (intAt l).toNat :=
    List.length_take_of_le (by omega)
  rw [recordFraming_size hlength, Slice.handed, payload, hrecord, htake, drop_bytesAt,
    Nat.add_sub_cancel_left, Prod.mk.injEq]
  refine ⟨?_, by simp only⟩
  dsimp only
  omega

/-- Where only records remain and the codec takes each, the loop hands on all of them and
returns `true`. -/
theorem hands_over (hsize : size < 2 ^ 31) (h : At offset size s) {l : List UInt8}
    (hl : bytesAt memory offset (size - offset) = l) (hrest : recordFraming.rest l = [])
    (hok : ∀ k < (recordFraming.frames l).length, fails (s.slices.length + k) = false) :
    ∃ n, ((decode memory size fails).after n s).result = some true ∧
      ((decode memory size fails).after n s).slices.map (Slice.handed memory) =
        s.slices.map (Slice.handed memory) ++ (recordFraming.frames l).map payload := by
  induction l using Framing.frames.induct recordFraming generalizing offset s with
  | case1 l hcomplete ih =>
      have hread := body_eq fails h hl (recordFraming_complete.mp hcomplete).1
      rw [Framing.frames_of_complete hcomplete, List.length_cons] at hok
      rw [show fails s.slices.length = false from hok 0 (Nat.succ_pos _)] at hread
      obtain ⟨hat, hnext⟩ := h.readFrame hsize hl hcomplete
      rw [Framing.rest_of_complete hcomplete] at hrest
      have hlater : ∀ k < (recordFraming.frames (l.drop (recordFraming.size l))).length,
          fails ((VideoUnZip.readFrame s (intAt l) false).slices.length + k) = false := by
        intro k hk
        rw [length_slices_readFrame, Nat.add_assoc, Nat.add_comm 1 k]
        exact hok (k + 1) (by omega)
      obtain ⟨n, hresult, hslices⟩ := ih hat hnext hrest hlater
      have hafter : (decode memory size fails).after (n + 1) s =
          (decode memory size fails).after n (VideoUnZip.readFrame s (intAt l) false) := by
        rw [Loop.after_succ, Loop.step_of_not_done h.not_done, hread]
      refine ⟨n + 1, hafter ▸ hresult, ?_⟩
      rw [hafter, hslices, Framing.frames_of_complete hcomplete, List.map_cons,
        ← handed_record hl hcomplete, ← h.frame]
      simp [VideoUnZip.readFrame]
  | case2 l hcomplete =>
      rw [Framing.rest_of_not_complete hcomplete] at hrest
      have hlength := congrArg List.length hl
      rw [length_bytesAt, hrest, List.length_nil] at hlength
      have hle := h.le
      obtain rfl : offset = size := by omega
      have hafter : (decode memory offset fails).after 1 s = { s with result := some true } := by
        rw [Loop.after_succ, Loop.after_zero, Loop.step_of_not_done h.not_done, h.body_of_end]
      refine ⟨1, by rw [hafter], ?_⟩
      rw [hafter, Framing.frames_of_not_complete hcomplete, List.map_nil, List.append_nil]

end

end VideoUnZip

end RyuLib
