import RyuLib.Video.VideoUnZip

/-!
# VideoZip

`encode` puts the frames that the codec has for a picture into the buffer `data_`, each
behind its length, and counts the bytes in `size_`.  `VideoUnZip` reads them there.

* `VideoZip.decode_encode`: what the codec made of one picture and fits into the buffer
  reaches `vpx_codec_decode` frame by frame as it was.
-/

namespace RyuLib

open Foundations

namespace VideoZip

abbrev bufferSize : ℕ := 1024 * 1024

/-- What `vpx_codec_get_cx_data` returns: a VPX_CODEC_CX_FRAME_PKT with its bytes, or a
packet of another kind. -/
inductive CxPacket
  | frame (buf : List UInt8)
  | other

/-- The bytes of the frame packets. -/
def frames (packets : List CxPacket) : List (List UInt8) :=
  packets.filterMap fun
    | .frame buf => some buf
    | .other => none

/-- The locals of the loop: the buffer, the pointer as an offset into it, and `size_`. -/
structure Encoding where
  data : Block UInt8
  frame : ℕ := 0
  size : ℤ := 0

def putPacket (s : Encoding) : CxPacket → Encoding
  | .frame buf =>
      { data := (s.data.store s.frame (intBytes buf.length)).store (s.frame + sizeofInt) buf
        frame := s.frame + sizeofInt + buf.length
        size := toInt (s.size + sizeofInt + buf.length) }
  | .other => s

end VideoZip

/-- The buffer is `malloc`ed, and what it holds at first is not specified. -/
structure VideoZip where
  data : Block UInt8
  size : ℤ

namespace VideoZip

/-- `encode` from the result of `vpx_codec_encode` and the packets that come of it. -/
def encode (z : VideoZip) (failed : Bool) (packets : List CxPacket) : Bool × VideoZip :=
  if failed = true then (false, z)
  else
    (true,
      { data := (packets.foldl putPacket { data := z.data }).data
        size := (packets.foldl putPacket { data := z.data }).size })

/-- The memory at `getData()`; nothing is known of what lies in front of it. -/
def getData (z : VideoZip) (front : Block UInt8) : ℤ → UInt8
  | .ofNat i => z.data i
  | .negSucc i => front i

def getSize (z : VideoZip) : ℤ := z.size

/-- The bytes that the frames take in the buffer. -/
def total (packets : List CxPacket) : ℕ :=
  ((frames packets).map fun buf => sizeofInt + buf.length).sum

/-- Pointer and counter stand behind the records of the frames so far. -/
theorem foldl_putPacket (data : Block UInt8) {packets : List CxPacket}
    (hfit : total packets ≤ bufferSize) :
    (packets.foldl putPacket { data := data }).frame = total packets ∧
      (packets.foldl putPacket { data := data }).size = total packets ∧
      (packets.foldl putPacket { data := data }).data.load 0 (total packets) =
        ((frames packets).map record).flatten := by
  induction packets using List.reverseRecOn with
  | nil => simp [total, frames]
  | append_singleton packets packet ih =>
      cases packet with
      | other =>
          have hsame : frames (packets ++ [.other]) = frames packets := by simp [frames]
          have htotal : total (packets ++ [.other]) = total packets := by rw [total, hsame, total]
          rw [htotal] at hfit ⊢
          rw [hsame, List.foldl_append]
          exact ih hfit
      | frame buf =>
          have hmore : frames (packets ++ [.frame buf]) = frames packets ++ [buf] := by
            simp [frames]
          have htotal : total (packets ++ [.frame buf]) =
              total packets + sizeofInt + buf.length := by
            rw [total, hmore]
            simp [total, Nat.add_assoc]
          rw [htotal] at hfit ⊢
          obtain ⟨hframe, hsize, hload⟩ := ih (by omega)
          rw [List.foldl_append, hmore]
          generalize packets.foldl putPacket { data := data } = s at hframe hsize hload
          refine ⟨?_, ?_, ?_⟩
          · show s.frame + sizeofInt + buf.length = _
            rw [hframe]
          · show toInt (s.size + sizeofInt + buf.length) = _
            unfold bufferSize at hfit
            rw [hsize, toInt_of_lt (by omega) (by omega)]
            push_cast
            rfl
          · show ((s.data.store s.frame (intBytes buf.length)).store (s.frame + sizeofInt) buf).load
              0 (total packets + sizeofInt + buf.length) = _
            have hheader := Block.load_store_append s.data 0 (total packets) (intBytes buf.length)
            rw [Nat.zero_add, length_intBytes, hload] at hheader
            have hbuf := Block.load_store_append
              (s.data.store (total packets) (intBytes buf.length)) 0 (total packets + sizeofInt) buf
            rw [Nat.zero_add, hheader] at hbuf
            rw [hframe, hbuf]
            simp [record]

theorem bytesAt_getData (z : VideoZip) (front : Block UInt8) (length : ℕ) :
    bytesAt (z.getData front) 0 length = z.data.load 0 length := by
  refine Block.load_congr fun i _ => ?_
  rw [Int.zero_add, Nat.zero_add]
  rfl

theorem payload_record (frame : List UInt8) :
    VideoUnZip.payload (record frame) = ((frame.length : ℤ), frame) := by
  rw [VideoUnZip.payload, record, List.length_append, length_intBytes,
    ← length_intBytes frame.length, List.drop_left]
  simp

theorem isFrame_of_mem_frames {packets : List CxPacket} (hfit : total packets ≤ bufferSize) :
    ∀ p ∈ (frames packets).map record, recordFraming.IsFrame p := by
  intro p hp
  obtain ⟨frame, hframe, rfl⟩ := List.mem_map.mp hp
  have hle : sizeofInt + frame.length ≤ total packets :=
    List.le_sum_of_mem (List.mem_map.mpr ⟨frame, hframe, rfl⟩)
  unfold bufferSize at hfit
  exact isFrame_record (by omega)

/-- Whatever `encode` puts into its buffer from packets whose frames fit into it, `decode`
reads nothing but the `getSize()` bytes of it, hands the frames to the codec one after the
other with their lengths and bytes, and returns `true` if the codec takes them. -/
theorem decode_encode {z z' : VideoZip} {failed : Bool} {packets : List CxPacket}
    (hencode : z.encode failed packets = (true, z')) (hfit : total packets ≤ bufferSize)
    (front : Block UInt8) {fails : ℕ → Bool}
    (hok : ∀ k < (frames packets).length, fails k = false) :
    (VideoUnZip.decode (z'.getData front) z'.getSize fails).Keeps
        (VideoUnZip.Inside z'.getSize) {} ∧
      ∃ n s, (VideoUnZip.decode (z'.getData front) z'.getSize fails).after n {} = s ∧
        s.result = some true ∧
        s.slices.map (VideoUnZip.Slice.handed (z'.getData front)) =
          (frames packets).map fun frame => ((frame.length : ℤ), frame) := by
  obtain ⟨hdata, hsize⟩ : z'.data.load 0 (total packets) = ((frames packets).map record).flatten ∧
      z'.size = total packets := by
    cases failed with
    | true => cases hencode
    | false =>
        obtain ⟨_, hload⟩ := foldl_putPacket z.data hfit
        rw [← (Prod.mk.inj hencode).2]
        exact ⟨hload.2, hload.1⟩
  have hbytes : bytesAt (z'.getData front) 0 (total packets) =
      ((frames packets).map record).flatten := by
    rw [bytesAt_getData, hdata]
  obtain ⟨hframes, hrest⟩ :=
    Framing.frames_unique (isFrame_of_mem_frames hfit) Framing.not_complete_nil
  rw [List.append_nil, ← hbytes] at hframes hrest
  have hlt : total packets < 2 ^ 31 := by
    unfold bufferSize at hfit
    omega
  have hat : VideoUnZip.At 0 (total packets) {} := ⟨rfl, rfl, Nat.zero_le _, rfl⟩
  have hinside : VideoUnZip.Inside (total packets) {} := ⟨nofun, nofun⟩
  rw [getSize, hsize]
  constructor
  · have hsafe : VideoUnZip.SafeFrom (z'.getData front) (total packets) fails {} :=
      (VideoUnZip.safeFrom_iff hlt hat hinside rfl rfl).mpr (Or.inl hrest)
    intro n
    exact (hsafe.2 n).1
  · have htaken : ∀ k <
        (recordFraming.frames (bytesAt (z'.getData front) 0 (total packets))).length,
        fails (0 + k) = false := by
      intro k hk
      rw [hframes, List.length_map] at hk
      rw [Nat.zero_add]
      exact hok k hk
    obtain ⟨n, hresult, hslices⟩ := VideoUnZip.hands_over hlt hat rfl hrest htaken
    refine ⟨n, _, rfl, hresult, ?_⟩
    calc
      _ = (recordFraming.frames (bytesAt (z'.getData front) 0 (total packets))).map
            VideoUnZip.payload := hslices
      _ = (frames packets).map fun frame => ((frame.length : ℤ), frame) := by
          rw [hframes, List.map_map]
          exact List.map_congr_left fun frame _ => payload_record frame

/-- Two frames with a packet of another kind between them. -/
def twoFrames : List CxPacket := [.frame [1, 2], .other, .frame [3]]

theorem decode_encode_twoFrames : ∃ z', encode ⟨fun _ => 0, 0⟩ false twoFrames = (true, z') ∧
    ∃ n s, (VideoUnZip.decode (z'.getData fun _ => 0) z'.getSize fun _ => false).after n {} = s ∧
      s.result = some true ∧
      s.slices.map (VideoUnZip.Slice.handed (z'.getData fun _ => 0)) =
        (frames twoFrames).map fun frame => ((frame.length : ℤ), frame) :=
  ⟨_, rfl, (decode_encode (show encode ⟨fun _ => 0, 0⟩ false twoFrames = (true, _) from rfl)
    (by decide) (fun _ => 0) (fun _ _ => rfl)).2⟩

end VideoZip

end RyuLib
