import RyuLib.Foundations.Footprint
import RyuLib.Video.YuvTools

/-!
# The bytes that the colour conversions touch

Both conversions go over a line in pairs of pixels, and `I420ToARGB` goes over the picture
in pairs of lines, whatever the parity of the sides.  What they read and write is that of
the bodies of their loops, at the pointers that these have by then.

* `mem_planesWrites`, `mem_pictureWrites` and their like: the bytes in terms of the sizes.
* `staysInBuffers_iff`: they are all inside the buffers exactly when both sides are even.
-/

namespace RyuLib

open Foundations

namespace YuvTools

/-! ## RGBtoYUV420 -/

/-- The bytes of `rgb` that a pixel is read from. -/
def pixelReads (s : Planes) : List ℤ := [s.rgbIndex, s.rgbIndex + 1, s.rgbIndex + 2]

/-- The bytes around `yuv` that the samples of a pixel are written to. -/
def pixelWrites (s : Planes) : List ℤ := [s.yline, s.uline, s.vline]

/-- What the two pixels of `putPair` touch. -/
def pairCells (rgb : ℤ → UInt8) (pixelSize : ℕ) (cells : Planes → List ℤ) (s : Planes) : List ℤ :=
  cells s ++ cells (putPixel rgb pixelSize s)

/-- The pointers at the start of line `y`. -/
def startLine (srcFrameWidth srcFrameHeight : ℕ) (s : Planes) (y : ℕ) : Planes :=
  let planeSize : ℤ := srcFrameWidth * srcFrameHeight
  let halfWidth : ℤ := srcFrameWidth / 2
  { s with
    yline := y * srcFrameWidth
    uline := planeSize + y / 2 * halfWidth
    vline := planeSize + planeSize / 4 + y / 2 * halfWidth }

/-- What the loop over `x` touches in line `y`. -/
def lineCells (rgb : ℤ → UInt8) (srcFrameWidth srcFrameHeight pixelSize : ℕ)
    (cells : Planes → List ℤ) (s : Planes) (y : ℕ) : List ℤ :=
  touched (putPair rgb pixelSize) (pairCells rgb pixelSize cells) ((srcFrameWidth + 1) / 2)
    (startLine srcFrameWidth srcFrameHeight s y)

/-- What the whole call touches. -/
def planesCells (rgb yuv : ℤ → UInt8) (srcFrameWidth srcFrameHeight pixelSize : ℕ)
    (cells : Planes → List ℤ) : List ℤ :=
  touchedBy (putLine rgb srcFrameWidth srcFrameHeight pixelSize)
    (lineCells rgb srcFrameWidth srcFrameHeight pixelSize cells) (List.range srcFrameHeight)
    { rgbIndex := 0, yline := 0, uline := 0, vline := 0, yuv := yuv }

section

variable {rgb yuv : ℤ → UInt8} {pixelSize : ℕ} {a : ℤ}

variable (rgb pixelSize) in
/-- Where the pointers are after `pairs` pairs of pixels. -/
theorem putPair_iterate (s : Planes) (pairs : ℕ) :
    ((putPair rgb pixelSize)^[pairs] s).rgbIndex = s.rgbIndex + 2 * pairs * pixelSize ∧
      ((putPair rgb pixelSize)^[pairs] s).yline = s.yline + 2 * pairs ∧
      ((putPair rgb pixelSize)^[pairs] s).uline = s.uline + pairs ∧
      ((putPair rgb pixelSize)^[pairs] s).vline = s.vline + pairs := by
  induction pairs with
  | zero => simp
  | succ pairs ih =>
      rw [Function.iterate_succ_apply']
      generalize (putPair rgb pixelSize)^[pairs] s = t at ih
      obtain ⟨hindex, hy, hu, hv⟩ := ih
      refine ⟨?_, ?_, ?_, ?_⟩
      · show t.rgbIndex + pixelSize + pixelSize = _
        rw [hindex]
        push_cast
        ring
      · show t.yline + 1 + 1 = _
        rw [hy]
        push_cast
        ring
      · show t.uline + 1 = _
        rw [hu]
        push_cast
        ring
      · show t.vline + 1 = _
        rw [hv]
        push_cast
        ring

/-- The pointer into `rgb` is not set back between the lines. -/
theorem putLines_rgbIndex (width height lines : ℕ) :
    (putLines rgb width height pixelSize lines yuv).rgbIndex =
      lines * (2 * ((width + 1) / 2 : ℕ)) * pixelSize := by
  induction lines with
  | zero => simp [putLines]
  | succ lines ih =>
      rw [putLines, List.range_succ, List.foldl_append, ← putLines, List.foldl_cons,
        List.foldl_nil, putLine, (putPair_iterate _ _ _ _).1, ih]
      push_cast
      ring

/-- The bytes of all pixels, counted on from line to line. -/
theorem mem_planesReads {width height : ℕ} :
    a ∈ planesCells rgb yuv width height pixelSize pixelReads ↔
      ∃ y < height, ∃ k < (width + 1) / 2, ∃ i < 2, ∃ c < 3,
        a = (y * (2 * ((width + 1) / 2 : ℕ)) + 2 * k + i : ℕ) * (pixelSize : ℤ) + (c : ℕ) := by
  simp only [planesCells, mem_touchedBy_range, lineCells, mem_touched]
  refine exists_congr fun y => and_congr_right fun _ => exists_congr fun k =>
    and_congr_right fun _ => ?_
  have hindex := (putPair_iterate rgb pixelSize
    (startLine width height (putLines rgb width height pixelSize y yuv) y) k).1
  have hline : (startLine width height (putLines rgb width height pixelSize y yuv) y).rgbIndex =
      y * (2 * ((width + 1) / 2 : ℕ)) * pixelSize := putLines_rgbIndex width height y
  rw [hline] at hindex
  rw [← putLines]
  generalize (putPair rgb pixelSize)^[k] _ = s at hindex
  have hnext : (putPixel rgb pixelSize s).rgbIndex = s.rgbIndex + pixelSize := rfl
  have hplace : ∀ i : ℕ, ((y * (2 * ((width + 1) / 2 : ℕ)) + 2 * k + i : ℕ) : ℤ) * pixelSize =
      s.rgbIndex + i * pixelSize := by
    intro i
    rw [hindex]
    push_cast
    ring
  simp only [pairCells, pixelReads, List.mem_append, List.mem_cons, List.not_mem_nil, or_false,
    hnext, hplace]
  constructor
  · rintro ((h | h | h) | (h | h | h))
    · exact ⟨0, by omega, 0, by omega, by push_cast; omega⟩
    · exact ⟨0, by omega, 1, by omega, by push_cast; omega⟩
    · exact ⟨0, by omega, 2, by omega, by push_cast; omega⟩
    · exact ⟨1, by omega, 0, by omega, by push_cast; omega⟩
    · exact ⟨1, by omega, 1, by omega, by push_cast; omega⟩
    · exact ⟨1, by omega, 2, by omega, by push_cast; omega⟩
  · rintro ⟨i, hi, c, hc, h⟩
    interval_cases i <;> push_cast at h <;> omega

/-- Two samples of luma for each pair of pixels, and one of each chroma. -/
theorem mem_planesWrites {width height : ℕ} :
    a ∈ planesCells rgb yuv width height pixelSize pixelWrites ↔
      ∃ y < height, ∃ k < (width + 1) / 2,
        (a = y * width + 2 * k ∨ a = y * width + 2 * k + 1) ∨
          a = width * height + (y / 2 : ℕ) * (width / 2 : ℕ) + k ∨
          a = width * height + (width * height / 4 : ℕ) + (y / 2 : ℕ) * (width / 2 : ℕ) + k := by
  simp only [planesCells, mem_touchedBy_range, lineCells, mem_touched]
  refine exists_congr fun y => and_congr_right fun _ => exists_congr fun k =>
    and_congr_right fun _ => ?_
  obtain ⟨-, hy, hu, hv⟩ := putPair_iterate rgb pixelSize
    (startLine width height (putLines rgb width height pixelSize y yuv) y) k
  rw [← putLines]
  generalize (putPair rgb pixelSize)^[k] _ = s at hy hu hv
  have hnext : pixelWrites (putPixel rgb pixelSize s) = [s.yline + 1, s.uline, s.vline] := rfl
  rw [pairCells, hnext, pixelWrites, hy, hu, hv]
  simp only [startLine, List.mem_append, List.mem_cons, List.not_mem_nil, or_false]
  push_cast
  tauto

theorem putPair_frame {s : Planes} (h : a ∉ pairCells rgb pixelSize pixelWrites s) :
    (putPair rgb pixelSize s).yuv a = s.yuv a := by
  simp only [pairCells, pixelWrites, putPixel, List.mem_append, List.mem_cons, List.not_mem_nil,
    or_false, not_or] at h
  obtain ⟨⟨hy, hu, hv⟩, hy', -, -⟩ := h
  simp only [putPair, putPixel]
  simp only [Function.update_of_ne hv, Function.update_of_ne hu, Function.update_of_ne hy,
    Function.update_of_ne hy']

/-- What the call does not write keeps its value. -/
theorem rgbtoyuv420_frame {width height : ℕ}
    (h : a ∉ planesCells rgb yuv width height pixelSize pixelWrites) :
    rgbtoyuv420 rgb yuv width height pixelSize a = yuv a := by
  refine foldl_frame (fun s : Planes => s.yuv a) ?_ h
  intro s y hy
  exact iterate_frame (fun s : Planes => s.yuv a) (fun _ => putPair_frame) hy

end

/-! ## I420ToARGB -/

/-- The bytes B, G and R of the pixel at `out`. -/
def colourCells (out : ℤ) : List ℤ := [out, out + 1, out + 2]

def blockWrites (s : Picture) : List ℤ :=
  colourCells s.out ++ colourCells (s.out + 4) ++ (colourCells s.out2 ++ colourCells (s.out2 + 4))

def blockReadsY (s : Picture) : List ℤ := [s.y1, s.y1 + 1, s.y2, s.y2 + 1]

def blockReadsU (s : Picture) : List ℤ := [s.u]

def blockReadsV (s : Picture) : List ℤ := [s.v]

/-- The planes, their strides and the sizes: the arguments of `I420ToARGB` but for the
picture. -/
structure Source where
  srcY : ℤ → UInt8
  srcU : ℤ → UInt8
  srcV : ℤ → UInt8
  srcStrideY : ℤ
  srcStrideU : ℤ
  srcStrideV : ℤ
  width : ℕ
  height : ℕ

namespace Source

variable (S : Source)

/-- The body of the loop over `w`. -/
def block : Picture → Picture := putBlock S.srcY S.srcU S.srcV

/-- The body of the loop over `h`. -/
def twoLines (dstStrideFrame : ℤ) : Picture → Picture :=
  putTwoLines S.srcY S.srcU S.srcV S.srcStrideY S.srcStrideU S.srcStrideV dstStrideFrame S.width

/-- The state after `pairs` pairs of lines. -/
def afterPairs (dstStrideFrame : ℤ) (frame : ℤ → UInt8) (pairs : ℕ) : Picture :=
  (S.twoLines dstStrideFrame)^[pairs] (startPicture S.srcStrideY dstStrideFrame frame)

/-- The picture around `dst_frame`. -/
def toARGB (dstStrideFrame : ℤ) (frame : ℤ → UInt8) : ℤ → UInt8 :=
  (S.afterPairs dstStrideFrame frame ((S.height + 1) / 2)).frame

/-- What the whole call touches. -/
def pictureCells (dstStrideFrame : ℤ) (frame : ℤ → UInt8) (cells : Picture → List ℤ) : List ℤ :=
  touched (S.twoLines dstStrideFrame)
    (fun s => touched S.block cells ((S.width + 1) / 2) s) ((S.height + 1) / 2)
    (startPicture S.srcStrideY dstStrideFrame frame)

variable {dstStrideFrame : ℤ} {frame : ℤ → UInt8} {a : ℤ}

theorem i420ToARGB_eq :
    i420ToARGB (some S.srcY) S.srcStrideY (some S.srcU) S.srcStrideU (some S.srcV) S.srcStrideV
        (some frame) dstStrideFrame S.width S.height =
      (true, some (S.toARGB dstStrideFrame frame)) := rfl

/-- Where the pointers are after `blocks` blocks. -/
theorem block_iterate (s : Picture) (blocks : ℕ) :
    (S.block^[blocks] s).out = s.out + 8 * blocks ∧
      (S.block^[blocks] s).out2 = s.out2 + 8 * blocks ∧
      (S.block^[blocks] s).y1 = s.y1 + 2 * blocks ∧
      (S.block^[blocks] s).y2 = s.y2 + 2 * blocks ∧
      (S.block^[blocks] s).u = s.u + blocks ∧ (S.block^[blocks] s).v = s.v + blocks := by
  induction blocks with
  | zero => simp
  | succ blocks ih =>
      rw [Function.iterate_succ_apply']
      generalize S.block^[blocks] s = t at ih
      obtain ⟨hout, hout2, hy1, hy2, hu, hv⟩ := ih
      have hnext : (S.block t).out = t.out + 8 ∧ (S.block t).out2 = t.out2 + 8 ∧
          (S.block t).y1 = t.y1 + 2 ∧ (S.block t).y2 = t.y2 + 2 ∧ (S.block t).u = t.u + 1 ∧
          (S.block t).v = t.v + 1 := ⟨rfl, rfl, rfl, rfl, rfl, rfl⟩
      obtain ⟨hout', hout2', hy1', hy2', hu', hv'⟩ := hnext
      push_cast
      omega

variable (dstStrideFrame frame) in
/-- Where the pointers are after `pairs` pairs of lines.  A line of the picture starts where
the blocks of the line two above end, and the stride is added only then. -/
theorem afterPairs_pointers (pairs : ℕ) :
    let blocks : ℤ := ((S.width + 1) / 2 : ℕ)
    let s := S.afterPairs dstStrideFrame frame pairs
    s.out = pairs * (8 * blocks + dstStrideFrame) ∧
      s.out2 = dstStrideFrame + pairs * (8 * blocks + dstStrideFrame) ∧
      s.y1 = pairs * (2 * blocks + 2 * S.srcStrideY - S.width) ∧
      s.y2 = S.srcStrideY + pairs * (2 * blocks + 2 * S.srcStrideY - S.width) ∧
      s.u = pairs * S.srcStrideU ∧ s.v = pairs * S.srcStrideV := by
  dsimp only
  induction pairs with
  | zero => simp [afterPairs, startPicture]
  | succ pairs ih =>
      rw [afterPairs, Function.iterate_succ_apply', ← afterPairs]
      generalize S.afterPairs dstStrideFrame frame pairs = s at ih
      obtain ⟨hout, hout2, hy1, hy2, hu, hv⟩ := ih
      obtain ⟨hout', hout2', hy1', hy2', hu', hv'⟩ := S.block_iterate s ((S.width + 1) / 2)
      refine ⟨?_, ?_, ?_, ?_, ?_, ?_⟩
      · show (S.block^[(S.width + 1) / 2] s).out + dstStrideFrame = _
        rw [hout', hout]
        push_cast
        ring
      · show (S.block^[(S.width + 1) / 2] s).out2 + dstStrideFrame = _
        rw [hout2', hout2]
        push_cast
        ring
      · show (S.block^[(S.width + 1) / 2] s).y1 + (2 * S.srcStrideY - S.width) = _
        rw [hy1', hy1]
        push_cast
        ring
      · show (S.block^[(S.width + 1) / 2] s).y2 + (2 * S.srcStrideY - S.width) = _
        rw [hy2', hy2]
        push_cast
        ring
      · show (S.block^[(S.width + 1) / 2] s).u + (S.srcStrideU - ((S.width + 1) / 2 : ℕ)) = _
        rw [hu', hu]
        push_cast
        ring
      · show (S.block^[(S.width + 1) / 2] s).v + (S.srcStrideV - ((S.width + 1) / 2 : ℕ)) = _
        rw [hv', hv]
        push_cast
        ring

theorem mem_pictureCells {cells : Picture → List ℤ} :
    a ∈ S.pictureCells dstStrideFrame frame cells ↔
      ∃ k < (S.height + 1) / 2, ∃ j < (S.width + 1) / 2,
        a ∈ cells (S.block^[j] (S.afterPairs dstStrideFrame frame k)) := by
  simp only [pictureCells, mem_touched]
  rfl

/-- Three bytes for each pixel of the pairs of lines. -/
theorem mem_pictureWrites :
    a ∈ S.pictureCells dstStrideFrame frame blockWrites ↔
      ∃ k < (S.height + 1) / 2, ∃ j < (S.width + 1) / 2, ∃ i < 2, ∃ c < 3,
        a = k * (8 * ((S.width + 1) / 2 : ℕ) + dstStrideFrame) + 8 * j + 4 * (i : ℕ) + (c : ℕ) ∨
          a = dstStrideFrame + k * (8 * ((S.width + 1) / 2 : ℕ) + dstStrideFrame) + 8 * j +
            4 * (i : ℕ) + (c : ℕ) := by
  rw [mem_pictureCells]
  refine exists_congr fun k => and_congr_right fun _ => exists_congr fun j =>
    and_congr_right fun _ => ?_
  obtain ⟨hout, hout2, -⟩ := S.block_iterate (S.afterPairs dstStrideFrame frame k) j
  obtain ⟨hline, hline2, -⟩ := S.afterPairs_pointers dstStrideFrame frame k
  rw [hline] at hout
  rw [hline2] at hout2
  generalize S.block^[j] _ = s at hout hout2
  rw [← hout, ← hout2]
  simp only [blockWrites, colourCells, List.mem_append, List.mem_cons, List.not_mem_nil, or_false]
  constructor
  · rintro (((h | h | h) | (h | h | h)) | ((h | h | h) | (h | h | h)))
    · exact ⟨0, by omega, 0, by omega, by push_cast; omega⟩
    · exact ⟨0, by omega, 1, by omega, by push_cast; omega⟩
    · exact ⟨0, by omega, 2, by omega, by push_cast; omega⟩
    · exact ⟨1, by omega, 0, by omega, by push_cast; omega⟩
    · exact ⟨1, by omega, 1, by omega, by push_cast; omega⟩
    · exact ⟨1, by omega, 2, by omega, by push_cast; omega⟩
    · exact ⟨0, by omega, 0, by omega, by push_cast; omega⟩
    · exact ⟨0, by omega, 1, by omega, by push_cast; omega⟩
    · exact ⟨0, by omega, 2, by omega, by push_cast; omega⟩
    · exact ⟨1, by omega, 0, by omega, by push_cast; omega⟩
    · exact ⟨1, by omega, 1, by omega, by push_cast; omega⟩
    · exact ⟨1, by omega, 2, by omega, by push_cast; omega⟩
  · rintro ⟨i, hi, c, hc, h⟩
    omega

theorem mem_readsY :
    a ∈ S.pictureCells dstStrideFrame frame blockReadsY ↔
      ∃ k < (S.height + 1) / 2, ∃ j < (S.width + 1) / 2, ∃ i < 2,
        a = k * (2 * ((S.width + 1) / 2 : ℕ) + 2 * S.srcStrideY - S.width) + 2 * j + (i : ℕ) ∨
          a = S.srcStrideY + k * (2 * ((S.width + 1) / 2 : ℕ) + 2 * S.srcStrideY - S.width) +
            2 * j + (i : ℕ) := by
  rw [mem_pictureCells]
  refine exists_congr fun k => and_congr_right fun _ => exists_congr fun j =>
    and_congr_right fun _ => ?_
  obtain ⟨-, -, hy1, hy2, -⟩ := S.block_iterate (S.afterPairs dstStrideFrame frame k) j
  obtain ⟨-, -, hline, hline2, -⟩ := S.afterPairs_pointers dstStrideFrame frame k
  rw [hline] at hy1
  rw [hline2] at hy2
  generalize S.block^[j] _ = s at hy1 hy2
  rw [← hy1, ← hy2]
  simp only [blockReadsY, List.mem_cons, List.not_mem_nil, or_false]
  constructor
  · rintro (h | h | h | h)
    · exact ⟨0, by omega, by push_cast; omega⟩
    · exact ⟨1, by omega, by push_cast; omega⟩
    · exact ⟨0, by omega, by push_cast; omega⟩
    · exact ⟨1, by omega, by push_cast; omega⟩
  · rintro ⟨i, hi, h⟩
    omega

/-- One sample of U and one of V for each block. -/
theorem mem_readsUV :
    (a ∈ S.pictureCells dstStrideFrame frame blockReadsU ↔
        ∃ k < (S.height + 1) / 2, ∃ j < (S.width + 1) / 2, a = k * S.srcStrideU + j) ∧
      (a ∈ S.pictureCells dstStrideFrame frame blockReadsV ↔
        ∃ k < (S.height + 1) / 2, ∃ j < (S.width + 1) / 2, a = k * S.srcStrideV + j) := by
  have hpointers : ∀ k j : ℕ, (S.block^[j] (S.afterPairs dstStrideFrame frame k)).u =
      k * S.srcStrideU + j ∧
        (S.block^[j] (S.afterPairs dstStrideFrame frame k)).v = k * S.srcStrideV + j := by
    intro k j
    obtain ⟨-, -, -, -, hu, hv⟩ := S.block_iterate (S.afterPairs dstStrideFrame frame k) j
    obtain ⟨-, -, -, -, hline, hline'⟩ := S.afterPairs_pointers dstStrideFrame frame k
    rw [hu, hv, hline, hline']
    exact ⟨rfl, rfl⟩
  simp only [mem_pictureCells, blockReadsU, blockReadsV, List.mem_singleton, hpointers, and_self]

theorem block_frame {s : Picture} (h : a ∉ blockWrites s) : (S.block s).frame a = s.frame a := by
  simp only [blockWrites, colourCells, List.mem_append, List.mem_cons, List.not_mem_nil, or_false,
    not_or] at h
  obtain ⟨⟨⟨h1, h2, h3⟩, h4, h5, h6⟩, ⟨h7, h8, h9⟩, h10, h11, h12⟩ := h
  unfold block putBlock putColour
  simp only [Function.update_of_ne, ne_eq, h1, h2, h3, h4, h5, h6, h7, h8, h9, h10, h11, h12,
    not_false_eq_true]

/-- What the call does not write keeps its value. -/
theorem toARGB_frame (h : a ∉ S.pictureCells dstStrideFrame frame blockWrites) :
    S.toARGB dstStrideFrame frame a = frame a := by
  refine iterate_frame (fun s : Picture => s.frame a) ?_ h
  intro s hs
  exact iterate_frame (fun s : Picture => s.frame a) (fun _ => S.block_frame) hs

end Source

/-! ## The buffers -/

/-- What the codec library answers to the calls in `VideoZip::open` and `VideoUnZip::open`,
where a call that fails returns something else than 0, or NULL. -/
structure CodecCalls where
  imgAlloc : ℕ → ℕ → Bool
  encConfigDefault : Bool
  encInit : ℕ → ℕ → Bool
  decInit : ℕ → ℕ → Bool

/-- `VideoZip::open` returns true. -/
def CodecCalls.zipOpens (codec : CodecCalls) (width height : ℕ) : Bool :=
  codec.imgAlloc width height && codec.encConfigDefault && codec.encInit width height

/-- `VideoUnZip::open` returns true. -/
def CodecCalls.unzipOpens (codec : CodecCalls) (width height : ℕ) : Bool :=
  codec.decInit width height

/-- The offset of a sample in a plane of so many columns and rows. -/
def InPlane (stride : ℤ) (columns rows : ℕ) (a : ℤ) : Prop :=
  ∃ x < columns, ∃ y < rows, a = (y : ℕ) * stride + (x : ℕ)

/-- The samples of one plane of chroma. -/
def chromaSize (width height : ℕ) : ℕ := (width + 1) / 2 * ((height + 1) / 2)

/-- What the conversions of a picture in `VideoZip::encode`, with its `PIXEL_SIZE` of 3, and in
`VideoUnZip::decode` touch is inside the buffers and the planes. -/
structure StaysInBuffers (S : Source) (rgb yuv frame : ℤ → UInt8) : Prop where
  rgbReads : ∀ a ∈ planesCells rgb yuv S.width S.height 3 pixelReads,
    0 ≤ a ∧ a < S.width * S.height * 3
  yuvWrites : ∀ a ∈ planesCells rgb yuv S.width S.height 3 pixelWrites,
    0 ≤ a ∧ a < S.width * S.height + 2 * chromaSize S.width S.height
  frameWrites : ∀ a ∈ S.pictureCells (S.width * 4) frame blockWrites,
    0 ≤ a ∧ a < S.width * S.height * 4
  readsY : ∀ a ∈ S.pictureCells (S.width * 4) frame blockReadsY,
    InPlane S.srcStrideY S.width S.height a
  readsU : ∀ a ∈ S.pictureCells (S.width * 4) frame blockReadsU,
    InPlane S.srcStrideU ((S.width + 1) / 2) ((S.height + 1) / 2) a
  readsV : ∀ a ∈ S.pictureCells (S.width * 4) frame blockReadsV,
    InPlane S.srcStrideV ((S.width + 1) / 2) ((S.height + 1) / 2) a

section

variable {S : Source} {rgb yuv frame : ℤ → UInt8}

/-- Lines of an even width are read to their ends and not beyond. -/
theorem rgbReads_iff {width height : ℕ} (hheight : 1 ≤ height) :
    (∀ a ∈ planesCells rgb yuv width height 3 pixelReads, 0 ≤ a ∧ a < width * height * 3) ↔
      Even width := by
  constructor
  · intro h
    by_contra hodd
    rw [Nat.not_even_iff] at hodd
    -- the last byte of the pixel that is one too many in the last line
    have hblocks : 2 * ((width + 1) / 2) = width + 1 := by omega
    have hlast := h _ (mem_planesReads.mpr ⟨height - 1, by omega, (width + 1) / 2 - 1, by omega,
      1, by omega, 2, by omega, rfl⟩)
    rw [hblocks, show 2 * ((width + 1) / 2 - 1) = width - 1 by omega] at hlast
    obtain ⟨lines, rfl⟩ := Nat.exists_eq_add_of_le' hheight
    rw [Nat.add_sub_cancel] at hlast
    have hpixels : lines * (width + 1) + (width - 1) + 1 = lines * width + lines + width := by
      rw [mul_add, mul_one]
      omega
    rw [hpixels] at hlast
    have htotal : (width : ℤ) * ((lines + 1 : ℕ) : ℤ) = lines * width + width := by
      push_cast
      ring
    push_cast at hlast htotal
    omega
  · intro heven a ha
    obtain ⟨y, hy, k, hk, i, hi, c, hc, rfl⟩ := mem_planesReads.mp ha
    have hblocks : 2 * ((width + 1) / 2) = width := by
      have := Nat.even_iff.mp heven
      omega
    rw [hblocks]
    have hline : (y + 1) * width ≤ height * width := Nat.mul_le_mul_right width hy
    rw [add_mul, one_mul] at hline
    have htotal : (width : ℤ) * height = (height * width : ℕ) := by
      push_cast
      ring
    rw [htotal]
    push_cast at *
    omega

/-- The pixels of an even width are written inside the planes. -/
theorem yuvWrites_of_even {width height : ℕ} (heven : Even width) {a : ℤ}
    (ha : a ∈ planesCells rgb yuv width height 3 pixelWrites) :
    0 ≤ a ∧ a < width * height + 2 * chromaSize width height := by
  obtain ⟨half, rfl⟩ := heven.two_dvd
  obtain ⟨y, hy, k, hk, hplace⟩ := mem_planesWrites.mp ha
  have hblocks : (2 * half + 1) / 2 = half := by omega
  have hhalf : 2 * half / 2 = half := by omega
  rw [hblocks] at hk
  rw [hhalf] at hplace
  rw [chromaSize, hblocks]
  have hline : (y + 1) * (2 * half) ≤ height * (2 * half) := Nat.mul_le_mul_right _ hy
  have hchroma : (y / 2 + 1) * half ≤ (height + 1) / 2 * half :=
    Nat.mul_le_mul_right half (by omega)
  -- the plane of U is a quarter of the plane of Y, and at most what the image has for it
  have hquarter : 2 * half * height / 4 ≤ (height + 1) / 2 * half := by
    have hround : height * half ≤ 2 * ((height + 1) / 2) * half :=
      Nat.mul_le_mul_right half (by omega)
    rw [mul_assoc, mul_comm half height]
    rw [mul_assoc] at hround
    omega
  rw [add_mul, one_mul] at hline hchroma
  rw [mul_comm height] at hline
  rw [mul_comm half]
  have hplane : ((2 * half : ℕ) : ℤ) * height = (2 * half * height : ℕ) := by push_cast; rfl
  have hyline : (y : ℤ) * (2 * half : ℕ) = (y * (2 * half) : ℕ) := by push_cast; rfl
  have hcline : ((y / 2 : ℕ) : ℤ) * half = (y / 2 * half : ℕ) := by push_cast; rfl
  rw [hplane, hyline, hcline] at hplace
  rw [hplane]
  generalize 2 * half * height = planeSize at *
  generalize y * (2 * half) = line at *
  generalize y / 2 * half = chromaLine at *
  generalize (height + 1) / 2 * half = chromaPlane at *
  omega

/-- An offset in a plane is at most that of its last sample. -/
theorem InPlane.le {stride : ℤ} {columns rows : ℕ} {a : ℤ} (h : InPlane stride columns rows a)
    (hstride : (columns : ℤ) ≤ stride) : a ≤ (rows - 1) * stride + columns - 1 := by
  obtain ⟨x, hx, y, hy, rfl⟩ := h
  have hrow : (y : ℤ) * stride ≤ (rows - 1) * stride :=
    mul_le_mul_of_nonneg_right (by omega) (by omega)
  omega

/-- The last sample of Y that is read lies behind the plane, if one of the sides is odd. -/
theorem even_of_readsY (hwidth : 1 ≤ S.width) (hheight : 1 ≤ S.height)
    (hstride : (S.width : ℤ) ≤ S.srcStrideY) {dstStrideFrame : ℤ}
    (h : ∀ a ∈ S.pictureCells dstStrideFrame frame blockReadsY,
      InPlane S.srcStrideY S.width S.height a) : Even S.width ∧ Even S.height := by
  have hlast := (h _ (S.mem_readsY.mpr ⟨(S.height + 1) / 2 - 1, by omega, (S.width + 1) / 2 - 1,
    by omega, 1, by omega, Or.inr rfl⟩)).le hstride
  rw [Nat.even_iff, Nat.even_iff]
  obtain ⟨pairs, hpairs⟩ : ∃ pairs, (S.height + 1) / 2 = pairs + 1 := ⟨(S.height + 1) / 2 - 1,
    by omega⟩
  obtain ⟨blocks, hblocks⟩ : ∃ blocks, (S.width + 1) / 2 = blocks + 1 := ⟨(S.width + 1) / 2 - 1,
    by omega⟩
  rw [hpairs, hblocks, Nat.add_sub_cancel, Nat.add_sub_cancel] at hlast
  push_cast at hlast
  -- every pair of lines goes on by two lines and by the pixel that is too many
  obtain ⟨extra, hextra⟩ := Nat.exists_eq_add_of_le (show S.width ≤ 2 * (blocks + 1) by omega)
  have hdrift : (0 : ℤ) ≤ pairs * extra := by positivity
  have hgo : (pairs : ℤ) * (2 * (blocks + 1) + 2 * S.srcStrideY - S.width) =
      2 * pairs * S.srcStrideY + pairs * extra := by
    rw [show (2 * ((blocks : ℤ) + 1)) = S.width + extra by exact_mod_cast hextra]
    ring
  rw [hgo] at hlast
  have hrows : ((S.height : ℤ) - 1) * S.srcStrideY =
      2 * pairs * S.srcStrideY + ((S.height : ℤ) - 1 - 2 * pairs) * S.srcStrideY := by ring
  rw [hrows] at hlast
  rcases Nat.even_or_odd' S.height with ⟨half, heven | hodd⟩
  · have hrest : (S.height : ℤ) - 1 - 2 * pairs = 1 := by omega
    rw [hrest, one_mul] at hlast
    omega
  · have hrest : (S.height : ℤ) - 1 - 2 * pairs = 0 := by omega
    rw [hrest, zero_mul] at hlast
    omega

variable (rgb yuv frame) in
/-- With even sides everything is where it should be. -/
theorem staysInBuffers_of_even (hwidth : Even S.width) (hheight : Even S.height)
    (hheight' : 1 ≤ S.height) : StaysInBuffers S rgb yuv frame := by
  obtain ⟨a, ha⟩ := hwidth.two_dvd
  obtain ⟨b, hb⟩ := hheight.two_dvd
  have hblocks : (S.width + 1) / 2 = a := by omega
  have hpairs : (S.height + 1) / 2 = b := by omega
  refine ⟨(rgbReads_iff hheight').mpr hwidth, fun _ => yuvWrites_of_even hwidth, ?_, ?_, ?_, ?_⟩
  · intro i hi
    obtain ⟨k, hk, j, hj, l, hl, c, hc, hplace⟩ := S.mem_pictureWrites.mp hi
    rw [hpairs] at hk
    rw [hblocks] at hj hplace
    have hlines : (8 * (a : ℤ) + S.width * 4) = 16 * a := by omega
    have htotal : (S.width : ℤ) * S.height * 4 = b * (16 * a) := by
      rw [ha, hb]
      push_cast
      ring
    have hline : (k : ℤ) * (16 * a) + 16 * a ≤ b * (16 * a) := line_le (by omega) (by omega)
    have hpos : (0 : ℤ) ≤ k * (16 * a) := by positivity
    rw [hlines] at hplace
    omega
  · intro i hi
    obtain ⟨k, hk, j, hj, l, hl, hplace⟩ := S.mem_readsY.mp hi
    rw [hpairs] at hk
    rw [hblocks] at hj hplace
    have hlines : 2 * (a : ℤ) + 2 * S.srcStrideY - S.width = 2 * S.srcStrideY := by omega
    rw [hlines] at hplace
    rcases hplace with hupper | hlower
    · refine ⟨2 * j + l, by omega, 2 * k, by omega, ?_⟩
      rw [hupper]
      push_cast
      ring
    · refine ⟨2 * j + l, by omega, 2 * k + 1, by omega, ?_⟩
      rw [hlower]
      push_cast
      ring
  · intro i hi
    obtain ⟨k, hk, j, hj, rfl⟩ := S.mem_readsUV.1.mp hi
    exact ⟨j, hj, k, hk, rfl⟩
  · intro i hi
    obtain ⟨k, hk, j, hj, rfl⟩ := S.mem_readsUV.2.mp hi
    exact ⟨j, hj, k, hk, rfl⟩

/-- The conversions of a picture stay in their buffers if and only if both of its sides are
even. -/
theorem staysInBuffers_iff (S : Source) (rgb yuv frame : ℤ → UInt8) (hwidth : 1 ≤ S.width)
    (hheight : 1 ≤ S.height) (hstride : (S.width : ℤ) ≤ S.srcStrideY) :
    StaysInBuffers S rgb yuv frame ↔ Even S.width ∧ Even S.height := by
  constructor
  · intro h
    exact even_of_readsY hwidth hheight hstride h.readsY
  · rintro ⟨hevenWidth, hevenHeight⟩
    exact staysInBuffers_of_even rgb yuv frame hevenWidth hevenHeight hheight

/-- Planes of zeros without padding. -/
def blackSource (width height : ℕ) : Source where
  srcY := fun _ => 0
  srcU := fun _ => 0
  srcV := fun _ => 0
  srcStrideY := width
  srcStrideU := ((width + 1) / 2 : ℕ)
  srcStrideV := ((width + 1) / 2 : ℕ)
  width := width
  height := height

theorem staysInBuffers_iff_two_lines :
    StaysInBuffers (blackSource 4 2) (fun _ => 0) (fun _ => 0) (fun _ => 0) ↔ Even 4 ∧ Even 2 :=
  staysInBuffers_iff (blackSource 4 2) _ _ _ (by decide) (by decide) (by decide)

/-- A picture of 3 by 2 pixels: the second line ends with the bytes 21 to 23 of 18. -/
theorem not_staysInBuffers_odd :
    ¬ ∀ (codec : CodecCalls) (S : Source) (rgb yuv frame : ℤ → UInt8), 1 ≤ S.width →
      1 ≤ S.height → codec.zipOpens S.width S.height = true →
      codec.unzipOpens S.width S.height = true → (S.width : ℤ) ≤ S.srcStrideY →
      ((S.width + 1) / 2 : ℕ) ≤ S.srcStrideU → ((S.width + 1) / 2 : ℕ) ≤ S.srcStrideV →
      StaysInBuffers S rgb yuv frame := by
  intro h
  have hstays := h ⟨fun _ _ => true, true, fun _ _ => true, fun _ _ => true⟩ (blackSource 3 2)
    (fun _ => 0) (fun _ => 0) (fun _ => 0) (by decide) (by decide) rfl rfl (by decide) (by decide)
    (by decide)
  have hread := hstays.rgbReads 23 (mem_planesReads.mpr ⟨1, by decide, 1, by decide, 1, by decide,
    2, by decide, by decide⟩)
  exact absurd hread.2 (by decide)

end

end YuvTools

end RyuLib
