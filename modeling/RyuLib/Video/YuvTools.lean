import Mathlib.Tactic

/-!
# The colour conversions of yuv_tools

`RGBtoYUV420` writes a picture as a plane of Y samples, one for each pixel, and two planes
of U and V samples, one for each 2x2 block.  `I420ToARGB` reads such planes and writes
pixels of four bytes, two lines at a time.  Memory is a function of the offset from the
pointer in question, and the pointers that the loops move are part of their state.

* `linesPut`: what `RGBtoYUV420` leaves in its planes.
* `twoLinesPut`: what `I420ToARGB` leaves in its picture.

The sizes are natural numbers: their products are within an `int`.
-/

namespace RyuLib

namespace YuvTools

open Function (update)

/-! ## RGBtoYUV420 -/

def rgbtoy (b g r : UInt8) : UInt8 :=
  UInt8.ofInt ((30 * (r.toNat : ℤ) + 59 * g.toNat + 11 * b.toNat).tdiv 100)

/-- The three assignments of `rgbtoyuv`. -/
def rgbtoyuv (b g r : UInt8) : UInt8 × UInt8 × UInt8 :=
  (rgbtoy b g r,
    UInt8.ofInt ((-17 * (r.toNat : ℤ) - 33 * g.toNat + 50 * b.toNat + 12800).tdiv 100),
    UInt8.ofInt ((50 * (r.toNat : ℤ) - 42 * g.toNat - 8 * b.toNat + 12800).tdiv 100))

/-- The pointers of `RGBtoYUV420` as offsets from `rgb` and from `yuv`, and the memory
around `yuv`. -/
structure Planes where
  rgbIndex : ℤ
  yline : ℤ
  uline : ℤ
  vline : ℤ
  yuv : ℤ → UInt8

/-- One pixel: its sample in each of the lines. -/
def putPixel (rgb : ℤ → UInt8) (pixelSize : ℕ) (s : Planes) : Planes :=
  let (y, u, v) := rgbtoyuv (rgb s.rgbIndex) (rgb (s.rgbIndex + 1)) (rgb (s.rgbIndex + 2))
  { s with
    yuv := update (update (update s.yuv s.yline y) s.uline u) s.vline v
    rgbIndex := s.rgbIndex + pixelSize
    yline := s.yline + 1 }

/-- The body of the loop over `x`. -/
def putPair (rgb : ℤ → UInt8) (pixelSize : ℕ) (s : Planes) : Planes :=
  let s := putPixel rgb pixelSize (putPixel rgb pixelSize s)
  { s with uline := s.uline + 1, vline := s.vline + 1 }

/-- The body of the loop over `y`. -/
def putLine (rgb : ℤ → UInt8) (srcFrameWidth srcFrameHeight pixelSize : ℕ) (s : Planes) (y : ℕ) :
    Planes :=
  let planeSize : ℤ := srcFrameWidth * srcFrameHeight
  let halfWidth : ℤ := srcFrameWidth / 2
  (putPair rgb pixelSize)^[(srcFrameWidth + 1) / 2]
    { s with
      yline := y * srcFrameWidth
      uline := planeSize + y / 2 * halfWidth
      vline := planeSize + planeSize / 4 + y / 2 * halfWidth }

/-- The loop over the lines, up to line `lines`. -/
def putLines (rgb : ℤ → UInt8) (srcFrameWidth srcFrameHeight pixelSize lines : ℕ)
    (yuv : ℤ → UInt8) : Planes :=
  (List.range lines).foldl (putLine rgb srcFrameWidth srcFrameHeight pixelSize)
    { rgbIndex := 0, yline := 0, uline := 0, vline := 0, yuv := yuv }

/-- The memory around `yuv` after the call. -/
def rgbtoyuv420 (rgb yuv : ℤ → UInt8) (srcFrameWidth srcFrameHeight pixelSize : ℕ) : ℤ → UInt8 :=
  (putLines rgb srcFrameWidth srcFrameHeight pixelSize srcFrameHeight yuv).yuv

/-- The samples of the pixel with number `n`. -/
def samples (rgb : ℤ → UInt8) (pixelSize : ℕ) (n : ℤ) : UInt8 × UInt8 × UInt8 :=
  rgbtoyuv (rgb (n * pixelSize)) (rgb (n * pixelSize + 1)) (rgb (n * pixelSize + 2))

/-- What `pairs` pairs of pixels, from number `k` on, leave in the lines of `s`. -/
structure PairsPut (rgb : ℤ → UInt8) (pixelSize pairs : ℕ) (k : ℤ) (s t : Planes) : Prop where
  rgbIndex : t.rgbIndex = (k + 2 * pairs) * pixelSize
  yline : t.yline = s.yline + 2 * pairs
  uline : t.uline = s.uline + pairs
  vline : t.vline = s.vline + pairs
  luma : ∀ i : ℤ, 0 ≤ i → i < 2 * pairs → t.yuv (s.yline + i) = (samples rgb pixelSize (k + i)).1
  chroma : ∀ i : ℤ, 0 ≤ i → i < pairs →
    t.yuv (s.uline + i) = (samples rgb pixelSize (k + 2 * i + 1)).2.1 ∧
      t.yuv (s.vline + i) = (samples rgb pixelSize (k + 2 * i + 1)).2.2
  frame : ∀ a : ℤ, (a < s.yline ∨ s.yline + 2 * pairs ≤ a) →
    (a < s.uline ∨ s.uline + pairs ≤ a) → (a < s.vline ∨ s.vline + pairs ≤ a) → t.yuv a = s.yuv a

section

variable {rgb yuv : ℤ → UInt8} {pixelSize : ℕ} {s : Planes} {k : ℤ}

variable (rgb) in
/-- A pair of pixels: two samples of luma, and the chroma of the second one. -/
theorem putPair_yuv (hk : s.rgbIndex = k * pixelSize) :
    (putPair rgb pixelSize s).yuv =
      update (update (update (update (update (update s.yuv
        s.yline (samples rgb pixelSize k).1)
        s.uline (samples rgb pixelSize k).2.1)
        s.vline (samples rgb pixelSize k).2.2)
        (s.yline + 1) (samples rgb pixelSize (k + 1)).1)
        s.uline (samples rgb pixelSize (k + 1)).2.1)
        s.vline (samples rgb pixelSize (k + 1)).2.2 := by
  have hnext : k * pixelSize + (pixelSize : ℤ) = (k + 1) * pixelSize := by ring
  simp only [putPair, putPixel, samples, hk, hnext]

/-- One more pair. -/
theorem PairsPut.succ {pairs : ℕ} {t : Planes} (h : PairsPut rgb pixelSize pairs k s t)
    (hu : s.yline + 2 * (pairs + 1) ≤ s.uline) (hv : s.uline + (pairs + 1) ≤ s.vline) :
    PairsPut rgb pixelSize (pairs + 1) k s (putPair rgb pixelSize t) := by
  have hyuv := putPair_yuv rgb h.rgbIndex
  rw [h.yline, h.uline, h.vline] at hyuv
  refine ⟨?_, ?_, ?_, ?_, ?_, ?_, ?_⟩
  · show t.rgbIndex + pixelSize + pixelSize = _
    rw [h.rgbIndex]
    push_cast
    ring
  · show t.yline + 1 + 1 = _
    rw [h.yline]
    push_cast
    ring
  · show t.uline + 1 = _
    rw [h.uline]
    push_cast
    ring
  · show t.vline + 1 = _
    rw [h.vline]
    push_cast
    ring
  · intro i h0 hi
    push_cast at hi
    rw [hyuv]
    rcases lt_trichotomy i (2 * pairs) with hlt | rfl | hgt
    · have hold := h.luma i h0 hlt
      simp (disch := omega) only [Function.update_of_ne, hold]
    · simp (disch := omega) only [Function.update_of_ne, Function.update_self]
    · obtain rfl : i = 2 * pairs + 1 := by omega
      rw [← add_assoc, ← add_assoc]
      simp (disch := omega) only [Function.update_of_ne, Function.update_self]
  · intro i h0 hi
    push_cast at hi
    rw [hyuv]
    rcases eq_or_ne i pairs with rfl | hne
    · constructor
      · simp (disch := omega) only [Function.update_of_ne, Function.update_self]
      · simp only [Function.update_self]
    · obtain ⟨holdu, holdv⟩ := h.chroma i h0 (by omega)
      constructor
      · simp (disch := omega) only [Function.update_of_ne, holdu]
      · simp (disch := omega) only [Function.update_of_ne, holdv]
  · intro a hay hau hav
    push_cast at hay hau hav
    rw [hyuv]
    simp (disch := omega) only [Function.update_of_ne]
    exact h.frame a (by omega) (by omega) (by omega)

variable (rgb pixelSize) in
theorem pairsPut (pairs : ℕ) (hk : s.rgbIndex = k * pixelSize)
    (hu : s.yline + 2 * pairs ≤ s.uline) (hv : s.uline + pairs ≤ s.vline) :
    PairsPut rgb pixelSize pairs k s ((putPair rgb pixelSize)^[pairs] s) := by
  induction pairs with
  | zero =>
      refine ⟨by simpa using hk, by simp, by simp, by simp, ?_, ?_, fun _ _ _ _ => rfl⟩
      · intro i h0 hi
        omega
      · intro i h0 hi
        omega
  | succ pairs ih =>
      push_cast at hu hv
      rw [Function.iterate_succ_apply']
      exact (ih (by omega) (by omega)).succ hu hv

/-! ### All lines

The sides of the picture are `2 * a` and `2 * b`. -/

/-- What the first `lines` lines leave in the planes.  A line of chroma is final after the
second of its two lines of pixels. -/
structure LinesPut (rgb : ℤ → UInt8) (a b pixelSize lines : ℕ) (t : Planes) : Prop where
  rgbIndex : t.rgbIndex = lines * (2 * a) * pixelSize
  luma : ∀ x y : ℤ, 0 ≤ x → x < 2 * a → 0 ≤ y → y < lines →
    t.yuv (y * (2 * a) + x) = (samples rgb pixelSize (y * (2 * a) + x)).1
  chroma : ∀ i j : ℤ, 0 ≤ i → i < a → 0 ≤ j → 2 * j + 2 ≤ lines →
    t.yuv (4 * (a * b) + j * a + i) =
        (samples rgb pixelSize ((2 * j + 1) * (2 * a) + 2 * i + 1)).2.1 ∧
      t.yuv (5 * (a * b) + j * a + i) =
        (samples rgb pixelSize ((2 * j + 1) * (2 * a) + 2 * i + 1)).2.2

/-- Where the lines start. -/
theorem putLine_eq {a b : ℕ} (s : Planes) (y : ℕ) :
    putLine rgb (2 * a) (2 * b) pixelSize s y =
      (putPair rgb pixelSize)^[a]
        { s with
          yline := y * (2 * a)
          uline := 4 * (a * b) + (y / 2 : ℕ) * a
          vline := 5 * (a * b) + (y / 2 : ℕ) * a } := by
  have hpairs : (2 * a + 1) / 2 = a := by omega
  have hplane : ((2 * a : ℕ) : ℤ) * (2 * b : ℕ) = 4 * (a * b) := by
    push_cast
    ring
  have hquarter : (4 * ((a : ℤ) * b)) / 4 = a * b := by omega
  have hhalf : ((2 * a : ℕ) : ℤ) / 2 = a := by omega
  simp only [putLine, hpairs, hplane, hquarter, hhalf]
  congr 2
  push_cast
  ring

/-- A line that ends before another one. -/
theorem line_le {m n w : ℤ} (hlt : m < n) (hw : 0 ≤ w) : m * w + w ≤ n * w := by
  calc m * w + w = (m + 1) * w := by ring
    _ ≤ n * w := mul_le_mul_of_nonneg_right hlt hw

/-- One more line: the new line of luma lies in front of the chroma, and its line of U in front
of V. -/
theorem LinesPut.succ {a b lines : ℕ} (h : LinesPut rgb a b pixelSize lines s)
    (hlines : lines < 2 * b) :
    LinesPut rgb a b pixelSize (lines + 1) (putLine rgb (2 * a) (2 * b) pixelSize s lines) := by
  have hyline : (lines : ℤ) * (2 * a) + 2 * a ≤ 4 * (a * b) := by
    calc (lines : ℤ) * (2 * a) + 2 * a
        ≤ 2 * b * (2 * a) := line_le (by exact_mod_cast hlines) (by positivity)
      _ = 4 * (a * b) := by ring
  have huline : ((lines / 2 : ℕ) : ℤ) * a + a ≤ a * b := by
    calc ((lines / 2 : ℕ) : ℤ) * a + a
        ≤ b * a := line_le (by omega) (by positivity)
      _ = a * b := mul_comm _ _
  have hchroma : 0 ≤ ((lines / 2 : ℕ) : ℤ) * a := by positivity
  have hput := pairsPut rgb pixelSize (k := lines * (2 * a)) a
    (s := { s with
      yline := lines * (2 * a)
      uline := 4 * (a * b) + (lines / 2 : ℕ) * a
      vline := 5 * (a * b) + (lines / 2 : ℕ) * a }) h.rgbIndex
    (by dsimp only; omega) (by dsimp only; omega)
  rw [putLine_eq]
  generalize (putPair rgb pixelSize)^[a] _ = t at hput
  obtain ⟨hindex, -, -, -, hluma, hchromas, hframe⟩ := hput
  dsimp only at hluma hchromas hframe
  refine ⟨?_, ?_, ?_⟩
  · rw [hindex]
    push_cast
    ring
  · intro x y hx0 hx hy0 hy
    push_cast at hy
    by_cases hlast : y = lines
    · rw [hlast]
      exact hluma x hx0 hx
    · have habove : y * (2 * a) + 2 * a ≤ lines * (2 * a) :=
        line_le (by omega) (by positivity)
      rw [hframe _ (by omega) (by omega) (by omega)]
      exact h.luma x y hx0 hx hy0 (by omega)
  · intro i j hi0 hi hj0 hj
    push_cast at hj
    by_cases hlast : 2 * j + 1 = lines
    · have hhalf : ((lines / 2 : ℕ) : ℤ) = j := by omega
      rw [hhalf] at hchromas
      obtain ⟨hu, hv⟩ := hchromas i hi0 hi
      rw [← hlast] at hu hv
      exact ⟨hu, hv⟩
    · have habove : j * a + a ≤ ((lines / 2 : ℕ) : ℤ) * a :=
        line_le (by omega) (by positivity)
      have hj0a : 0 ≤ j * a := by positivity
      obtain ⟨hu, hv⟩ := h.chroma i j hi0 hi hj0 (by omega)
      constructor
      · rw [hframe _ (by omega) (by omega) (by omega), hu]
      · rw [hframe _ (by omega) (by omega) (by omega), hv]

variable (rgb yuv pixelSize) in
theorem linesPut {a b : ℕ} {lines : ℕ} (hlines : lines ≤ 2 * b) :
    LinesPut rgb a b pixelSize lines (putLines rgb (2 * a) (2 * b) pixelSize lines yuv) := by
  induction lines with
  | zero =>
      refine ⟨by simp [putLines], ?_, ?_⟩
      · intro x y _ _ h0 hy
        omega
      · intro i j _ _ h0 hj
        omega
  | succ lines ih =>
      rw [putLines, List.range_succ, List.foldl_append, ← putLines, List.foldl_cons, List.foldl_nil]
      exact (ih (by omega)).succ hlines

end

/-! ## I420ToARGB -/

def mapYc (i : UInt8) : ℤ := 298 * ((i.toNat : ℤ) - 16)

def mapUcg (i : UInt8) : ℤ := -100 * ((i.toNat : ℤ) - 128)

def mapUcb (i : UInt8) : ℤ := 516 * ((i.toNat : ℤ) - 128)

def mapVcr (i : UInt8) : ℤ := 409 * ((i.toNat : ℤ) - 128)

def mapVcg (i : UInt8) : ℤ := -208 * ((i.toNat : ℤ) - 128)

def clip (val : ℤ) : UInt8 :=
  if val < 0 then 0 else if val > 255 then 255 else UInt8.ofInt val

/-- The bytes B, G and R of a pixel: `tmp_b`, `tmp_g` and `tmp_r`, clipped. -/
def colour (y u v : UInt8) : UInt8 × UInt8 × UInt8 :=
  (clip ((mapYc y + mapUcb u + 128) >>> (8 : ℕ)),
    clip ((mapYc y + mapUcg u + mapVcg v + 128) >>> (8 : ℕ)),
    clip ((mapYc y + mapVcr v + 128) >>> (8 : ℕ)))

/-- The assignments to `out[0]`, `out[1]` and `out[2]`. -/
def putColour (frame : ℤ → UInt8) (out : ℤ) (c : UInt8 × UInt8 × UInt8) : ℤ → UInt8 :=
  update (update (update frame out c.1) (out + 1) c.2.1) (out + 2) c.2.2

/-- The pointers of `I420ToARGB` as offsets from the arguments they start at, and the
memory around `dst_frame`. -/
structure Picture where
  out : ℤ
  out2 : ℤ
  y1 : ℤ
  y2 : ℤ
  u : ℤ
  v : ℤ
  frame : ℤ → UInt8

/-- The body of the loop over `w`: two pixels of each of the two lines. -/
def putBlock (srcY srcU srcV : ℤ → UInt8) (s : Picture) : Picture :=
  let frame := putColour s.frame s.out (colour (srcY s.y1) (srcU s.u) (srcV s.v))
  let frame := putColour frame (s.out + 4) (colour (srcY (s.y1 + 1)) (srcU s.u) (srcV s.v))
  let frame := putColour frame s.out2 (colour (srcY s.y2) (srcU s.u) (srcV s.v))
  let frame := putColour frame (s.out2 + 4) (colour (srcY (s.y2 + 1)) (srcU s.u) (srcV s.v))
  { out := s.out + 8, out2 := s.out2 + 8, y1 := s.y1 + 2, y2 := s.y2 + 2, u := s.u + 1
    v := s.v + 1, frame := frame }

/-- The body of the loop over `h`. -/
def putTwoLines (srcY srcU srcV : ℤ → UInt8) (srcStrideY srcStrideU srcStrideV dstStrideFrame : ℤ)
    (width : ℕ) (s : Picture) : Picture :=
  let blocks := (width + 1) / 2
  let s := (putBlock srcY srcU srcV)^[blocks] s
  { s with
    y1 := s.y1 + (2 * srcStrideY - width)
    y2 := s.y2 + (2 * srcStrideY - width)
    u := s.u + (srcStrideU - blocks)
    v := s.v + (srcStrideV - blocks)
    out := s.out + dstStrideFrame
    out2 := s.out2 + dstStrideFrame }

/-- The pointers at the start. -/
def startPicture (srcStrideY dstStrideFrame : ℤ) (frame : ℤ → UInt8) : Picture :=
  { out := 0, out2 := dstStrideFrame, y1 := 0, y2 := srcStrideY, u := 0, v := 0, frame := frame }

/-- The return value and the memory around `dst_frame`; `none` is NULL. -/
def i420ToARGB (srcY : Option (ℤ → UInt8)) (srcStrideY : ℤ) (srcU : Option (ℤ → UInt8))
    (srcStrideU : ℤ) (srcV : Option (ℤ → UInt8)) (srcStrideV : ℤ) (dstFrame : Option (ℤ → UInt8))
    (dstStrideFrame : ℤ) (width height : ℕ) : Bool × Option (ℤ → UInt8) :=
  match srcY, srcU, srcV, dstFrame with
  | some srcY, some srcU, some srcV, some frame =>
      (true, some
        ((putTwoLines srcY srcU srcV srcStrideY srcStrideU srcStrideV dstStrideFrame
          width)^[(height + 1) / 2] (startPicture srcStrideY dstStrideFrame frame)).frame)
  | _, _, _, _ => (false, dstFrame)

/-- The three bytes at `out`. -/
def Shows (frame : ℤ → UInt8) (out : ℤ) (c : UInt8 × UInt8 × UInt8) : Prop :=
  frame out = c.1 ∧ frame (out + 1) = c.2.1 ∧ frame (out + 2) = c.2.2

theorem shows_putColour (frame : ℤ → UInt8) (out : ℤ) (c : UInt8 × UInt8 × UInt8) :
    Shows (putColour frame out c) out c := by
  unfold Shows putColour
  simp (disch := omega) only [Function.update_of_ne, Function.update_self, and_self]

theorem putColour_frame (frame : ℤ → UInt8) {out a : ℤ} (c : UInt8 × UInt8 × UInt8)
    (h : a < out ∨ out + 2 < a) : putColour frame out c a = frame a := by
  unfold putColour
  simp (disch := omega) only [Function.update_of_ne]

theorem Shows.congr {frame frame' : ℤ → UInt8} {out : ℤ} {c : UInt8 × UInt8 × UInt8}
    (h : Shows frame out c) (hframe : ∀ a, out ≤ a → a ≤ out + 2 → frame' a = frame a) :
    Shows frame' out c := by
  obtain ⟨hb, hg, hr⟩ := h
  refine ⟨?_, ?_, ?_⟩
  · rw [hframe _ (by omega) (by omega), hb]
  · rw [hframe _ (by omega) (by omega), hg]
  · rw [hframe _ (by omega) (by omega), hr]

theorem Shows.putColour {frame : ℤ → UInt8} {at' out : ℤ} {c : UInt8 × UInt8 × UInt8}
    (h : Shows frame at' c) (c' : UInt8 × UInt8 × UInt8) (hapart : at' + 2 < out ∨ out + 2 < at') :
    Shows (putColour frame out c') at' c :=
  h.congr fun a _ _ => putColour_frame frame c' (by omega)

section

variable {srcY srcU srcV frame : ℤ → UInt8}

/-- What `blocks` blocks leave in the two lines of `s`. -/
structure BlocksPut (srcY srcU srcV : ℤ → UInt8) (blocks : ℕ) (s t : Picture) : Prop where
  out : t.out = s.out + 8 * blocks
  out2 : t.out2 = s.out2 + 8 * blocks
  y1 : t.y1 = s.y1 + 2 * blocks
  y2 : t.y2 = s.y2 + 2 * blocks
  u : t.u = s.u + blocks
  v : t.v = s.v + blocks
  upper : ∀ x : ℤ, 0 ≤ x → x < 2 * blocks →
    Shows t.frame (s.out + 4 * x)
      (colour (srcY (s.y1 + x)) (srcU (s.u + x / 2)) (srcV (s.v + x / 2)))
  lower : ∀ x : ℤ, 0 ≤ x → x < 2 * blocks →
    Shows t.frame (s.out2 + 4 * x)
      (colour (srcY (s.y2 + x)) (srcU (s.u + x / 2)) (srcV (s.v + x / 2)))
  frame : ∀ a : ℤ, (a < s.out ∨ s.out + 8 * blocks ≤ a) → (a < s.out2 ∨ s.out2 + 8 * blocks ≤ a) →
    t.frame a = s.frame a

theorem putBlock_frame (s : Picture) {a : ℤ} (h : a < s.out ∨ s.out + 8 ≤ a)
    (h2 : a < s.out2 ∨ s.out2 + 8 ≤ a) : (putBlock srcY srcU srcV s).frame a = s.frame a := by
  unfold putBlock
  dsimp only
  rw [putColour_frame _ _ (by omega), putColour_frame _ _ (by omega),
    putColour_frame _ _ (by omega), putColour_frame _ _ (by omega)]

variable (srcY srcU srcV) in
/-- The four pixels of a block, as long as its lines do not overlap. -/
theorem putBlock_shows (s : Picture) (hlines : s.out + 8 ≤ s.out2) :
    let frame := (putBlock srcY srcU srcV s).frame
    Shows frame s.out (colour (srcY s.y1) (srcU s.u) (srcV s.v)) ∧
      Shows frame (s.out + 4) (colour (srcY (s.y1 + 1)) (srcU s.u) (srcV s.v)) ∧
      Shows frame s.out2 (colour (srcY s.y2) (srcU s.u) (srcV s.v)) ∧
      Shows frame (s.out2 + 4) (colour (srcY (s.y2 + 1)) (srcU s.u) (srcV s.v)) := by
  unfold putBlock
  dsimp only
  refine ⟨?_, ?_, ?_, shows_putColour _ _ _⟩
  · have hshows := shows_putColour s.frame s.out (colour (srcY s.y1) (srcU s.u) (srcV s.v))
    exact ((hshows.putColour _ (by omega)).putColour _ (by omega)).putColour _ (by omega)
  · exact ((shows_putColour _ _ _).putColour _ (by omega)).putColour _ (by omega)
  · exact (shows_putColour _ _ _).putColour _ (by omega)

/-- Two more pixels at the end of a line. -/
theorem shows_line_succ {frame' : ℤ → UInt8} {out y u v : ℤ} {blocks : ℕ}
    (hline : ∀ x : ℤ, 0 ≤ x → x < 2 * blocks →
      Shows frame (out + 4 * x) (colour (srcY (y + x)) (srcU (u + x / 2)) (srcV (v + x / 2))))
    (hkeeps : ∀ a, out ≤ a → a < out + 8 * blocks → frame' a = frame a)
    (hfirst : Shows frame' (out + 8 * blocks)
      (colour (srcY (y + 2 * blocks)) (srcU (u + blocks)) (srcV (v + blocks))))
    (hsecond : Shows frame' (out + 8 * blocks + 4)
      (colour (srcY (y + 2 * blocks + 1)) (srcU (u + blocks)) (srcV (v + blocks)))) :
    ∀ x : ℤ, 0 ≤ x → x < 2 * ((blocks + 1 : ℕ) : ℤ) →
      Shows frame' (out + 4 * x) (colour (srcY (y + x)) (srcU (u + x / 2)) (srcV (v + x / 2))) := by
  intro x h0 hx
  push_cast at hx
  rcases lt_trichotomy x (2 * blocks) with hlt | rfl | hgt
  · refine (hline x h0 hlt).congr fun a ha ha' => ?_
    exact hkeeps a (by omega) (by omega)
  · have hhalf : (2 * (blocks : ℤ)) / 2 = blocks := by omega
    rw [hhalf, show out + 4 * (2 * (blocks : ℤ)) = out + 8 * blocks by ring]
    exact hfirst
  · obtain rfl : x = 2 * blocks + 1 := by omega
    have hhalf : (2 * (blocks : ℤ) + 1) / 2 = blocks := by omega
    rw [hhalf, show out + 4 * (2 * (blocks : ℤ) + 1) = out + 8 * blocks + 4 by ring, ← add_assoc]
    exact hsecond

/-- One more block. -/
theorem BlocksPut.succ {blocks : ℕ} {s t : Picture} (h : BlocksPut srcY srcU srcV blocks s t)
    (hlines : s.out + 8 * (blocks + 1) ≤ s.out2) :
    BlocksPut srcY srcU srcV (blocks + 1) s (putBlock srcY srcU srcV t) := by
  have hout := h.out
  have hout2 := h.out2
  obtain ⟨hfirst, hsecond, hthird, hfourth⟩ := putBlock_shows srcY srcU srcV t (by omega)
  rw [hout, h.y1, h.u, h.v] at hfirst hsecond
  rw [hout2, h.y2, h.u, h.v] at hthird hfourth
  refine ⟨?_, ?_, ?_, ?_, ?_, ?_, ?_, ?_, ?_⟩
  · show t.out + 8 = _
    push_cast
    omega
  · show t.out2 + 8 = _
    push_cast
    omega
  · show t.y1 + 2 = _
    rw [h.y1]
    push_cast
    ring
  · show t.y2 + 2 = _
    rw [h.y2]
    push_cast
    ring
  · show t.u + 1 = _
    rw [h.u]
    push_cast
    ring
  · show t.v + 1 = _
    rw [h.v]
    push_cast
    ring
  · apply shows_line_succ h.upper _ hfirst hsecond
    intro a ha ha'
    exact putBlock_frame t (by omega) (by omega)
  · apply shows_line_succ h.lower _ hthird hfourth
    intro a ha ha'
    exact putBlock_frame t (by omega) (by omega)
  · intro a ha ha2
    push_cast at ha ha2
    rw [putBlock_frame t (by omega) (by omega)]
    exact h.frame a (by omega) (by omega)

variable (srcY srcU srcV) in
theorem blocksPut (blocks : ℕ) (s : Picture) (hlines : s.out + 8 * blocks ≤ s.out2) :
    BlocksPut srcY srcU srcV blocks s ((putBlock srcY srcU srcV)^[blocks] s) := by
  induction blocks with
  | zero =>
      refine ⟨by simp, by simp, by simp, by simp, by simp, by simp, ?_, ?_, fun _ _ _ => rfl⟩
      · intro x h0 hx
        omega
      · intro x h0 hx
        omega
  | succ blocks ih =>
      push_cast at hlines
      rw [Function.iterate_succ_apply']
      exact (ih (by omega)).succ hlines

/-! ### All pairs of lines

The width is `2 * a`, and a line of the picture takes `4 * (2 * a)` bytes. -/

/-- The pixel at `x` and `y` of the planes. -/
def pixelOf (srcY srcU srcV : ℤ → UInt8) (srcStrideY srcStrideU srcStrideV x y : ℤ) :
    UInt8 × UInt8 × UInt8 :=
  colour (srcY (y * srcStrideY + x)) (srcU (y / 2 * srcStrideU + x / 2))
    (srcV (y / 2 * srcStrideV + x / 2))

structure TwoLinesPut (srcY srcU srcV : ℤ → UInt8) (srcStrideY srcStrideU srcStrideV : ℤ)
    (a pairs : ℕ) (t : Picture) : Prop where
  out : t.out = 4 * ((2 * pairs) * (2 * a))
  out2 : t.out2 = 4 * ((2 * pairs + 1) * (2 * a))
  y1 : t.y1 = 2 * pairs * srcStrideY
  y2 : t.y2 = (2 * pairs + 1) * srcStrideY
  u : t.u = pairs * srcStrideU
  v : t.v = pairs * srcStrideV
  shows : ∀ x y : ℤ, 0 ≤ x → x < 2 * a → 0 ≤ y → y < 2 * pairs →
    Shows t.frame (4 * (y * (2 * a) + x))
      (pixelOf srcY srcU srcV srcStrideY srcStrideU srcStrideV x y)

/-- Two more lines. -/
theorem TwoLinesPut.succ {srcStrideY srcStrideU srcStrideV : ℤ} {a pairs : ℕ} {s : Picture}
    (h : TwoLinesPut srcY srcU srcV srcStrideY srcStrideU srcStrideV a pairs s) :
    TwoLinesPut srcY srcU srcV srcStrideY srcStrideU srcStrideV a (pairs + 1)
      (putTwoLines srcY srcU srcV srcStrideY srcStrideU srcStrideV (4 * (2 * a)) (2 * a) s) := by
  obtain ⟨hout, hout2, hy1, hy2, hu, hv, hshows⟩ := h
  have hline : 4 * ((2 * (pairs : ℤ) + 1) * (2 * a)) = 4 * (2 * pairs * (2 * a)) + 8 * a := by
    ring
  have hput := blocksPut srcY srcU srcV a s (by omega)
  have hblocks : (2 * a + 1) / 2 = a := by omega
  unfold putTwoLines
  simp only [hblocks]
  generalize (putBlock srcY srcU srcV)^[a] s = t at hput
  obtain ⟨htout, htout2, hty1, hty2, htu, htv, hupper, hlower, hframe⟩ := hput
  refine ⟨?_, ?_, ?_, ?_, ?_, ?_, ?_⟩
  · show t.out + 4 * (2 * a) = _
    rw [htout, hout]
    push_cast
    ring
  · show t.out2 + 4 * (2 * a) = _
    rw [htout2, hout2]
    push_cast
    ring
  · show t.y1 + (2 * srcStrideY - (2 * a : ℕ)) = _
    rw [hty1, hy1]
    push_cast
    ring
  · show t.y2 + (2 * srcStrideY - (2 * a : ℕ)) = _
    rw [hty2, hy2]
    push_cast
    ring
  · show t.u + (srcStrideU - a) = _
    rw [htu, hu]
    push_cast
    ring
  · show t.v + (srcStrideV - a) = _
    rw [htv, hv]
    push_cast
    ring
  · intro x y hx0 hx hy0 hy
    show Shows t.frame _ _
    push_cast at hy
    rcases lt_trichotomy y (2 * pairs) with hlt | rfl | hgt
    · -- a line that was there before
      have habove : y * (2 * a) + 2 * a ≤ 2 * pairs * (2 * a) := line_le hlt (by positivity)
      refine (hshows x y hx0 hx hy0 hlt).congr fun b hb hb' => ?_
      exact hframe b (by omega) (by omega)
    · have hhalf : (2 * (pairs : ℤ)) / 2 = pairs := by omega
      have hpixel := hupper x hx0 hx
      rw [hout, hy1, hu, hv] at hpixel
      rw [pixelOf, hhalf, mul_add]
      exact hpixel
    · obtain rfl : y = 2 * pairs + 1 := by omega
      have hhalf : (2 * (pairs : ℤ) + 1) / 2 = pairs := by omega
      have hpixel := hlower x hx0 hx
      rw [hout2, hy2, hu, hv] at hpixel
      rw [pixelOf, hhalf, mul_add]
      exact hpixel

variable (frame) in
theorem twoLinesPut (srcStrideY srcStrideU srcStrideV : ℤ) (a pairs : ℕ) :
    TwoLinesPut srcY srcU srcV srcStrideY srcStrideU srcStrideV a pairs
      ((putTwoLines srcY srcU srcV srcStrideY srcStrideU srcStrideV (4 * (2 * a)) (2 * a))^[pairs]
        (startPicture srcStrideY (4 * (2 * a)) frame)) := by
  induction pairs with
  | zero =>
      refine ⟨by simp [startPicture], by simp [startPicture], by simp [startPicture],
        by simp [startPicture], by simp [startPicture], by simp [startPicture], ?_⟩
      intro x y _ _ h0 hy
      omega
  | succ pairs ih =>
      rw [Function.iterate_succ_apply']
      exact ih.succ

end

end YuvTools

end RyuLib
