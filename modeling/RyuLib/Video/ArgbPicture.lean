import RyuLib.Video.PixelBounds

/-!
# The picture that I420ToARGB makes

The pointers into the planes are set to the next pair of lines at the end of each one, for
any strides.  The pointers into the picture are moved on by the stride once, behind the
bytes of a line, so pairs of lines follow each other at `4 * width + dst_stride_frame` bytes
instead of two strides.

* `shows_linePlace`: every line is drawn, at `linePlace`.
* `toARGB_picture`: with the stride `4 * width` this is the picture.
* `sameColours_iff`: the picture is independent of the strides exactly when no line of it is
  displaced.
-/

namespace RyuLib

open Foundations

namespace YuvTools

namespace Source

variable (S : Source)

/-- The pixel that belongs to column `x` and line `y`. -/
def pixel (x y : ℤ) : UInt8 × UInt8 × UInt8 :=
  pixelOf S.srcY S.srcU S.srcV S.srcStrideY S.srcStrideU S.srcStrideV x y

/-- Where line `y` of the picture is drawn. -/
def linePlace (dstStrideFrame y : ℤ) : ℤ :=
  y / 2 * (4 * S.width + dstStrideFrame) + y % 2 * dstStrideFrame

variable {S} {dstStrideFrame : ℤ} {a : ℕ}

/-- A pair of lines is behind the ones before it. -/
theorem linePlace_le (hwidth : S.width = 2 * a) (hstride : 4 * (S.width : ℤ) ≤ dstStrideFrame)
    {y : ℤ} {pairs : ℕ} (hy : y < 2 * pairs) :
    S.linePlace dstStrideFrame y + 8 * a ≤ pairs * (8 * a + dstStrideFrame) := by
  have hstep : 4 * (S.width : ℤ) = 8 * a := by omega
  have hpair : y / 2 * (8 * a + dstStrideFrame) + (8 * a + dstStrideFrame) ≤
      pairs * (8 * a + dstStrideFrame) := line_le (by omega) (by omega)
  rw [linePlace, hstep]
  rcases Int.emod_two_eq_zero_or_one y with heven | hodd
  · rw [heven, zero_mul]
    omega
  · rw [hodd, one_mul]
    omega

variable (S) in
/-- The lines of the pairs drawn so far, each at its place. -/
theorem shows_afterPairs (hwidth : S.width = 2 * a)
    (hstride : 4 * (S.width : ℤ) ≤ dstStrideFrame) (frame : ℤ → UInt8) (pairs : ℕ) :
    ∀ x y : ℤ, 0 ≤ x → x < S.width → 0 ≤ y → y < 2 * pairs →
      Shows (S.afterPairs dstStrideFrame frame pairs).frame
        (S.linePlace dstStrideFrame y + 4 * x) (S.pixel x y) := by
  have hblocks : (S.width + 1) / 2 = a := by omega
  have hstep : 4 * (S.width : ℤ) = 8 * a := by omega
  induction pairs with
  | zero =>
      intro x y _ _ h0 hy
      omega
  | succ pairs ih =>
      intro x y hx0 hx hy0 hy
      obtain ⟨hout, hout2, hy1, hy2, hu, hv⟩ := S.afterPairs_pointers dstStrideFrame frame pairs
      rw [afterPairs, Function.iterate_succ_apply', ← afterPairs]
      generalize S.afterPairs dstStrideFrame frame pairs = s at ih hout hout2 hy1 hy2 hu hv
      have hlines : 2 * (a : ℤ) + 2 * S.srcStrideY - S.width = 2 * S.srcStrideY := by omega
      rw [hblocks] at hout hout2 hy1 hy2
      rw [hlines] at hy1 hy2
      have hput := blocksPut S.srcY S.srcU S.srcV a s (by omega)
      show Shows (putTwoLines _ _ _ _ _ _ _ _ s).frame _ _
      unfold putTwoLines
      simp only [hblocks]
      generalize (putBlock S.srcY S.srcU S.srcV)^[a] s = t at hput
      push_cast at hy
      rcases lt_trichotomy y (2 * pairs) with hlt | rfl | hgt
      · -- a line that was there before
        have hbehind := linePlace_le (S := S) hwidth hstride hlt
        refine (ih x y hx0 hx hy0 hlt).congr fun b hb hb' => ?_
        exact hput.frame b (by omega) (by omega)
      · have hhalf : (2 * (pairs : ℤ)) / 2 = pairs := by omega
        have hpixel := hput.upper x hx0 (by omega)
        rw [hout, hy1, hu, hv] at hpixel
        rw [pixel, pixelOf, linePlace, hhalf, show (2 * (pairs : ℤ)) % 2 = 0 by omega, zero_mul,
          add_zero, hstep, show 2 * (pairs : ℤ) * S.srcStrideY = pairs * (2 * S.srcStrideY) by ring]
        exact hpixel
      · obtain rfl : y = 2 * pairs + 1 := by omega
        have hhalf : (2 * (pairs : ℤ) + 1) / 2 = pairs := by omega
        have hpixel := hput.lower x hx0 (by omega)
        rw [hout2, hy2, hu, hv] at hpixel
        rw [pixel, pixelOf, linePlace, hhalf, show (2 * (pairs : ℤ) + 1) % 2 = 1 by omega, one_mul,
          hstep, add_comm (_ * _) dstStrideFrame, show (2 * (pairs : ℤ) + 1) * S.srcStrideY =
            S.srcStrideY + pairs * (2 * S.srcStrideY) by ring]
        exact hpixel

variable (S) in
/-- Every line of the picture is drawn at its place. -/
theorem shows_linePlace (hwidth : Even S.width) (hheight : Even S.height)
    (hstride : 4 * (S.width : ℤ) ≤ dstStrideFrame) (frame : ℤ → UInt8) {x y : ℤ} (hx0 : 0 ≤ x)
    (hx : x < S.width) (hy0 : 0 ≤ y) (hy : y < S.height) :
    Shows (S.toARGB dstStrideFrame frame) (S.linePlace dstStrideFrame y + 4 * x)
      (S.pixel x y) := by
  obtain ⟨a, ha⟩ := hwidth.two_dvd
  obtain ⟨b, hb⟩ := hheight.two_dvd
  have hpairs : (S.height + 1) / 2 = b := by omega
  rw [toARGB, hpairs]
  exact S.shows_afterPairs ha hstride frame b x y hx0 hx hy0 (by omega)

end Source

/-- With even sides and lines that follow each other, the picture is drawn pixel by pixel, and
the fourth byte of each pixel and everything around the picture stay what they were. -/
theorem toARGB_picture (S : Source) (frame : ℤ → UInt8) (hwidth : Even S.width)
    (hheight : Even S.height) :
    ∃ picture, i420ToARGB (some S.srcY) S.srcStrideY (some S.srcU) S.srcStrideU (some S.srcV)
        S.srcStrideV (some frame) (4 * S.width) S.width S.height = (true, some picture) ∧
      (∀ x y : ℤ, 0 ≤ x → x < S.width → 0 ≤ y → y < S.height →
        Shows picture (4 * (y * S.width + x)) (pixelOf S.srcY S.srcU S.srcV S.srcStrideY
          S.srcStrideU S.srcStrideV x y)) ∧
      ∀ a : ℤ, a % 4 = 3 ∨ a < 0 ∨ 4 * (S.width * S.height) ≤ a → picture a = frame a := by
  refine ⟨S.toARGB (4 * S.width) frame, S.i420ToARGB_eq, ?_, ?_⟩
  · intro x y hx0 hx hy0 hy
    have hshows := S.shows_linePlace hwidth hheight le_rfl frame hx0 hx hy0 hy
    have hplace : S.linePlace (4 * S.width) y + 4 * x = 4 * (y * S.width + x) := by
      have hy2 : y = 2 * (y / 2) + y % 2 := by omega
      rw [Source.linePlace]
      linear_combination (-4 * (S.width : ℤ)) * hy2
    rw [hplace] at hshows
    exact hshows
  · intro a ha
    apply S.toARGB_frame
    rw [S.mem_pictureWrites]
    rintro ⟨k, hk, j, hj, i, hi, c, hc, hwritten⟩
    have heven := Nat.even_iff.mp hwidth
    have heven' := Nat.even_iff.mp hheight
    have hline : 8 * (((S.width + 1) / 2 : ℕ) : ℤ) + 4 * S.width = 8 * S.width := by omega
    have hbound : ((k : ℤ) + 1) * (2 * S.width) ≤ S.height * S.width := by
      have hle : ((k : ℤ) + 1) * 2 ≤ S.height := by omega
      nlinarith
    have hpos : (0 : ℤ) ≤ k * (2 * S.width) := by positivity
    have hplace : (k : ℤ) * (8 * S.width) = 4 * (k * (2 * S.width)) := by ring
    rw [hline, hplace] at hwritten
    rw [add_mul, one_mul, mul_comm (S.height : ℤ)] at hbound
    generalize (k : ℤ) * (2 * S.width) = lines at *
    generalize (S.width : ℤ) * S.height = size at *
    omega

theorem toARGB_picture_padded :
    ∃ picture, i420ToARGB (some fun a => .ofInt a) 7 (some fun _ => 90) 3 (some fun _ => 240) 2
        (some fun _ => 9) (4 * (4 : ℕ)) 4 2 = (true, some picture) ∧
      (∀ x y : ℤ, 0 ≤ x → x < (4 : ℕ) → 0 ≤ y → y < (2 : ℕ) →
        Shows picture (4 * (y * (4 : ℕ) + x))
          (pixelOf (fun a => .ofInt a) (fun _ => 90) (fun _ => 240) 7 3 2 x y)) ∧
      ∀ a : ℤ, a % 4 = 3 ∨ a < 0 ∨ 4 * ((4 : ℕ) * (2 : ℕ)) ≤ a → picture a = 9 :=
  toARGB_picture ⟨fun a => .ofInt a, fun _ => 90, fun _ => 240, 7, 3, 2, 4, 2⟩ (fun _ => 9)
    (by decide) (by decide)

/-! ## Strides -/

/-- Two sources of one size with the same samples, each with its own strides. -/
structure SameSamples (S S' : Source) : Prop where
  width : S'.width = S.width
  height : S'.height = S.height
  luma : ∀ x y : ℤ, 0 ≤ x → x < S.width → 0 ≤ y → y < S.height →
    S'.srcY (y * S'.srcStrideY + x) = S.srcY (y * S.srcStrideY + x)
  chromaU : ∀ i j : ℤ, 0 ≤ i → 2 * i < S.width → 0 ≤ j → 2 * j < S.height →
    S'.srcU (j * S'.srcStrideU + i) = S.srcU (j * S.srcStrideU + i)
  chromaV : ∀ i j : ℤ, 0 ≤ i → 2 * i < S.width → 0 ≤ j → 2 * j < S.height →
    S'.srcV (j * S'.srcStrideV + i) = S.srcV (j * S.srcStrideV + i)

/-- The pictures drawn with two strides into two memories have the same bytes B, G and R in
every line and column. -/
def SameColours (S S' : Source) (stride stride' : ℤ) (frame frame' : ℤ → UInt8) : Prop :=
  ∀ x y c : ℤ, 0 ≤ x → x < S.width → 0 ≤ y → y < S.height → 0 ≤ c → c < 3 →
    S.toARGB stride frame (y * stride + 4 * x + c) =
      S'.toARGB stride' frame' (y * stride' + 4 * x + c)

section

variable {S S' : Source} {stride stride' : ℤ} {frame frame' : ℤ → UInt8}

theorem SameSamples.pixel (h : SameSamples S S') {x y : ℤ} (hx0 : 0 ≤ x) (hx : x < S.width)
    (hy0 : 0 ≤ y) (hy : y < S.height) : S'.pixel x y = S.pixel x y := by
  rw [Source.pixel, Source.pixel, pixelOf, pixelOf, h.luma x y hx0 hx hy0 hy,
    h.chromaU (x / 2) (y / 2) (by omega) (by omega) (by omega) (by omega),
    h.chromaV (x / 2) (y / 2) (by omega) (by omega) (by omega) (by omega)]

/-- The line is drawn where the stride says it is. -/
def Source.InPlace (S : Source) (stride : ℤ) : Prop :=
  ∀ y : ℤ, 0 ≤ y → y < S.height → S.linePlace stride y = y * stride

/-- The first two lines are in place, and all are if nothing separates them. -/
theorem Source.inPlace (h : S.height ≤ 2 ∨ stride = 4 * S.width) : S.InPlace stride := by
  intro y hy0 hy
  have hy2 : y = 2 * (y / 2) + y % 2 := by omega
  rcases h with hheight | rfl
  · have hfirst : y / 2 = 0 := by omega
    rw [Source.linePlace, hfirst, zero_mul, zero_add, show y % 2 = y by omega]
  · rw [Source.linePlace]
    linear_combination (-4 * (S.width : ℤ)) * hy2

/-- A byte of a pixel in a line that is in place. -/
theorem Source.InPlace.shows (h : S.InPlace stride) (hwidth : Even S.width)
    (hheight : Even S.height) (hstride : 4 * (S.width : ℤ) ≤ stride) (frame : ℤ → UInt8)
    {x y : ℤ} (hx0 : 0 ≤ x) (hx : x < S.width) (hy0 : 0 ≤ y) (hy : y < S.height) :
    Shows (S.toARGB stride frame) (y * stride + 4 * x) (S.pixel x y) := by
  rw [← h y hy0 hy]
  exact S.shows_linePlace hwidth hheight hstride frame hx0 hx hy0 hy

theorem Shows.byte {c : UInt8 × UInt8 × UInt8} {out out' : ℤ} (h : Shows frame out c)
    (h' : Shows frame' out' c) {i : ℤ} (hi0 : 0 ≤ i) (hi : i < 3) :
    frame (out + i) = frame' (out' + i) := by
  obtain ⟨hb, hg, hr⟩ := h
  obtain ⟨hb', hg', hr'⟩ := h'
  obtain rfl | rfl | rfl : i = 0 ∨ i = 1 ∨ i = 2 := by omega
  · rw [add_zero, add_zero, hb, hb']
  · rw [hg, hg']
  · rw [hr, hr']

/-- With more than the bytes of a line between two lines, a byte of the third line's last
pixel is never written. -/
theorem exists_unwritten (hwidth : Even S.width) (hpos : 0 < S.width)
    (hstride : 4 * (S.width : ℤ) < stride) :
    ∃ c : ℤ, 0 ≤ c ∧ c < 3 ∧ ∀ frame : ℤ → UInt8,
      S.toARGB stride frame (2 * stride + 4 * (S.width - 1) + c) =
        frame (2 * stride + 4 * (S.width - 1) + c) := by
  obtain ⟨a, ha⟩ := hwidth.two_dvd
  -- the third line is drawn too far to the front, so its fourth bytes lie under the others
  refine ⟨max 0 (3 - (stride - 4 * S.width)), by omega, by omega, fun frame => ?_⟩
  apply S.toARGB_frame
  rw [S.mem_pictureWrites]
  rintro ⟨k, hk, j, hj, i, hi, c, hc, hwritten⟩
  have hblocks : (S.width + 1) / 2 = a := by omega
  rw [hblocks] at hj hwritten
  obtain rfl | rfl | ⟨k, rfl⟩ : k = 0 ∨ k = 1 ∨ ∃ l, k = l + 2 := by
    rcases k with _ | _ | k
    · exact Or.inl rfl
    · exact Or.inr (Or.inl rfl)
    · exact Or.inr (Or.inr ⟨k, rfl⟩)
  · push_cast at hwritten
    omega
  · push_cast at hwritten
    omega
  · have hbefore : (0 : ℤ) ≤ k * (8 * a + stride) := mul_nonneg (by omega) (by omega)
    push_cast at hwritten
    rw [add_mul] at hwritten
    omega

/-- The byte is free to differ from that of the other picture. -/
theorem not_sameColours (S' : Source) (stride' : ℤ) (frame' : ℤ → UInt8)
    (hwidth : Even S.width) (hheight : 2 < S.height) (hpos : 0 < S.width)
    (hstride : 4 * (S.width : ℤ) < stride) :
    ∃ frame, ¬ SameColours S S' stride stride' frame frame' := by
  obtain ⟨c, hc0, hc, hkept⟩ := exists_unwritten hwidth hpos hstride
  refine ⟨fun _ => S'.toARGB stride' frame' (2 * stride' + 4 * (S.width - 1) + c) + 1, ?_⟩
  intro h
  have hsame := h (S.width - 1) 2 c (by omega) (by omega) (by omega) (by omega) hc0 hc
  rw [hkept] at hsame
  simp at hsame

theorem SameColours.symm (hsame : SameSamples S S')
    (h : SameColours S S' stride stride' frame frame') :
    SameColours S' S stride' stride frame' frame := by
  intro x y c hx0 hx hy0 hy hc0 hc
  exact (h x y c hx0 (hsame.width ▸ hx) hy0 (hsame.height ▸ hy) hc0 hc).symm

end

/-- The same samples, in planes with any strides, give the same colours in every line and
column, whatever the memories held before, if and only if the picture has no third line or
no bytes lie between its lines. -/
theorem sameColours_iff {S S' : Source} (hsame : SameSamples S S') (hwidth : Even S.width)
    (hheight : Even S.height) {stride stride' : ℤ} (hstride : 4 * (S.width : ℤ) ≤ stride)
    (hstride' : 4 * (S.width : ℤ) ≤ stride') :
    (∀ frame frame', SameColours S S' stride stride' frame frame') ↔
      S.width = 0 ∨ S.height ≤ 2 ∨ stride = 4 * S.width ∧ stride' = 4 * S.width := by
  have hwidth' : Even S'.width := hsame.width.symm ▸ hwidth
  have hheight' : Even S'.height := hsame.height.symm ▸ hheight
  constructor
  · intro h
    by_contra hcon
    rw [not_or, not_or, not_le] at hcon
    obtain ⟨hpos, htall, hpadded⟩ := hcon
    rcases lt_or_eq_of_le hstride with hlt | heq
    · obtain ⟨frame, hnot⟩ := not_sameColours S' stride' (fun _ => 0) hwidth htall
        (Nat.pos_of_ne_zero hpos) hlt
      exact hnot (h frame _)
    · rcases lt_or_eq_of_le hstride' with hlt' | heq'
      · obtain ⟨frame', hnot⟩ := not_sameColours S stride (fun _ => 0) hwidth'
          (hsame.height.symm ▸ htall) (Nat.pos_of_ne_zero (hsame.width.symm ▸ hpos))
          (hsame.width.symm ▸ hlt')
        exact hnot ((h _ frame').symm hsame)
      · exact hpadded ⟨heq.symm, heq'.symm⟩
  · intro h frame frame' x y c hx0 hx hy0 hy hc0 hc
    rcases h with hzero | hplaces
    · omega
    · have hplace : S.InPlace stride := Source.inPlace (hplaces.imp_right And.left)
      have hplace' : S'.InPlace stride' := Source.inPlace (by
        rw [hsame.height, hsame.width]
        exact hplaces.imp_right And.right)
      have hshows' := hplace'.shows hwidth' hheight' (hsame.width.symm ▸ hstride') frame' hx0
        (hsame.width.symm ▸ hx) hy0 (hsame.height.symm ▸ hy)
      rw [hsame.pixel hx0 hx hy0 hy] at hshows'
      exact (hplace.shows hwidth hheight hstride frame hx0 hx hy0 hy).byte hshows' hc0 hc

/-- White planes, with the strides of their lines. -/
def whiteSource (width height : ℕ) : Source where
  srcY := fun _ => 255
  srcU := fun _ => 128
  srcV := fun _ => 128
  srcStrideY := width
  srcStrideU := width / 2
  srcStrideV := width / 2
  width := width
  height := height

theorem sameColours_iff_white :
    (∀ frame frame', SameColours (whiteSource 2 4) (whiteSource 2 4) 8 8 frame frame') ↔
      2 = 0 ∨ 4 ≤ 2 ∨ (8 : ℤ) = 4 * (2 : ℕ) ∧ (8 : ℤ) = 4 * (2 : ℕ) :=
  sameColours_iff (show SameSamples (whiteSource 2 4) (whiteSource 2 4) from
      ⟨rfl, rfl, fun _ _ _ _ _ _ => rfl, fun _ _ _ _ _ _ => rfl, fun _ _ _ _ _ _ => rfl⟩)
    (by decide) (by decide) (by decide) (by decide)

/-- The strides are at least the lengths of the lines. -/
def Source.HoldsLines (S : Source) : Prop :=
  (S.width : ℤ) ≤ S.srcStrideY ∧ (S.width / 2 : ℤ) ≤ S.srcStrideU ∧
    (S.width / 2 : ℤ) ≤ S.srcStrideV

/-- The third line of a white picture of 2 by 4 pixels, with a stride of 12: its second pixel
stays black. -/
theorem not_sameColours_padded :
    ¬ ∀ (S S' : Source) (stride stride' : ℤ) (frame frame' : ℤ → UInt8), SameSamples S S' →
      S.HoldsLines → S'.HoldsLines → Even S.width → Even S.height →
      4 * (S.width : ℤ) ≤ stride → 4 * (S.width : ℤ) ≤ stride' →
      SameColours S S' stride stride' frame frame' := by
  intro h
  have hlines : (whiteSource 2 4).HoldsLines := ⟨le_rfl, le_rfl, le_rfl⟩
  have hsame := h (whiteSource 2 4) (whiteSource 2 4) 8 12 (fun _ => 0) (fun _ => 0)
    ⟨rfl, rfl, fun _ _ _ _ _ _ => rfl, fun _ _ _ _ _ _ => rfl, fun _ _ _ _ _ _ => rfl⟩ hlines
    hlines (by decide) (by decide) (by decide) (by decide) 1 2 0 (by decide) (by decide)
    (by decide) (by decide) (by decide) (by decide)
  exact absurd hsame (by decide)

end YuvTools

end RyuLib
