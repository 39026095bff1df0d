import RyuLib.Video.YuvTools

/-!
# The colours that come back

A picture goes through `RGBtoYUV420` in `VideoZip` and through `I420ToARGB` in
`VideoUnZip`.  The first matrix makes samples of the full range 0 to 255, the second one
reads Y as 16 to 235 and stretches it by 298 / 256.  Written out, a byte `c` comes back as
`c` plus a hundredth and a 256th of a drift that is linear in the colour, up to the
remainders of the divisions by 100; only where the drift is small, or clipping absorbs it,
is the byte reproduced.

* `reproduces_iff`: a picture of 2x2 blocks comes back up to rounding exactly when the
  drift of all its colours is in the band.
-/

namespace RyuLib

namespace YuvTools

/-- The three bytes of a pixel. -/
def pixelAt (memory : ℤ → UInt8) (offset : ℤ) : UInt8 × UInt8 × UInt8 :=
  (memory offset, memory (offset + 1), memory (offset + 2))

/-- The pixels of a 2x2 block are the same. -/
def ConstantOnBlocks (rgb : ℤ → UInt8) (width height pixelSize : ℕ) : Prop :=
  ∀ x y : ℕ, x < width → y < height →
    pixelAt rgb ((y * width + x : ℕ) * pixelSize) =
      pixelAt rgb ((y / 2 * 2 * width + x / 2 * 2 : ℕ) * pixelSize)

/-- The pictures of `VideoZip::encode` and `VideoUnZip::decode` with a codec that returns
the planes it was given. -/
def thereAndBack (rgb yuv frame : ℤ → UInt8) (width height pixelSize : ℕ) :
    Bool × Option (ℤ → UInt8) :=
  let planes := rgbtoyuv420 rgb yuv width height pixelSize
  let planeSize : ℤ := width * height
  i420ToARGB (some planes) width (some fun a => planes (planeSize + a)) (width / 2 : ℕ)
    (some fun a => planes (planeSize + planeSize / 4 + a)) (width / 2 : ℕ) (some frame)
    (4 * width) width height

def Near (c c' : UInt8) : Prop := |(c.toNat : ℤ) - c'.toNat| ≤ 4

/-- B, G and R up to rounding. -/
def NearColour (p q : UInt8 × UInt8 × UInt8) : Prop :=
  Near p.1 q.1 ∧ Near p.2.1 q.2.1 ∧ Near p.2.2 q.2.2

/-- The picture comes back with every pixel up to rounding. -/
def Reproduces (rgb yuv frame : ℤ → UInt8) (width height pixelSize : ℕ) : Prop :=
  ∃ picture, thereAndBack rgb yuv frame width height pixelSize = (true, some picture) ∧
    ∀ x y : ℕ, x < width → y < height →
      NearColour (pixelAt picture (4 * (y * width + x : ℕ)))
        (pixelAt rgb ((y * width + x : ℕ) * pixelSize))

/-! ## One colour -/

/-- A byte that the drift `d` leaves where it is, or moves into the clipped ends. -/
def InBand (c d : ℤ) : Prop := (c ≤ 4 ∨ 361600 ≤ d) ∧ (251 ≤ c ∨ d < 592000)

/-- The drifts of the three bytes of a colour are in the band. -/
def Matched (b g r : ℤ) : Prop :=
  let remY := (30 * r + 59 * g + 11 * b) % 100
  let remU := (-17 * r - 33 * g + 50 * b) % 100
  let remV := (50 * r - 42 * g - 8 * b) % 100
  InBand b (168 * r + 554 * g + 3478 * b - 298 * remY - 516 * remU) ∧
    InBand g (240 * r + 4018 * g - 58 * b - 298 * remY + 100 * remU + 208 * remV) ∧
    InBand r (3790 * r + 404 * g + 6 * b - 298 * remY - 409 * remV)

def MatchedPixel (p : UInt8 × UInt8 × UInt8) : Prop :=
  Matched p.1.toNat p.2.1.toNat p.2.2.toNat

theorem toNat_ofInt {x : ℤ} (h0 : 0 ≤ x) (hx : x < 256) : ((UInt8.ofInt x).toNat : ℤ) = x := by
  rw [UInt8.ofInt, UInt8.toNat_ofNat']
  omega

/-- The clipped value lies within 4 of `c` exactly when the value does so, or lies beyond
the end that `c` is near to. -/
theorem near_clip {value : ℤ} {c : UInt8} :
    Near (clip value) c ↔
      ((c.toNat : ℤ) ≤ 4 ∨ (c.toNat : ℤ) - 4 ≤ value) ∧
        (251 ≤ (c.toNat : ℤ) ∨ value ≤ (c.toNat : ℤ) + 4) := by
  have hc := c.toNat_lt
  have hclip : ((clip value).toNat : ℤ) = max 0 (min 255 value) := by
    unfold clip
    split
    · rw [UInt8.toNat_zero]
      omega
    · split
      · change ((255 : ℕ) : ℤ) = _
        omega
      · rw [toNat_ofInt (by omega) (by omega)]
        omega
  rw [Near, hclip, abs_le]
  omega

/-- The samples of a colour, before the cast. -/
theorem rgbtoyuv_eq (b g r : UInt8) :
    ((rgbtoyuv b g r).1.toNat : ℤ) = (30 * (r.toNat : ℤ) + 59 * g.toNat + 11 * b.toNat) / 100 ∧
      ((rgbtoyuv b g r).2.1.toNat : ℤ) =
        (-17 * (r.toNat : ℤ) - 33 * g.toNat + 50 * b.toNat + 12800) / 100 ∧
      ((rgbtoyuv b g r).2.2.toNat : ℤ) =
        (50 * (r.toNat : ℤ) - 42 * g.toNat - 8 * b.toNat + 12800) / 100 := by
  unfold rgbtoyuv
  dsimp only
  have hb := b.toNat_lt
  have hg := g.toNat_lt
  have hr := r.toNat_lt
  refine ⟨?_, ?_, ?_⟩
  · rw [rgbtoy, Int.tdiv_eq_ediv_of_nonneg (by omega), toNat_ofInt (by omega) (by omega)]
  · rw [Int.tdiv_eq_ediv_of_nonneg (by omega), toNat_ofInt (by omega) (by omega)]
  · rw [Int.tdiv_eq_ediv_of_nonneg (by omega), toNat_ofInt (by omega) (by omega)]

/-- A colour survives both matrices exactly when its drifts are in the band. -/
theorem nearColour_iff (p : UInt8 × UInt8 × UInt8) :
    let s := rgbtoyuv p.1 p.2.1 p.2.2
    NearColour (colour s.1 s.2.1 s.2.2) p ↔ MatchedPixel p := by
  obtain ⟨b, g, r⟩ := p
  obtain ⟨hy, hu, hv⟩ := rgbtoyuv_eq b g r
  dsimp only
  generalize rgbtoyuv b g r = s at hy hu hv
  unfold NearColour MatchedPixel Matched InBand colour
  dsimp only
  simp only [near_clip, mapYc, mapUcb, mapUcg, mapVcg, mapVcr, Int.shiftRight_eq_div_pow]
  have hremU : (-17 * (r.toNat : ℤ) - 33 * g.toNat + 50 * b.toNat + 12800) % 100 =
      (-17 * (r.toNat : ℤ) - 33 * g.toNat + 50 * b.toNat) % 100 := by omega
  have hremV : (50 * (r.toNat : ℤ) - 42 * g.toNat - 8 * b.toNat + 12800) % 100 =
      (50 * (r.toNat : ℤ) - 42 * g.toNat - 8 * b.toNat) % 100 := by omega
  refine and_congr ?_ (and_congr ?_ ?_)
  · omega
  · omega
  · omega

/-! ## One picture -/

section

variable {rgb yuv frame : ℤ → UInt8} {pixelSize : ℕ}

variable (rgb yuv frame pixelSize) in
/-- A pixel of the picture that comes back is made of the samples of its block's last pixel,
and of its own Y. -/
theorem thereAndBack_eq (a b : ℕ) :
    ∃ picture, thereAndBack rgb yuv frame (2 * a) (2 * b) pixelSize = (true, some picture) ∧
      ∀ x y : ℤ, 0 ≤ x → x < 2 * a → 0 ≤ y → y < 2 * b →
        pixelAt picture (4 * (y * (2 * a) + x)) =
          let last := samples rgb pixelSize ((2 * (y / 2) + 1) * (2 * a) + 2 * (x / 2) + 1)
          colour (samples rgb pixelSize (y * (2 * a) + x)).1 last.2.1 last.2.2 := by
  have hplane : ((2 * a : ℕ) : ℤ) * (2 * b : ℕ) = 4 * (a * b) := by
    push_cast
    ring
  have hquarter : 4 * ((a : ℤ) * b) + 4 * (a * b) / 4 = 5 * (a * b) := by omega
  have hwidth : 4 * ((2 * a : ℕ) : ℤ) = 4 * (2 * a) := by push_cast; rfl
  have hblocks : (2 * b + 1) / 2 = b := by omega
  have hhalf : 2 * a / 2 = a := by omega
  unfold thereAndBack
  simp only [hplane, hquarter, hwidth, hhalf, i420ToARGB, hblocks]
  refine ⟨_, rfl, ?_⟩
  intro x y hx0 hx hy0 hy
  have hput := linesPut rgb yuv pixelSize (a := a) (le_refl (2 * b))
  have hluma : rgbtoyuv420 rgb yuv (2 * a) (2 * b) pixelSize (y * (2 * a) + x) = _ :=
    hput.luma x y hx0 hx hy0 (by push_cast; omega)
  have hchroma := hput.chroma (x / 2) (y / 2) (by omega) (by omega) (by omega)
    (by push_cast; omega)
  have hu : rgbtoyuv420 rgb yuv (2 * a) (2 * b) pixelSize _ = _ := hchroma.1
  have hv : rgbtoyuv420 rgb yuv (2 * a) (2 * b) pixelSize _ = _ := hchroma.2
  obtain ⟨hblue, hgreen, hred⟩ := (twoLinesPut frame _ _ _ a b).shows x y hx0 hx hy0 hy
  rw [pixelAt, hblue, hgreen, hred]
  dsimp only [pixelOf]
  push_cast
  rw [hluma, ← add_assoc, ← add_assoc, hu, hv]

/-- On a picture of blocks the samples of a pixel are those of its block's last one. -/
theorem ConstantOnBlocks.samples {a b : ℕ} (h : ConstantOnBlocks rgb (2 * a) (2 * b) pixelSize)
    {x y : ℕ} (hx : x < 2 * a) (hy : y < 2 * b) :
    YuvTools.samples rgb pixelSize ((2 * ((y : ℤ) / 2) + 1) * (2 * a) + 2 * ((x : ℤ) / 2) + 1) =
      YuvTools.samples rgb pixelSize (y * (2 * a) + x) := by
  have hpixel := h x y hx hy
  have hlast := h (2 * (x / 2) + 1) (2 * (y / 2) + 1) (by omega) (by omega)
  rw [show (2 * (x / 2) + 1) / 2 = x / 2 by omega, show (2 * (y / 2) + 1) / 2 = y / 2 by omega,
    ← hpixel] at hlast
  push_cast at hlast
  rw [← add_assoc] at hlast
  obtain ⟨hb, hgr⟩ := Prod.mk.inj hlast
  obtain ⟨hg, hr⟩ := Prod.mk.inj hgr
  rw [YuvTools.samples, YuvTools.samples, hb, hg, hr]

end

/-- A picture of even sides whose 2x2 blocks are of one colour comes back up to rounding if
and only if the drifts of all its colours are in the band. -/
theorem reproduces_iff {rgb : ℤ → UInt8} (yuv frame : ℤ → UInt8) {width height pixelSize : ℕ}
    (hwidth : Even width) (hheight : Even height)
    (hconstant : ConstantOnBlocks rgb width height pixelSize) :
    Reproduces rgb yuv frame width height pixelSize ↔
      ∀ x y : ℕ, x < width → y < height →
        MatchedPixel (pixelAt rgb ((y * width + x : ℕ) * pixelSize)) := by
  obtain ⟨a, rfl⟩ := hwidth.two_dvd
  obtain ⟨b, rfl⟩ := hheight.two_dvd
  obtain ⟨picture, hpicture, hpixels⟩ :=
    thereAndBack_eq rgb yuv frame pixelSize a b
  have hnear : ∀ x y : ℕ, x < 2 * a → y < 2 * b →
      (NearColour (pixelAt picture (4 * (y * (2 * a) + x : ℕ)))
          (pixelAt rgb ((y * (2 * a) + x : ℕ) * pixelSize)) ↔
        MatchedPixel (pixelAt rgb ((y * (2 * a) + x : ℕ) * pixelSize))) := by
    intro x y hx hy
    have hpixel := hpixels x y (by omega) (by omega) (by omega) (by omega)
    rw [hconstant.samples hx hy] at hpixel
    push_cast
    rw [hpixel]
    exact nearColour_iff (pixelAt rgb ((y * (2 * a) + x) * pixelSize))
  constructor
  · rintro ⟨picture', hpicture', hall⟩ x y hx hy
    rw [hpicture, Prod.mk.injEq, Option.some.injEq] at hpicture'
    rw [← hpicture'.2] at hall
    exact (hnear x y hx hy).mp (hall x y hx hy)
  · intro hall
    exact ⟨picture, hpicture, fun x y hx hy => (hnear x y hx hy).mpr (hall x y hx hy)⟩

/-- A grey of 130 comes back as 133. -/
theorem reproduces_iff_grey :
    Reproduces (fun _ => 130) (fun _ => 0) (fun _ => 0) 2 2 3 ↔
      ∀ x y : ℕ, x < 2 → y < 2 →
        MatchedPixel (pixelAt (fun _ => 130) ((y * 2 + x : ℕ) * (3 : ℕ))) :=
  reproduces_iff _ _ (by decide) (by decide) fun _ _ _ _ => rfl

/-- A grey of 64 comes back as 56. -/
theorem not_reproduces_grey :
    Even 2 ∧ ConstantOnBlocks (fun _ => 64) 2 2 3 ∧
      ¬ Reproduces (fun _ => 64) (fun _ => 0) (fun _ => 0) 2 2 3 := by
  refine ⟨by decide, fun _ _ _ _ => rfl, ?_⟩
  rintro ⟨picture, hpicture, hall⟩
  have hpixels := hall 0 0 (by decide) (by decide)
  rw [← Option.some.inj (Prod.mk.inj hpicture).2] at hpixels
  exact absurd hpixels.1 (by unfold Near; decide)

end YuvTools

end RyuLib
