import RyuLib.Video.ColourRange
import RyuLib.Video.PixelBounds

/-!
# The image that RGBtoYUV420 makes

For even sides the three planes lie back to back, and every byte of them is written: a
sample of Y for each pixel, and the chroma of the last pixel of each 2x2 block.

* `rgbtoyuv420_image`: the image, its bytes, and nothing else.
-/

namespace RyuLib

open Foundations

namespace YuvTools

/-- The colour formulas for the bytes B, G and R of a pixel, without a cast. -/
def lumaOf (p : UInt8 × UInt8 × UInt8) : ℤ :=
  (30 * (p.2.2.toNat : ℤ) + 59 * p.2.1.toNat + 11 * p.1.toNat) / 100

def chromaUOf (p : UInt8 × UInt8 × UInt8) : ℤ :=
  (-17 * (p.2.2.toNat : ℤ) - 33 * p.2.1.toNat + 50 * p.1.toNat + 12800) / 100

def chromaVOf (p : UInt8 × UInt8 × UInt8) : ℤ :=
  (50 * (p.2.2.toNat : ℤ) - 42 * p.2.1.toNat - 8 * p.1.toNat + 12800) / 100

/-- The pixel of column `x` and line `y`. -/
def pixelXY (rgb : ℤ → UInt8) (width pixelSize x y : ℕ) : UInt8 × UInt8 × UInt8 :=
  pixelAt rgb ((y * width + x : ℕ) * pixelSize)

/-- The I420 image of a picture of even sides in `image`, and around it what was in `yuv`. -/
structure I420Image (rgb yuv image : ℤ → UInt8) (width height pixelSize : ℕ) : Prop where
  luma : ∀ x < width, ∀ y < height,
    ((image (y * width + x : ℕ)).toNat : ℤ) = lumaOf (pixelXY rgb width pixelSize x y)
  chromaU : ∀ i < width / 2, ∀ j < height / 2,
    ((image (width * height + j * (width / 2) + i : ℕ)).toNat : ℤ) =
      chromaUOf (pixelXY rgb width pixelSize (2 * i + 1) (2 * j + 1))
  chromaV : ∀ i < width / 2, ∀ j < height / 2,
    ((image (width * height + width * height / 4 + j * (width / 2) + i : ℕ)).toNat : ℤ) =
      chromaVOf (pixelXY rgb width pixelSize (2 * i + 1) (2 * j + 1))
  outside : ∀ a : ℤ, (a < 0 ∨ (width * height * 3 / 2 : ℕ) ≤ a) → image a = yuv a

section

variable {rgb yuv : ℤ → UInt8} {pixelSize : ℕ}

/-- The samples of a pixel are the values of the formulas: the casts take nothing away. -/
theorem samples_eq (width x y : ℕ) :
    let p := pixelXY rgb width pixelSize x y
    ((samples rgb pixelSize (y * width + x)).1.toNat : ℤ) = lumaOf p ∧
      ((samples rgb pixelSize (y * width + x)).2.1.toNat : ℤ) = chromaUOf p ∧
      ((samples rgb pixelSize (y * width + x)).2.2.toNat : ℤ) = chromaVOf p := by
  have hpixel : pixelXY rgb width pixelSize x y = pixelAt rgb ((y * width + x) * pixelSize) := by
    rw [pixelXY]
    push_cast
    rfl
  rw [hpixel]
  exact rgbtoyuv_eq _ _ _

/-- The planes have the lengths `4 * (a * b)`, `a * b` and `a * b`, and all of their bytes are
written. -/
theorem mem_planesWrites_of_even (a b : ℕ) (i : ℤ) :
    i ∈ planesCells rgb yuv (2 * a) (2 * b) pixelSize pixelWrites ↔
      0 ≤ i ∧ i < (6 * (a * b) : ℕ) := by
  have hblocks : (2 * a + 1) / 2 = a := by omega
  have hhalf : 2 * a / 2 = a := by omega
  have hplane : 2 * a * (2 * b) = 4 * (a * b) := by ring
  have hplane' : ((2 * a : ℕ) : ℤ) * (2 * b : ℕ) = (4 * (a * b) : ℕ) := by
    rw [← hplane]
    push_cast
    rfl
  rw [mem_planesWrites, hblocks, hhalf, hplane, hplane', Nat.mul_div_cancel_left _ (by decide)]
  constructor
  · rintro ⟨y, hy, k, hk, hplace⟩
    have hline : (y + 1) * (2 * a) ≤ 2 * b * (2 * a) := Nat.mul_le_mul_right _ hy
    have hchroma : (y / 2 + 1) * a ≤ b * a := Nat.mul_le_mul_right _ (by omega)
    have hyline : (y : ℤ) * (2 * a : ℕ) = (y * (2 * a) : ℕ) := by push_cast; rfl
    have hcline : ((y / 2 : ℕ) : ℤ) * a = (y / 2 * a : ℕ) := by push_cast; rfl
    rw [add_mul, one_mul] at hline hchroma
    rw [mul_comm (2 * b), hplane] at hline
    rw [mul_comm b] at hchroma
    rw [hyline, hcline] at hplace
    omega
  · rintro ⟨h0, hi⟩
    obtain ⟨n, rfl⟩ := Int.eq_ofNat_of_zero_le h0
    rw [Nat.cast_lt] at hi
    have ha : 0 < a := by
      rcases Nat.eq_zero_or_pos a with rfl | ha
      · omega
      · exact ha
    rcases Nat.lt_or_ge n (4 * (a * b)) with hluma | hchroma
    · -- the pixel with number `n`
      have hy : n / (2 * a) < 2 * b := by
        rw [Nat.div_lt_iff_lt_mul (by omega), mul_comm, hplane]
        exact hluma
      have hx := Nat.mod_lt n (show 0 < 2 * a by omega)
      have hplace := Nat.div_add_mod' n (2 * a)
      refine ⟨n / (2 * a), hy, n % (2 * a) / 2, by omega, Or.inl ?_⟩
      have hline : ((n / (2 * a) : ℕ) : ℤ) * (2 * a : ℕ) = (n / (2 * a) * (2 * a) : ℕ) := by
        push_cast
        rfl
      rw [hline]
      omega
    · rcases Nat.lt_or_ge n (5 * (a * b)) with hu | hv
      · obtain ⟨m, rfl⟩ := Nat.exists_eq_add_of_le hchroma
        have hy : m / a < b := by
          rw [Nat.div_lt_iff_lt_mul ha, mul_comm]
          omega
        have hx := Nat.mod_lt m ha
        have hplace := Nat.div_add_mod' m a
        refine ⟨2 * (m / a), by omega, m % a, hx, Or.inr (Or.inl ?_)⟩
        rw [Nat.mul_div_cancel_left _ (by decide)]
        exact_mod_cast (by omega : 4 * (a * b) + m = 4 * (a * b) + m / a * a + m % a)
      · obtain ⟨m, rfl⟩ := Nat.exists_eq_add_of_le hv
        have hy : m / a < b := by
          rw [Nat.div_lt_iff_lt_mul ha, mul_comm]
          omega
        have hx := Nat.mod_lt m ha
        have hplace := Nat.div_add_mod' m a
        refine ⟨2 * (m / a), by omega, m % a, hx, Or.inr (Or.inr ?_)⟩
        rw [Nat.mul_div_cancel_left _ (by decide)]
        exact_mod_cast (by omega :
          5 * (a * b) + m = 4 * (a * b) + a * b + m / a * a + m % a)

end

/-- For even sides the call makes the I420 image, and writes the bytes of its three planes and
no others. -/
theorem rgbtoyuv420_image (rgb yuv : ℤ → UInt8) {width height : ℕ} (pixelSize : ℕ)
    (hwidth : Even width) (hheight : Even height) :
    I420Image rgb yuv (rgbtoyuv420 rgb yuv width height pixelSize) width height pixelSize ∧
      ∀ a : ℤ, a ∈ planesCells rgb yuv width height pixelSize pixelWrites ↔
        0 ≤ a ∧ a < (width * height * 3 / 2 : ℕ) := by
  obtain ⟨a, rfl⟩ := hwidth.two_dvd
  obtain ⟨b, rfl⟩ := hheight.two_dvd
  have hhalf : 2 * a / 2 = a := by omega
  have hplane : 2 * a * (2 * b) = 4 * (a * b) := by ring
  have hsize : 2 * a * (2 * b) * 3 / 2 = 6 * (a * b) := by
    rw [hplane]
    omega
  have hput := linesPut rgb yuv pixelSize (a := a) (le_refl (2 * b))
  rw [hsize]
  refine ⟨⟨?_, ?_, ?_, ?_⟩, mem_planesWrites_of_even a b⟩
  · intro x hx y hy
    have hluma := hput.luma x y (by omega) (by omega) (by omega) (by omega)
    rw [← (samples_eq (2 * a) x y).1]
    push_cast
    exact congrArg _ (congrArg _ hluma)
  · intro i hi j hj
    have hu := (hput.chroma i j (by omega) (by omega) (by omega) (by omega)).1
    rw [← (samples_eq (2 * a) (2 * i + 1) (2 * j + 1)).2.1, hplane, hhalf]
    push_cast
    rw [← add_assoc]
    exact congrArg _ (congrArg _ hu)
  · intro i hi j hj
    have hv := (hput.chroma i j (by omega) (by omega) (by omega) (by omega)).2
    rw [← (samples_eq (2 * a) (2 * i + 1) (2 * j + 1)).2.2, hplane, hhalf,
      Nat.mul_div_cancel_left _ (by decide), show 4 * (a * b) + a * b = 5 * (a * b) by ring]
    push_cast
    rw [← add_assoc]
    exact congrArg _ (congrArg _ hv)
  · intro i hi
    apply rgbtoyuv420_frame
    rw [mem_planesWrites_of_even]
    rw [hsize] at hi
    omega

theorem rgbtoyuv420_image_white :
    I420Image (fun _ => 255) (fun _ => 0) (rgbtoyuv420 (fun _ => 255) (fun _ => 0) 4 2 3) 4 2 3 ∧
      ∀ a : ℤ, a ∈ planesCells (fun _ => 255) (fun _ => 0) 4 2 3 pixelWrites ↔
        0 ≤ a ∧ a < (4 * 2 * 3 / 2 : ℕ) :=
  rgbtoyuv420_image _ _ 3 (by decide) (by decide)

end YuvTools

end RyuLib
