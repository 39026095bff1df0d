import RyuLib.Capture.DesktopCapture
import RyuLib.Ffmpeg.VideoCreater

/-!
# The sizes of a bitmap

The option of a capture rounds its width and height up to whole cells whenever it is set, and
the recorder of ffmpeg/VideoCreater.hpp does the same, with constants of its own, whenever it
needs them.  `BitmapSizes.sizes_agree`: a captured bitmap has as many bytes as `writeBitmap`
copies from it, in whatever order the option was set.
-/

namespace RyuLib

open Foundations

/-! ## Rounding up -/

/-- The multiple of `cell` next to `n`, from `n` on. -/
def roundUp (cell n : ℤ) : ℤ := cell * ⌈(n : ℚ) / cell⌉

section

variable {cell n : ℤ}

theorem isLeast_roundUp (hcell : 0 < cell) (n : ℤ) :
    IsLeast {m | cell ∣ m ∧ n ≤ m} (roundUp cell n) := by
  have hcast : (0 : ℚ) < cell := by exact_mod_cast hcell
  constructor
  · refine ⟨dvd_mul_right cell _, ?_⟩
    have hceil : (n : ℚ) ≤ (roundUp cell n : ℤ) := by
      rw [roundUp, Int.cast_mul, mul_comm, ← div_le_iff₀ hcast]
      exact Int.le_ceil _
    exact Int.cast_le.mp hceil
  · rintro _ ⟨⟨k, rfl⟩, hle⟩
    apply mul_le_mul_of_nonneg_left _ hcell.le
    rw [Int.ceil_le, div_le_iff₀ hcast, mul_comm]
    exact_mod_cast hle

theorem roundUp_of_dvd (hcell : 0 < cell) (hdvd : cell ∣ n) : roundUp cell n = n :=
  (isLeast_roundUp hcell n).unique ⟨⟨hdvd, le_refl n⟩, fun _ hm => hm.2⟩

/-- What is missing to the next multiple. -/
theorem roundUp_of_not_dvd (hcell : 0 < cell) (hdvd : ¬ cell ∣ n) :
    roundUp cell n = n + (cell - n % cell) := by
  have hdivision : cell * (n / cell) + n % cell = n := Int.mul_ediv_add_emod n cell
  have hrest : 0 ≤ n % cell := Int.emod_nonneg n hcell.ne'
  have hnonzero : n % cell ≠ 0 := fun hzero => hdvd (Int.dvd_of_emod_eq_zero hzero)
  have hnext : n + (cell - n % cell) = cell * (n / cell + 1) := by
    rw [mul_add, mul_one]
    omega
  refine (isLeast_roundUp hcell n).unique ⟨⟨hnext ▸ dvd_mul_right _ _, ?_⟩, ?_⟩
  · have hlt := Int.emod_lt_of_pos n hcell
    omega
  · rintro _ ⟨⟨k, rfl⟩, hle⟩
    -- a multiple from `n` on is above the one before `n`
    have hlt : n / cell < k := by
      by_contra hnot
      have hmul := mul_le_mul_of_nonneg_left (not_lt.mp hnot) hcell.le
      omega
    rw [hnext]
    exact mul_le_mul_of_nonneg_left hlt hcell.le

/-- As long as it is an `int`. -/
theorem toCells_eq (hcell : 0 < cell) (hn : 0 ≤ n) (hfits : roundUp cell n < 2 ^ 31) :
    DesktopCaptureOption.toCells cell n = roundUp cell n := by
  unfold DesktopCaptureOption.toCells
  rw [Int.tmod_eq_emod_of_nonneg hn]
  by_cases hdvd : cell ∣ n
  · rw [Int.emod_eq_zero_of_dvd hdvd, if_neg (not_not.mpr rfl), roundUp_of_dvd hcell hdvd]
  · have hnonzero : n % cell ≠ 0 := fun hzero => hdvd (Int.dvd_of_emod_eq_zero hzero)
    have hle := (isLeast_roundUp hcell n).1.2
    rw [roundUp_of_not_dvd hcell hdvd] at hfits hle ⊢
    rw [if_pos hnonzero]
    exact toInt_of_lt (hn.trans hle) hfits

end

/-- The sizes are not negative, and what they are rounded up to and the bytes of a bitmap of
that size are an `int`. -/
structure SizesFit (width height : ℤ) : Prop where
  widthNonneg : 0 ≤ width
  heightNonneg : 0 ≤ height
  widthFits : roundUp bitmapCellWidth width < 2 ^ 31
  heightFits : roundUp bitmapCellHeight height < 2 ^ 31
  sizeFits : roundUp bitmapCellWidth width * roundUp bitmapCellHeight height * bitmapPixelSize <
    2 ^ 31

/-! ## The option of a capture -/

namespace DesktopCaptureOption

inductive Call
  | setTargetHandle (value : ℤ) (rect : Rect)
  | setLeft (value : ℤ)
  | setTop (value : ℤ)
  | setWidth (value : ℤ)
  | setHeight (value : ℤ)

def call (o : DesktopCaptureOption) : Call → DesktopCaptureOption
  | .setTargetHandle value rect => o.setTargetHandle value rect
  | .setLeft value => o.setLeft value
  | .setTop value => o.setTop value
  | .setWidth value => o.setWidth value
  | .setHeight value => o.setHeight value

/-- The width that a call sets, if it sets one. -/
def Call.width : Call → Option ℤ
  | .setTargetHandle value rect =>
      if value = -1 then none else some (toInt (rect.right - rect.left))
  | .setWidth value => some value
  | _ => none

def Call.height : Call → Option ℤ
  | .setTargetHandle value rect =>
      if value = -1 then none else some (toInt (rect.bottom - rect.top))
  | .setHeight value => some value
  | _ => none

def lastWidth (calls : List Call) : ℤ := (calls.filterMap Call.width).getLastD 0

def lastHeight (calls : List Call) : ℤ := (calls.filterMap Call.height).getLastD 0

/-- The derived fields are those of the width and the height. -/
structure Derived (o : DesktopCaptureOption) (width height : ℤ) : Prop where
  sameWidth : o.width = width
  sameHeight : o.height = height
  bitmapWidth : o.bitmapWidth = toCells bitmapCellWidth width
  bitmapHeight : o.bitmapHeight = toCells bitmapCellHeight height
  bitmapSize : o.bitmapSize = sizeOf o.bitmapWidth o.bitmapHeight

namespace Derived

variable {o : DesktopCaptureOption} {width height : ℤ}

theorem initial : Derived {} 0 0 := ⟨rfl, rfl, rfl, rfl, rfl⟩

theorem setWidth (h : Derived o width height) (value : ℤ) :
    Derived (o.setWidth value) value height :=
  { h with
    sameWidth := rfl
    bitmapWidth := rfl
    bitmapSize := rfl }

theorem setHeight (h : Derived o width height) (value : ℤ) :
    Derived (o.setHeight value) width value :=
  { h with
    sameHeight := rfl
    bitmapHeight := rfl
    bitmapSize := rfl }

/-- A window gives both. -/
theorem setTargetHandle (h : Derived o width height) (value : ℤ) (rect : Rect) :
    Derived (o.setTargetHandle value rect) ((Call.setTargetHandle value rect).width.getD width)
      ((Call.setTargetHandle value rect).height.getD height) := by
  have hplaced : ∀ left top handle,
      Derived { o with targetHandle := handle, left := left, top := top } width height :=
    fun _ _ _ => { h with }
  unfold DesktopCaptureOption.setTargetHandle
  by_cases hscreen : value = -1
  · have hwidth : (Call.setTargetHandle value rect).width = none := if_pos hscreen
    have hheight : (Call.setTargetHandle value rect).height = none := if_pos hscreen
    rw [if_pos hscreen, hwidth, hheight]
    exact hplaced o.left o.top value
  · have hwidth : (Call.setTargetHandle value rect).width =
        some (toInt (rect.right - rect.left)) := if_neg hscreen
    have hheight : (Call.setTargetHandle value rect).height =
        some (toInt (rect.bottom - rect.top)) := if_neg hscreen
    rw [if_neg hscreen, hwidth, hheight]
    exact ((hplaced rect.left rect.top value).setWidth _).setHeight _

theorem call (h : Derived o width height) (c : Call) :
    Derived (o.call c) (c.width.getD width) (c.height.getD height) := by
  cases c with
  | setTargetHandle value rect => exact h.setTargetHandle value rect
  | setLeft value => exact { h with }
  | setTop value => exact { h with }
  | setWidth value => exact h.setWidth value
  | setHeight value => exact h.setHeight value

end Derived

theorem getLastD_filterMap_concat {α β : Type*} (f : α → Option β) (as : List α) (a : α) (b : β) :
    ((as ++ [a]).filterMap f).getLastD b = (f a).getD ((as.filterMap f).getLastD b) := by
  rw [List.filterMap_append]
  cases hf : f a with
  | none => simp [hf]
  | some b' => simp [hf]

/-- In whatever order the calls come. -/
theorem derived_foldl (calls : List Call) :
    Derived (calls.foldl call {}) (lastWidth calls) (lastHeight calls) := by
  induction calls using List.reverseRecOn with
  | nil => exact Derived.initial
  | append_singleton calls c ih =>
      rw [List.foldl_concat, lastWidth, lastHeight, getLastD_filterMap_concat,
        getLastD_filterMap_concat]
      exact ih.call c

end DesktopCaptureOption

/-! ## The recorder -/

namespace Ffmpeg

/-- BITMAP_CELL_WIDTH, BITMAP_CELL_HEIGHT, BITMAP_PIXEL_SIZE and PIXEL_SIZE of the class. -/
abbrev bitmapCellWidth : ℤ := 8

abbrev bitmapCellHeight : ℤ := 2

abbrev bitmapPixelSize : ℤ := 4

abbrev pixelSize : ℤ := 4

/-- The option with the size of the picture. -/
structure PictureOption extends VideoCreaterOption where
  width : ℤ := 0
  height : ℤ := 0

/-- Of `codec_ctx_video`, the size. -/
structure CodecSize where
  width : ℤ
  height : ℤ

/-- `if ((result % cell) != 0) result = result + (cell - (result % cell));` -/
def fillCell (cell result : ℤ) : ℤ :=
  if result.tmod cell ≠ 0 then toInt (result + (cell - result.tmod cell)) else result

namespace PictureOption

def getBitmapWidth (option : PictureOption) : ℤ := fillCell bitmapCellWidth option.width

def getBitmapHeight (option : PictureOption) : ℤ := fillCell bitmapCellHeight option.height

def getBitmapSize (option : PictureOption) : ℤ :=
  toInt (toInt (option.getBitmapWidth * option.getBitmapHeight) * bitmapPixelSize)

/-- The size that `open_video` gives the encoder. -/
def codecSize (option : PictureOption) : CodecSize :=
  ⟨option.getBitmapWidth, option.getBitmapHeight⟩

end PictureOption

/-- The bytes that `writeBitmap` copies from the bitmap. -/
def CodecSize.copied (ctx : CodecSize) : ℤ := toInt (toInt (ctx.width * ctx.height) * pixelSize)

end Ffmpeg

namespace DesktopCapture

/-- The bitmap that `start` makes has the size of the option. -/
theorem replaceBitmap_bytes {c c' : DesktopCapture} {heap heap' : Allocations}
    (h : c.replaceBitmap heap true = (heap', c')) (hsize : 0 ≤ c.option.bitmapSize) :
    heap'.bytes c'.bitmap = c.option.bitmapSize.toNat := by
  unfold replaceBitmap at h
  dsimp only at h
  rw [if_pos ⟨rfl, hsize⟩] at h
  obtain ⟨rfl, rfl⟩ := Prod.mk.inj h
  rw [Allocations.bytes, Allocations.malloc_snd, Option.bind_some, Allocations.malloc_live_self,
    Option.getD_some]

end DesktopCapture

namespace BitmapSizes

open DesktopCaptureOption

variable {width height : ℤ}

/-- Two rounded sizes that fit make a size that does not wrap. -/
theorem sizeOf_eq (hfit : SizesFit width height) :
    DesktopCaptureOption.sizeOf (roundUp bitmapCellWidth width) (roundUp bitmapCellHeight height) =
      roundUp bitmapCellWidth width * roundUp bitmapCellHeight height * bitmapPixelSize := by
  have hw : 0 ≤ roundUp bitmapCellWidth width :=
    hfit.widthNonneg.trans (isLeast_roundUp (by decide) width).1.2
  have hh : 0 ≤ roundUp bitmapCellHeight height :=
    hfit.heightNonneg.trans (isLeast_roundUp (by decide) height).1.2
  have hproduct : 0 ≤ roundUp bitmapCellWidth width * roundUp bitmapCellHeight height :=
    mul_nonneg hw hh
  have hsize := hfit.sizeFits
  unfold bitmapPixelSize at hsize
  unfold DesktopCaptureOption.sizeOf bitmapPixelSize
  rw [toInt_of_lt hproduct (by omega), toInt_of_lt (by omega) (by omega)]

theorem sizeOf_nonneg (hfit : SizesFit width height) :
    0 ≤ roundUp bitmapCellWidth width * roundUp bitmapCellHeight height * bitmapPixelSize := by
  apply mul_nonneg _ (by decide)
  apply mul_nonneg
  · exact hfit.widthNonneg.trans (isLeast_roundUp (by decide) width).1.2
  · exact hfit.heightNonneg.trans (isLeast_roundUp (by decide) height).1.2

/-- The recorder has the same numbers, however large they are. -/
theorem recorder_agrees {o : DesktopCaptureOption} (h : o.Derived width height)
    {option : Ffmpeg.PictureOption} (hwidth : option.width = width)
    (hheight : option.height = height) :
    (option.getBitmapWidth = o.bitmapWidth ∧ option.getBitmapHeight = o.bitmapHeight ∧
      option.getBitmapSize = o.bitmapSize) ∧ option.codecSize.copied = o.bitmapSize := by
  have hw : option.getBitmapWidth = o.bitmapWidth := by
    rw [h.bitmapWidth, ← hwidth]
    rfl
  have hh : option.getBitmapHeight = o.bitmapHeight := by
    rw [h.bitmapHeight, ← hheight]
    rfl
  have hsize : option.getBitmapSize = o.bitmapSize := by
    rw [h.bitmapSize, ← hw, ← hh]
    rfl
  exact ⟨⟨hw, hh, hsize⟩, hsize⟩

/-- For every order of calls, and every size that the last of them give. -/
theorem sizes_agree (calls : List Call) (option : Ffmpeg.PictureOption)
    (hwidth : option.width = lastWidth calls) (hheight : option.height = lastHeight calls)
    (hfit : SizesFit (lastWidth calls) (lastHeight calls)) :
    let o := calls.foldl call {}
    IsLeast {m | bitmapCellWidth ∣ m ∧ lastWidth calls ≤ m} o.bitmapWidth ∧
      IsLeast {m | bitmapCellHeight ∣ m ∧ lastHeight calls ≤ m} o.bitmapHeight ∧
      o.bitmapSize = o.bitmapWidth * o.bitmapHeight * bitmapPixelSize ∧
      (option.getBitmapWidth = o.bitmapWidth ∧ option.getBitmapHeight = o.bitmapHeight ∧
        option.getBitmapSize = o.bitmapSize) ∧
      option.codecSize.copied = o.bitmapSize ∧
      ∀ (c c' : DesktopCapture) (heap heap' : Allocations),
        (c.setOption o).replaceBitmap heap true = (heap', c') →
          (heap'.bytes c'.bitmap : ℤ) = option.codecSize.copied := by
  intro o
  have h : o.Derived (lastWidth calls) (lastHeight calls) := derived_foldl calls
  have hw : o.bitmapWidth = roundUp bitmapCellWidth (lastWidth calls) :=
    h.bitmapWidth.trans (toCells_eq (by decide) hfit.widthNonneg hfit.widthFits)
  have hh : o.bitmapHeight = roundUp bitmapCellHeight (lastHeight calls) :=
    h.bitmapHeight.trans (toCells_eq (by decide) hfit.heightNonneg hfit.heightFits)
  have hsize : o.bitmapSize = o.bitmapWidth * o.bitmapHeight * bitmapPixelSize := by
    rw [h.bitmapSize, hw, hh]
    exact sizeOf_eq hfit
  have hnonneg : 0 ≤ o.bitmapSize := by
    rw [hsize, hw, hh]
    exact sizeOf_nonneg hfit
  obtain ⟨hrecorder, hcopied⟩ := recorder_agrees h hwidth hheight
  refine ⟨?_, ?_, hsize, hrecorder, hcopied, ?_⟩
  · rw [hw]
    exact isLeast_roundUp (by decide) _
  · rw [hh]
    exact isLeast_roundUp (by decide) _
  · intro c c' heap heap' hstart
    rw [DesktopCapture.replaceBitmap_bytes hstart hnonneg, hcopied]
    exact Int.toNat_of_nonneg hnonneg

/-- The height before the width, and the width of a window after that. -/
theorem sizes_agree_window :
    let calls : List Call := [.setHeight 601, .setWidth 3, .setTargetHandle 7 ⟨10, 20, 810, 621⟩]
    (calls.foldl call {}).bitmapSize = 800 * 602 * 4 ∧
      Ffmpeg.CodecSize.copied (Ffmpeg.PictureOption.codecSize ⟨{}, 800, 601⟩) = 800 * 602 * 4 := by
  intro calls
  have hfit : SizesFit (lastWidth calls) (lastHeight calls) := by
    constructor
    all_goals decide +kernel
  have hsize : (calls.foldl call {}).bitmapSize = 800 * 602 * 4 := by decide
  have hagree := sizes_agree calls ⟨{}, 800, 601⟩ rfl rfl hfit
  exact ⟨hsize, hagree.2.2.2.2.1.trans hsize⟩

end BitmapSizes

end RyuLib
