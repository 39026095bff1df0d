import RyuLib.Ffmpeg.FFPlayer
import RyuLib.Video.VideoCreater

/-!
# FFStream

`move` converts a position in milliseconds to the time base of the first stream and seeks
there.  It rescales before it divides by 1000 and keeps the product in an `int`, and the
largest time stamp that it allows is the duration in milliseconds, whatever the time base is.

* `FFStream.seeks_iff`: the target is right and within its limits exactly when neither the
  product reaches the end of an `int` nor the target the number of milliseconds.

`av_rescale` is exact.  A product of 64 bits wraps.
-/

namespace RyuLib

open Foundations

def toInt64 (n : ℤ) : ℤ := Int.bmod n (2 ^ 64)

/-- `av_rescale`: `a * b / c`, to the nearest, halfway cases away from zero. -/
def avRescale (a b c : ℤ) : ℤ :=
  let q : ℚ := a * b / c
  if 0 ≤ q then ⌊q + 1 / 2⌋ else -⌊-q + 1 / 2⌋

namespace Ffmpeg

abbrev avTimeBase : ℤ := 1000000

abbrev avseekFlagFrame : ℕ := 8

/-- Of `context_`, what `move` reads: the duration, in units of AV_TIME_BASE, and the time base
of the first stream. -/
structure SeekContext where
  duration : ℤ
  timeBase : AVRational

/-- The arguments of `avformat_seek_file`. -/
structure SeekFile where
  streamIndex : ℤ
  minTs : ℤ
  ts : ℤ
  maxTs : ℤ
  flags : ℕ

namespace FFStream

/-- The duration in milliseconds. -/
def durationMs (context : SeekContext) : ℤ :=
  toInt ((toInt64 (context.duration * 1000)).tdiv avTimeBase)

def move (context : SeekContext) (ms : ℤ) : SeekFile :=
  let frameNumber := toInt (avRescale ms context.timeBase.den context.timeBase.num)
  { streamIndex := 0
    minTs := 0
    ts := frameNumber.tdiv 1000
    maxTs := durationMs context
    flags := avseekFlagFrame }

/-- The position in the time base of the stream. -/
def position (context : SeekContext) (ms : ℤ) : ℚ :=
  ms * context.timeBase.den / (1000 * context.timeBase.num)

/-- The target is the position up to rounding, and it is within the limits of the call. -/
structure Seeks (context : SeekContext) (ms : ℤ) : Prop where
  target : |((move context ms).ts : ℚ) - position context ms| < 1
  within : (move context ms).minTs ≤ (move context ms).ts ∧
    (move context ms).ts ≤ (move context ms).maxTs

/-- The position in units of the time base, times 1000, rounds to less than 2 ^ 31, and to less
than a thousand times the milliseconds of the duration and one. -/
def TargetFits (context : SeekContext) (ms : ℤ) : Prop :=
  2 * (ms * context.timeBase.den) < (2 ^ 32 - 1) * context.timeBase.num ∧
    2 * (ms * context.timeBase.den) <
      (2000 * (durationMs context + 1) - 1) * context.timeBase.num

/-! ## Rounding -/

theorem avRescale_of_nonneg {a b c : ℤ} (h : (0 : ℚ) ≤ a * b / c) :
    avRescale a b c = round ((a * b / c : ℚ)) := by
  rw [avRescale, round_eq]
  exact if_pos h

theorem avRescale_lt_iff {a b c n : ℤ} (hc : 0 < c) (hab : 0 ≤ a * b) :
    avRescale a b c < n ↔ 2 * (a * b) < (2 * n - 1) * c := by
  have hcast : (0 : ℚ) < c := by exact_mod_cast hc
  have hproduct : (0 : ℚ) ≤ a * b := by exact_mod_cast hab
  rw [avRescale_of_nonneg (div_nonneg hproduct hcast.le), round_eq, Int.floor_lt,
    div_add' _ _ _ hcast.ne', div_lt_iff₀ hcast, ← Int.cast_lt (R := ℚ)]
  push_cast
  constructor
  · intro h
    linarith
  · intro h
    linarith

theorem avRescale_near {a b c : ℤ} (hc : 0 < c) (hab : 0 ≤ a * b) :
    |(a * b / c : ℚ) - avRescale a b c| ≤ 1 / 2 := by
  have hcast : (0 : ℚ) < c := by exact_mod_cast hc
  have hproduct : (0 : ℚ) ≤ a * b := by exact_mod_cast hab
  rw [avRescale_of_nonneg (div_nonneg hproduct hcast.le)]
  exact abs_sub_round _

theorem avRescale_nonneg {a b c : ℤ} (hc : 0 < c) (hab : 0 ≤ a * b) : 0 ≤ avRescale a b c := by
  by_contra hneg
  rw [not_le, avRescale_lt_iff hc hab] at hneg
  have hminus : (2 * 0 - 1) * c = -c := by ring
  omega

/-! ## The target -/

section

variable {context : SeekContext} {ms : ℤ}

theorem position_eq (context : SeekContext) (ms : ℤ) :
    position context ms = (ms * context.timeBase.den / context.timeBase.num : ℚ) / 1000 := by
  rw [position, div_div, mul_comm (1000 : ℚ)]

/-- The product that does not wrap is divided, and the target is less than one off. -/
theorem target_of_lt (hnum : 0 < context.timeBase.num) (hproduct : 0 ≤ ms * context.timeBase.den)
    (hfits : avRescale ms context.timeBase.den context.timeBase.num < 2 ^ 31) :
    (move context ms).ts = avRescale ms context.timeBase.den context.timeBase.num / 1000 ∧
      |((move context ms).ts : ℚ) - position context ms| < 1 := by
  have hnonneg := avRescale_nonneg hnum hproduct
  have hts : (move context ms).ts =
      avRescale ms context.timeBase.den context.timeBase.num / 1000 := by
    show (toInt _).tdiv 1000 = _
    rw [toInt_of_lt hnonneg hfits]
    exact Int.tdiv_eq_ediv_of_nonneg hnonneg
  refine ⟨hts, ?_⟩
  have hnear := abs_le.mp (avRescale_near hnum hproduct)
  generalize avRescale ms context.timeBase.den context.timeBase.num = r at hts hnear hnonneg
  have hlow : ((1000 * (r / 1000) : ℤ) : ℚ) ≤ (r : ℤ) := by
    exact_mod_cast Int.mul_ediv_self_le (by norm_num)
  have hhigh : ((r : ℤ) : ℚ) ≤ ((1000 * (r / 1000) + 999 : ℤ) : ℚ) := by
    have hrest := Int.lt_mul_ediv_self_add (x := r) (by norm_num : (0 : ℤ) < 1000)
    exact_mod_cast (by omega : r ≤ 1000 * (r / 1000) + 999)
  push_cast at hlow hhigh
  rw [hts, position_eq, abs_lt]
  constructor
  · linarith [hnear.2]
  · linarith [hnear.1]

/-- A product that wraps has lost 2 ^ 32, a thousandth of which is missing from the target. -/
theorem target_of_wrap (hnum : 0 < context.timeBase.num)
    (hproduct : 0 ≤ ms * context.timeBase.den)
    (hwraps : 2 ^ 31 ≤ avRescale ms context.timeBase.den context.timeBase.num) :
    1 ≤ |((move context ms).ts : ℚ) - position context ms| := by
  have hnear := abs_le.mp (avRescale_near hnum hproduct)
  have hts : (move context ms).ts =
      (toInt (avRescale ms context.timeBase.den context.timeBase.num)).tdiv 1000 := rfl
  have hlost : toInt (avRescale ms context.timeBase.den context.timeBase.num) ≤
      avRescale ms context.timeBase.den context.timeBase.num - 2 ^ 32 := toInt_le_sub hwraps
  generalize avRescale ms context.timeBase.den context.timeBase.num = r at *
  have hdivided : 1000 * (toInt r).tdiv 1000 ≤ toInt r + 1000 := by
    have hsplit := Int.tmod_add_mul_tdiv (toInt r) 1000
    have hrest := Int.lt_tmod_of_pos (toInt r) (by norm_num : (0 : ℤ) < 1000)
    omega
  have hfar : ((1000 * (toInt r).tdiv 1000 : ℤ) : ℚ) ≤ ((r - 2 ^ 32 + 1000 : ℤ) : ℚ) := by
    exact_mod_cast hdivided.trans (by omega)
  push_cast at hfar
  rw [hts, position_eq, le_abs]
  right
  linarith [hnear.1]

end

/-- For every time base, every duration and every position from 0 on. -/
theorem seeks_iff (context : SeekContext) (ms : ℤ) (hnum : 0 < context.timeBase.num)
    (hden : 0 < context.timeBase.den) (hms : 0 ≤ ms) :
    Seeks context ms ↔ TargetFits context ms := by
  have hproduct : 0 ≤ ms * context.timeBase.den := mul_nonneg hms hden.le
  have hwrap : avRescale ms context.timeBase.den context.timeBase.num < 2 ^ 31 ↔
      2 * (ms * context.timeBase.den) < (2 ^ 32 - 1) * context.timeBase.num := by
    rw [avRescale_lt_iff hnum hproduct]
    norm_num
  have hmax : avRescale ms context.timeBase.den context.timeBase.num <
      1000 * (durationMs context + 1) ↔ 2 * (ms * context.timeBase.den) <
        (2000 * (durationMs context + 1) - 1) * context.timeBase.num := by
    have hdouble : 2 * (1000 * (durationMs context + 1)) = 2000 * (durationMs context + 1) := by
      ring
    rw [avRescale_lt_iff hnum hproduct, hdouble]
  rw [TargetFits, ← hwrap, ← hmax]
  by_cases hfits : avRescale ms context.timeBase.den context.timeBase.num < 2 ^ 31
  · obtain ⟨hts, htarget⟩ := target_of_lt hnum hproduct hfits
    have hnonneg := avRescale_nonneg hnum hproduct
    have hlimits : (move context ms).minTs = 0 ∧ (move context ms).maxTs = durationMs context :=
      ⟨rfl, rfl⟩
    constructor
    · intro h
      have hle := h.within.2
      rw [hts, hlimits.2] at hle
      exact ⟨hfits, by omega⟩
    · rintro ⟨_, hlast⟩
      refine ⟨htarget, ?_, ?_⟩
      · rw [hts, hlimits.1]
        exact Int.ediv_nonneg hnonneg (by norm_num)
      · rw [hts, hlimits.2]
        omega
  · apply iff_of_false
    · intro h
      exact absurd h.target (not_lt.mpr (target_of_wrap hnum hproduct (not_lt.mp hfits)))
    · rintro ⟨hlt, _⟩
      exact hfits hlt

/-- A time base of milliseconds. -/
theorem seeks_iff_milliseconds :
    Seeks ⟨60000000, ⟨1, 1000⟩⟩ 42 ↔ TargetFits ⟨60000000, ⟨1, 1000⟩⟩ 42 :=
  seeks_iff ⟨60000000, ⟨1, 1000⟩⟩ 42 (by norm_num) (by norm_num) (by norm_num)

/-- One minute in units of 1 / 90000 of a second: the target of one second is beyond the
largest time stamp allowed, and that of half a minute wraps. -/
theorem not_seeks_mpeg :
    move ⟨60000000, ⟨1, 90000⟩⟩ 1000 = ⟨0, 0, 90000, 60000, avseekFlagFrame⟩ ∧
      ¬ Seeks ⟨60000000, ⟨1, 90000⟩⟩ 1000 ∧
      (move ⟨60000000, ⟨1, 90000⟩⟩ 30000).ts = -1594967 ∧
      ¬ Seeks ⟨60000000, ⟨1, 90000⟩⟩ 30000 := by
  have hfirst : move ⟨60000000, ⟨1, 90000⟩⟩ 1000 = ⟨0, 0, 90000, 60000, avseekFlagFrame⟩ := by
    have hrescaled : avRescale 1000 90000 1 = 90000000 := by norm_num [avRescale]
    rw [move, hrescaled]
    rfl
  have hsecond : (move ⟨60000000, ⟨1, 90000⟩⟩ 30000).ts = -1594967 := by
    have hrescaled : avRescale 30000 90000 1 = 2700000000 := by norm_num [avRescale]
    rw [move, hrescaled]
    rfl
  refine ⟨hfirst, ?_, hsecond, ?_⟩
  · intro h
    have hle := h.within.2
    rw [hfirst] at hle
    exact absurd hle (by decide)
  · intro h
    have hle := h.within.1
    rw [hsecond] at hle
    exact absurd hle (by decide)

end FFStream

end Ffmpeg

end RyuLib
