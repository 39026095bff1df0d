import RyuLib.Buffer.MemoryBuffer
import RyuLib.Foundations.Slices

/-!
# AudioResampling

A block of source samples is converted by libswresample; what comes of it is collected in a
`MemoryBuffer`, and `on_data_` is called with one frame of `dst_data_size` bytes, or with
null when there are not enough.

The context of libswresample is of an arbitrary type, and what `swr_convert` makes of a
block in a context is a parameter.  The numbers of an option are natural numbers and their
products are within an `int`.
-/

namespace RyuLib

open Foundations

/-- Blocks of one size that are read from a `MemoryBuffer` are slices of what is written. -/
theorem MemoryBuffer.Represents.read_sliced {m : MemoryBuffer} {stream rest : List UInt8}
    {blocks : List (List UInt8)} {n : ℕ} (h : MemoryBuffer.Represents m rest) (hn : 0 < n)
    (hsliced : Sliced n stream blocks rest) :
    ∃ rest', MemoryBuffer.Represents (m.read n).2 rest' ∧
      Sliced n stream (blocks ++ (m.read n).1.toList) rest' := by
  rcases h.read_cases hn with ⟨-, hnull⟩ | ⟨-, hle, hblock, hrest⟩
  · rw [hnull]
    refine ⟨rest, h, ?_⟩
    show Sliced n stream (blocks ++ []) rest
    rwa [List.append_nil]
  · rw [hblock]
    exact ⟨_, hrest, hsliced.read hle⟩

/-- The members without initializer have any value until `open`. -/
structure AudioResampling (ρ : Type*) where
  memoryBuffer : MemoryBuffer := {}
  srcChannels : ℕ
  srcSamples : ℕ
  srcSampleSize : ℕ
  dstChannels : ℕ
  dstSamples : ℕ
  dstSampleSize : ℕ
  dstDataSize : ℕ
  swrCtx : Option ρ := none

namespace AudioResampling

variable {ρ : Type*}

abbrev srcNbSamples : ℕ := 1024

/-- The results of the calls in `open`: the context that `swr_alloc` returns, and whether
`swr_init`, the allocation of the samples and the one that enlarges them, where it is
needed, succeed. -/
structure OpenResults (ρ : Type*) where
  swrAlloc : Option ρ
  swrInit : Bool
  allocSamples : Bool
  enlargeSamples : Bool

def close (a : AudioResampling ρ) : AudioResampling ρ := { a with swrCtx := none }

def open_ (a : AudioResampling ρ) (inChannels inSamples inSampleSize outChannels outSamples
    outSampleSize frames : ℕ) (r : OpenResults ρ) : Bool × AudioResampling ρ :=
  let a : AudioResampling ρ :=
    { memoryBuffer := a.close.memoryBuffer.clear
      srcChannels := inChannels
      srcSamples := inSamples
      srcSampleSize := inSampleSize
      dstChannels := outChannels
      dstSamples := outSamples
      dstSampleSize := outSampleSize
      dstDataSize := frames * outChannels * outSampleSize
      swrCtx := r.swrAlloc }
  if r.swrAlloc.isNone = true then (false, a.close)
  else if inChannels ≠ 1 ∧ inChannels ≠ 2 then (false, a.close)
  else if outChannels ≠ 1 ∧ outChannels ≠ 2 then (false, a.close)
  else if inSampleSize ≠ 2 ∧ inSampleSize ≠ 4 then (false, a.close)
  else if outSampleSize ≠ 2 ∧ outSampleSize ≠ 4 then (false, a.close)
  else if r.swrInit = false then (false, a.close)
  -- the context stays when there is no memory for the samples
  else if r.allocSamples = false then (false, a)
  else if r.enlargeSamples = false then (false, a)
  else (true, a)

def getSrcBufferSize (a : AudioResampling ρ) : ℕ := srcNbSamples * a.srcChannels * a.srcSampleSize

/-- What `swr_convert` makes of the block, with `none` where it or the computation of the
size fails, and the data that `on_data_` is called with, with `none` for null or no call. -/
def execute (convert : ρ → List UInt8 → Option (List UInt8) × ρ) (a : AudioResampling ρ)
    (data : List UInt8) : Option (List UInt8) × Option (List UInt8) × AudioResampling ρ :=
  match a.swrCtx with
  | none => (none, none, a)
  | some ctx =>
      let (output, ctx) := convert ctx data
      match output with
      | none => (none, none, { a with swrCtx := some ctx })
      | some output =>
          let (dst, memoryBuffer) := (a.memoryBuffer.write output).read a.dstDataSize
          (some output, dst, { a with swrCtx := some ctx, memoryBuffer := memoryBuffer })

/-- What an `open` sets in any case. -/
theorem open_spec (a : AudioResampling ρ) (inChannels inSamples inSampleSize outChannels outSamples
    outSampleSize frames : ℕ) (r : OpenResults ρ) :
    let a' := (a.open_ inChannels inSamples inSampleSize outChannels outSamples outSampleSize
      frames r).2
    a'.dstDataSize = frames * outChannels * outSampleSize ∧
      a'.getSrcBufferSize = srcNbSamples * inChannels * inSampleSize ∧
      a'.memoryBuffer = a.memoryBuffer.clear := by
  unfold open_
  dsimp only
  repeat' split
  all_goals exact ⟨rfl, rfl, rfl⟩

/-- A call that succeeds has passed its first check. -/
theorem guard_passed {σ : Type*} {c : Prop} [Decidable c] {failed : σ} {rest : Bool × σ}
    (h : (if c then (false, failed) else rest).1 = true) :
    ¬ c ∧ (if c then (false, failed) else rest) = rest := by
  by_cases hc : c
  · rw [if_pos hc] at h
    cases h
  · exact ⟨hc, if_neg hc⟩

/-- An `open` that succeeds has a context and source blocks that are not empty. -/
theorem open_eq_true {a : AudioResampling ρ} {inChannels inSamples inSampleSize outChannels
    outSamples outSampleSize frames : ℕ} {r : OpenResults ρ}
    (h : (a.open_ inChannels inSamples inSampleSize outChannels outSamples outSampleSize frames
      r).1 = true) :
    (∃ ctx, r.swrAlloc = some ctx ∧ (a.open_ inChannels inSamples inSampleSize outChannels
        outSamples outSampleSize frames r).2.swrCtx = some ctx) ∧
      0 < srcNbSamples * inChannels * inSampleSize := by
  unfold open_ at h ⊢
  dsimp only at h ⊢
  obtain ⟨hnone, hpassed⟩ := guard_passed h
  rw [hpassed] at h ⊢
  obtain ⟨hin, hpassed⟩ := guard_passed h
  rw [hpassed] at h ⊢
  obtain ⟨-, hpassed⟩ := guard_passed h
  rw [hpassed] at h ⊢
  obtain ⟨hinSize, hpassed⟩ := guard_passed h
  rw [hpassed] at h ⊢
  obtain ⟨-, hpassed⟩ := guard_passed h
  rw [hpassed] at h ⊢
  obtain ⟨-, hpassed⟩ := guard_passed h
  rw [hpassed] at h ⊢
  obtain ⟨-, hpassed⟩ := guard_passed h
  rw [hpassed] at h ⊢
  obtain ⟨-, hpassed⟩ := guard_passed h
  rw [hpassed]
  rw [Option.isNone_iff_eq_none] at hnone
  obtain ⟨ctx, hctx⟩ := Option.ne_none_iff_exists'.mp hnone
  refine ⟨⟨ctx, hctx, hctx⟩, ?_⟩
  have hchannels : 0 < inChannels := by omega
  have hsize : 0 < inSampleSize := by omega
  positivity

section

variable {convert : ρ → List UInt8 → Option (List UInt8) × ρ} {a : AudioResampling ρ}

theorem execute_of_none (h : a.swrCtx = none) (data : List UInt8) :
    a.execute convert data = (none, none, a) := by
  unfold execute
  rw [h]

theorem execute_of_fails {ctx ctx' : ρ} {data : List UInt8} (h : a.swrCtx = some ctx)
    (hconvert : convert ctx data = (none, ctx')) :
    a.execute convert data = (none, none, { a with swrCtx := some ctx' }) := by
  unfold execute
  rw [h]
  dsimp only
  rw [hconvert]

theorem execute_of_converts {ctx ctx' : ρ} {data output : List UInt8} (h : a.swrCtx = some ctx)
    (hconvert : convert ctx data = (some output, ctx')) :
    a.execute convert data =
      (some output, ((a.memoryBuffer.write output).read a.dstDataSize).1,
        { a with
          swrCtx := some ctx'
          memoryBuffer := ((a.memoryBuffer.write output).read a.dstDataSize).2 }) := by
  unfold execute
  rw [h]
  dsimp only
  rw [hconvert]

variable (convert) in
/-- A conversion hands on what the buffer then has a whole frame of. -/
theorem execute_sliced {ctx : ρ} {outputs frames : List (List UInt8)} {rest : List UInt8}
    (hctx : a.swrCtx = some ctx) (hpos : 0 < a.dstDataSize)
    (hrest : MemoryBuffer.Represents a.memoryBuffer rest)
    (hsliced : Sliced a.dstDataSize outputs.flatten frames rest) (data : List UInt8) :
    (a.execute convert data).2.2.swrCtx = some (convert ctx data).2 ∧
      (a.execute convert data).1 = (convert ctx data).1 ∧
      ∃ rest', MemoryBuffer.Represents (a.execute convert data).2.2.memoryBuffer rest' ∧
        Sliced a.dstDataSize (outputs ++ (a.execute convert data).1.toList).flatten
          (frames ++ (a.execute convert data).2.1.toList) rest' := by
  cases hconvert : convert ctx data with
  | mk output ctx' =>
      cases output with
      | none =>
          rw [execute_of_fails hctx hconvert]
          refine ⟨rfl, rfl, rest, hrest, ?_⟩
          show Sliced _ (outputs ++ []).flatten (frames ++ []) rest
          rwa [List.append_nil, List.append_nil]
      | some output =>
          rw [execute_of_converts hctx hconvert]
          refine ⟨rfl, rfl, (hrest.write output).read_sliced hpos ?_⟩
          show Sliced _ (outputs ++ [output]).flatten frames _
          rw [List.flatten_append, List.flatten_singleton]
          exact hsliced.write output

variable (convert) in
/-- A conversion changes neither the sizes nor whether there is a context. -/
theorem execute_keeps (data : List UInt8) :
    (a.execute convert data).2.2.getSrcBufferSize = a.getSrcBufferSize ∧
      (a.execute convert data).2.2.dstDataSize = a.dstDataSize ∧
      ((a.execute convert data).2.2.swrCtx = none ↔ a.swrCtx = none) := by
  cases hctx : a.swrCtx with
  | none =>
      rw [execute_of_none hctx]
      exact ⟨rfl, rfl, iff_of_true hctx rfl⟩
  | some ctx =>
      cases hconvert : convert ctx data with
      | mk output ctx' =>
          cases output with
          | none =>
              rw [execute_of_fails hctx hconvert]
              exact ⟨rfl, rfl, by simp⟩
          | some output =>
              rw [execute_of_converts hctx hconvert]
              exact ⟨rfl, rfl, by simp⟩

end

end AudioResampling

end RyuLib
