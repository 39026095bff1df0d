import RyuLib.Buffer.MemoryBuffer
import RyuLib.Foundations.Machine
import RyuLib.Foundations.Slices
import RyuLib.Socket.Packet

/-!
# VideoCreater

The recorder of ryulib/VideoCreater.hpp.  Both streams count what was written in `next_pts`,
in units of their encoder's time base, and `isVideoTurn` compares the two clocks.  Audio is
collected in a `MemoryBuffer` and written in blocks of `nb_samples` samples.

* `VideoCreater.clocks_close`: writing whichever stream it is the turn of keeps the clocks
  within one block of each other.
* `VideoCreater.inSync_iff`: the audio clock measures the input exactly when the encoder
  has the sample rate of the input, or as long as no block is written.

Of the calls of FFmpeg only the results are modelled, and the comparison of two clocks is
that of rational numbers.
-/

namespace RyuLib

open Foundations

structure AVRational where
  num : ℤ
  den : ℤ

def AVRational.value (r : AVRational) : ℚ := r.num / r.den

/-- `av_compare_ts`. -/
def avCompareTs (tsA : ℤ) (tbA : AVRational) (tsB : ℤ) (tbB : AVRational) : ℤ :=
  if tsA * tbA.value < tsB * tbB.value then -1
  else if tsA * tbA.value > tsB * tbB.value then 1
  else 0

theorem avCompareTs_le_zero {tsA tsB : ℤ} {tbA tbB : AVRational} :
    avCompareTs tsA tbA tsB tbB ≤ 0 ↔ tsA * tbA.value ≤ tsB * tbB.value := by
  unfold avCompareTs
  split
  · rename_i hlt
    exact iff_of_true (by decide) hlt.le
  · split
    · rename_i hgt
      exact iff_of_false (by decide) (not_le.mpr hgt)
    · rename_i hnot
      exact iff_of_true le_rfl (not_lt.mp hnot)

/-- `av_rescale_q`: `a` units of `bq` in units of `cq`, to the nearest, halfway cases away
from zero. -/
def avRescaleQ (a : ℤ) (bq cq : AVRational) : ℤ :=
  let q := a * bq.value / cq.value
  if 0 ≤ q then ⌊q + 1 / 2⌋ else -⌊-q + 1 / 2⌋

theorem avRescaleQ_self (a : ℤ) {tb : AVRational} (h : tb.value ≠ 0) :
    avRescaleQ a tb tb = a := by
  have hround : ∀ n : ℤ, ⌊(n : ℚ) + 1 / 2⌋ = n := by
    intro n
    rw [Int.floor_intCast_add, show ⌊(1 / 2 : ℚ)⌋ = 0 by norm_num, add_zero]
  unfold avRescaleQ
  rw [mul_div_assoc, div_self h, mul_one]
  dsimp only
  split
  · exact hround a
  · rw [← Int.cast_neg, hround, neg_neg]

namespace VideoCreater

abbrev audioSampleSize : ℕ := 4

/-- Of `enc` the time base and, for audio, the sample rate; of `frame` the time stamp. -/
structure OutputStream where
  timeBase : AVRational
  sampleRate : ℕ := 0
  nextPts : ℤ := 0
  samplesCount : ℤ := 0
  nbSamples : ℕ := 0
  framePts : ℤ := 0
  tmpFramePts : ℤ := 0

/-- Whether the calls in `writeBitmap` succeed; `writeFrame` is that of the packet, if there
is one. -/
structure BitmapResults where
  makeWritable : Bool := true
  swsContext : Bool := true
  encode : Bool := true
  writeFrame : Bool := true

/-- Whether the calls in `do_writeAudioPacket` succeed. -/
structure AudioResults where
  makeWritable : Bool := true
  convert : Bool := true
  encode : Bool := true
  writeFrame : Bool := true

end VideoCreater

/-- `channel_` and `sample_rate_` describe the input. -/
structure VideoCreater where
  channel : ℕ
  sampleRate : ℕ
  videoSt : VideoCreater.OutputStream
  audioSt : VideoCreater.OutputStream
  audioBuffer : MemoryBuffer := {}

namespace VideoCreater

def writeBitmap (s : VideoCreater) (r : BitmapResults) : Bool × VideoCreater :=
  if r.makeWritable = false then (false, s)
  else if r.swsContext = false then (false, s)
  else
    (r.encode && r.writeFrame,
      { s with
        videoSt := { s.videoSt with
          framePts := s.videoSt.nextPts
          nextPts := s.videoSt.nextPts + 1 } })

/-- What is counted stays counted, whichever call fails. -/
def doWriteAudioPacket (s : VideoCreater) (r : AudioResults) : Bool × VideoCreater :=
  let s := { s with
    audioSt := { s.audioSt with
      tmpFramePts := s.audioSt.nextPts
      nextPts := s.audioSt.nextPts + s.audioSt.nbSamples } }
  if r.makeWritable = false then (false, s)
  else if r.convert = false then (false, s)
  else
    (r.encode && r.writeFrame,
      { s with
        audioSt := { s.audioSt with
          framePts := avRescaleQ s.audioSt.samplesCount ⟨1, s.audioSt.sampleRate⟩ s.audioSt.timeBase
          samplesCount := toInt (s.audioSt.samplesCount + s.audioSt.nbSamples) } })

def dataSize (s : VideoCreater) : ℕ := s.audioSt.nbSamples * audioSampleSize * s.channel

/-- The loop of `writeAudioPacket`, at most `passes` times round: the blocks handed to
`do_writeAudioPacket`, the return value and the state.  `results k` is what becomes of
block `k` of this call. -/
def writeBlocks (results : ℕ → AudioResults) :
    ℕ → ℕ → VideoCreater → List (List UInt8) × Bool × VideoCreater
  | 0, _, s => ([], true, s)
  | passes + 1, k, s =>
      match s.audioBuffer.read s.dataSize with
      | (none, _) => ([], true, s)
      | (some data, audioBuffer) =>
          let (written, s) := { s with audioBuffer := audioBuffer }.doWriteAudioPacket (results k)
          if written = false then ([data], false, s)
          else
            let (blocks, returned, s) := writeBlocks results passes (k + 1) s
            (data :: blocks, returned, s)

/-- A block takes at least a byte, so there are at most as many passes as bytes, and one that
finds nothing; with blocks of no bytes the loop does not end. -/
def writeAudioPacket (s : VideoCreater) (packet : List UInt8) (results : ℕ → AudioResults) :
    Option (List (List UInt8) × Bool × VideoCreater) :=
  if s.dataSize = 0 then none
  else
    some (writeBlocks results (s.audioBuffer.unread.length + packet.length + 1) 0
      { s with audioBuffer := s.audioBuffer.write packet })

def isVideoTurn (s : VideoCreater) : Bool :=
  decide (avCompareTs s.videoSt.nextPts s.videoSt.timeBase s.audioSt.nextPts
    s.audioSt.timeBase ≤ 0)

def isAudioTurn (s : VideoCreater) : Bool := !s.isVideoTurn

/-! ## What the writes change -/

/-- The parts of the state that no write changes. -/
structure SameSetup (s t : VideoCreater) : Prop where
  channel : t.channel = s.channel
  sampleRate : t.sampleRate = s.sampleRate
  videoTimeBase : t.videoSt.timeBase = s.videoSt.timeBase
  audioTimeBase : t.audioSt.timeBase = s.audioSt.timeBase
  encoderRate : t.audioSt.sampleRate = s.audioSt.sampleRate
  nbSamples : t.audioSt.nbSamples = s.audioSt.nbSamples

theorem SameSetup.refl (s : VideoCreater) : SameSetup s s := ⟨rfl, rfl, rfl, rfl, rfl, rfl⟩

theorem SameSetup.trans {s t u : VideoCreater} (h : SameSetup s t) (h' : SameSetup t u) :
    SameSetup s u :=
  ⟨h'.channel.trans h.channel, h'.sampleRate.trans h.sampleRate,
    h'.videoTimeBase.trans h.videoTimeBase, h'.audioTimeBase.trans h.audioTimeBase,
    h'.encoderRate.trans h.encoderRate, h'.nbSamples.trans h.nbSamples⟩

theorem SameSetup.dataSize {s t : VideoCreater} (h : SameSetup s t) : t.dataSize = s.dataSize := by
  unfold VideoCreater.dataSize
  rw [h.nbSamples, h.channel]

theorem writeBitmap_spec (s : VideoCreater) (r : BitmapResults) :
    SameSetup s (s.writeBitmap r).2 ∧ (s.writeBitmap r).2.audioSt = s.audioSt ∧
      (s.writeBitmap r).2.audioBuffer = s.audioBuffer := by
  unfold writeBitmap
  repeat' split
  all_goals exact ⟨⟨rfl, rfl, rfl, rfl, rfl, rfl⟩, rfl, rfl⟩

/-- A block is counted whether or not it is written. -/
theorem doWriteAudioPacket_spec (s : VideoCreater) (r : AudioResults) :
    SameSetup s (s.doWriteAudioPacket r).2 ∧
      (s.doWriteAudioPacket r).2.videoSt = s.videoSt ∧
      (s.doWriteAudioPacket r).2.audioBuffer = s.audioBuffer ∧
      (s.doWriteAudioPacket r).2.audioSt.nextPts = s.audioSt.nextPts + s.audioSt.nbSamples := by
  unfold doWriteAudioPacket
  dsimp only
  repeat' split
  all_goals exact ⟨⟨rfl, rfl, rfl, rfl, rfl, rfl⟩, rfl, rfl, rfl⟩

section

variable {results : ℕ → AudioResults} {s : VideoCreater}

theorem writeBlocks_of_short {passes k : ℕ} (h : (s.audioBuffer.read s.dataSize).1 = none) :
    writeBlocks results (passes + 1) k s = ([], true, s) := by
  rw [writeBlocks]
  generalize s.audioBuffer.read s.dataSize = read at h
  obtain ⟨data, buffer⟩ := read
  subst h
  rfl

/-- A block that is not written ends the loop. -/
theorem writeBlocks_of_block {passes k : ℕ} {data : List UInt8}
    (h : (s.audioBuffer.read s.dataSize).1 = some data) :
    let written := { s with
      audioBuffer := (s.audioBuffer.read s.dataSize).2 }.doWriteAudioPacket (results k)
    let later := writeBlocks results passes (k + 1) written.2
    writeBlocks results (passes + 1) k s =
      if written.1 = false then ([data], false, written.2)
      else (data :: later.1, later.2.1, later.2.2) := by
  rw [writeBlocks]
  generalize s.audioBuffer.read s.dataSize = read at h
  obtain ⟨found, buffer⟩ := read
  subst h
  rfl

/-- What the loop leaves of `rest`, the bytes that were in the buffer: the blocks it hands
on are slices, each of them is counted, and a loop that is not broken off leaves less than
a block in the counter. -/
structure BlocksWritten (s : VideoCreater) (rest : List UInt8) (blocks : List (List UInt8))
    (returned : Bool) (t : VideoCreater) : Prop where
  setup : SameSetup s t
  videoSt : t.videoSt = s.videoSt
  nextPts : t.audioSt.nextPts = s.audioSt.nextPts + blocks.length * s.audioSt.nbSamples
  sliced : ∃ rest', MemoryBuffer.Represents t.audioBuffer rest' ∧
    Sliced s.dataSize rest blocks rest'
  counted : returned = true → t.audioBuffer.size < s.dataSize

variable (results s) in
theorem blocksWritten (passes k : ℕ) {rest : List UInt8} (hpos : 0 < s.dataSize)
    (hrest : MemoryBuffer.Represents s.audioBuffer rest) (hpasses : rest.length < passes) :
    BlocksWritten s rest (writeBlocks results passes k s).1 (writeBlocks results passes k s).2.1
        (writeBlocks results passes k s).2.2 ∧
      ((writeBlocks results passes k s).1 = [] ↔ s.audioBuffer.size < s.dataSize) := by
  induction passes generalizing k s rest with
  | zero => omega
  | succ passes ih =>
      rcases hrest.read_cases hpos with ⟨hshort, hnull⟩ | ⟨hcounted, hle, hdata, hleft⟩
      · rw [writeBlocks_of_short (by rw [hnull])]
        exact ⟨⟨SameSetup.refl s, rfl, by simp, ⟨rest, hrest, Sliced.start _ _⟩, fun _ => hshort⟩,
          iff_of_true rfl hshort⟩
      · rw [writeBlocks_of_block hdata]
        obtain ⟨hsetup, hvideo, hbuffer, hpts⟩ := doWriteAudioPacket_spec
          { s with audioBuffer := (s.audioBuffer.read s.dataSize).2 } (results k)
        generalize VideoCreater.doWriteAudioPacket
          { s with audioBuffer := (s.audioBuffer.read s.dataSize).2 } (results k) = written at *
        obtain ⟨ok, t⟩ := written
        dsimp only at hsetup hvideo hbuffer hpts ⊢
        have hsetup' : SameSetup s t := ⟨hsetup.channel, hsetup.sampleRate, hsetup.videoTimeBase,
          hsetup.audioTimeBase, hsetup.encoderRate, hsetup.nbSamples⟩
        rw [← hbuffer] at hleft
        have hfirst := (Sliced.start s.dataSize rest).read hle
        split
        · refine ⟨⟨hsetup', hvideo, ?_, ⟨_, hleft, hfirst⟩, fun h => absurd h Bool.false_ne_true⟩,
            iff_of_false (List.cons_ne_nil _ _) (not_lt.mpr hcounted)⟩
          rw [hpts]
          simp
        · rw [← hsetup'.dataSize] at hpos hle
          have hlength : (rest.drop s.dataSize).length < passes := by
            rw [List.length_drop, ← hsetup'.dataSize]
            omega
          obtain ⟨⟨hsetup'', hvideo', hpts', ⟨rest', hrest', hsliced⟩, hreturned⟩, -⟩ :=
            ih t (k + 1) hpos hleft hlength
          rw [hsetup'.dataSize] at hsliced hreturned
          refine ⟨⟨hsetup'.trans hsetup'', hvideo'.trans hvideo, ?_,
            ⟨rest', hrest', hfirst.trans hsliced⟩, hreturned⟩,
            iff_of_false (List.cons_ne_nil _ _) (not_lt.mpr hcounted)⟩
          rw [hpts', hpts, hsetup'.nbSamples, List.length_cons]
          push_cast
          ring

/-- A call that returns. -/
theorem writeAudioPacket_spec {rest packet : List UInt8} {blocks : List (List UInt8)}
    {returned : Bool} {t : VideoCreater} (hrest : MemoryBuffer.Represents s.audioBuffer rest)
    (h : s.writeAudioPacket packet results = some (blocks, returned, t)) :
    0 < s.dataSize ∧ BlocksWritten s (rest ++ packet) blocks returned t ∧
      (blocks = [] ↔ (s.audioBuffer.write packet).size < s.dataSize) := by
  unfold writeAudioPacket at h
  split at h
  · cases h
  · rename_i hsize
    have hpos : 0 < s.dataSize := Nat.pos_of_ne_zero hsize
    have hwritten := blocksWritten results
      { s with audioBuffer := s.audioBuffer.write packet }
      (s.audioBuffer.unread.length + packet.length + 1) 0 hpos (hrest.write packet)
      (by rw [List.length_append, hrest.unread]; exact Nat.lt_succ_self _)
    rw [Option.some.inj h] at hwritten
    obtain ⟨⟨hsetup, hvideo, hpts, hsliced, hcounted⟩, hfew⟩ := hwritten
    exact ⟨hpos, ⟨⟨hsetup.channel, hsetup.sampleRate, hsetup.videoTimeBase, hsetup.audioTimeBase,
      hsetup.encoderRate, hsetup.nbSamples⟩, hvideo, hpts, hsliced, hcounted⟩, hfew⟩

/-- Of bytes that fit the counter a loop that is not broken off leaves less than a block. -/
theorem BlocksWritten.left {rest rest' : List UInt8} {blocks : List (List UInt8)}
    {t : VideoCreater} (h : BlocksWritten s rest blocks true t)
    (hrest' : MemoryBuffer.Represents t.audioBuffer rest') (hfits : rest'.length < 2 ^ 31) :
    rest'.length < s.dataSize := by
  have hcounted := h.counted rfl
  rw [hrest'.size_eq hfits] at hcounted
  exact_mod_cast hcounted

variable (s) in
/-- When every call succeeds, so does the whole. -/
theorem writeBlocks_succeeds (passes k : ℕ) (h : ∀ k, results k = {}) :
    (writeBlocks results passes k s).2.1 = true := by
  induction passes generalizing k s with
  | zero => rfl
  | succ passes ih =>
      cases hread : (s.audioBuffer.read s.dataSize).1 with
      | none => rw [writeBlocks_of_short hread]
      | some data =>
          rw [writeBlocks_of_block hread, h k]
          exact ih _ (k + 1)

/-- A call of which every part succeeds. -/
theorem writeAudioPacket_succeeds (hpos : 0 < s.dataSize) (packet : List UInt8) :
    ∃ blocks t, s.writeAudioPacket packet (fun _ => {}) = some (blocks, true, t) := by
  have hsucceeds := writeBlocks_succeeds { s with audioBuffer := s.audioBuffer.write packet }
    (s.audioBuffer.unread.length + packet.length + 1) 0 fun _ => rfl
  exact ⟨_, _, (if_neg hpos.ne').trans (congrArg some (Prod.ext rfl (Prod.ext hsucceeds rfl)))⟩

/-- Of a block that finds the buffer empty exactly this block is cut off, and nothing is left. -/
theorem writeAudioPacket_block (hpos : 0 < s.dataSize) (hint : s.dataSize < 2 ^ 31)
    (hempty : MemoryBuffer.Represents s.audioBuffer []) {block : List UInt8}
    (hblock : block.length = s.dataSize) :
    ∃ data t, s.writeAudioPacket block (fun _ => {}) = some ([data], true, t) ∧
      MemoryBuffer.Represents t.audioBuffer [] ∧ SameSetup s t ∧ t.videoSt = s.videoSt ∧
      t.audioSt.nextPts = s.audioSt.nextPts + s.audioSt.nbSamples := by
  obtain ⟨blocks, t, hwritten⟩ := writeAudioPacket_succeeds hpos block
  obtain ⟨-, hall, -⟩ := writeAudioPacket_spec hempty hwritten
  obtain ⟨rest, hrest, hsliced⟩ := hall.sliced
  have hfits : rest.length < 2 ^ 31 := by
    have hwhole := congrArg List.length hsliced.whole
    rw [List.length_append, List.nil_append] at hwhole
    omega
  obtain ⟨hblocks, hleft⟩ := hsliced.eq_slices (hall.left hrest hfits)
  have hcount : blocks.length = 1 := by
    rw [hblocks, length_slices, List.nil_append, hblock, Nat.div_self hpos]
  have hnil : rest = [] := by
    rw [hleft, unsliced, List.nil_append, hblock, Nat.div_self hpos, one_mul, ← hblock,
      List.drop_length]
  obtain ⟨data, rfl⟩ := List.length_eq_one_iff.mp hcount
  refine ⟨data, t, hwritten, hnil ▸ hrest, hall.setup, hall.videoSt, ?_⟩
  rw [hall.nextPts, hcount, Nat.cast_one, one_mul]

/-- A block of 2^31 bytes is never in the counter. -/
theorem writeAudioPacket_large (hlarge : 2 ^ 31 ≤ s.dataSize) {rest : List UInt8}
    (hrest : MemoryBuffer.Represents s.audioBuffer rest) (packet : List UInt8) :
    ∃ rest' t, s.writeAudioPacket packet (fun _ => {}) = some ([], true, t) ∧
      MemoryBuffer.Represents t.audioBuffer rest' ∧ SameSetup s t ∧ t.videoSt = s.videoSt ∧
      t.audioSt.nextPts = s.audioSt.nextPts := by
  obtain ⟨blocks, t, hwritten⟩ :=
    writeAudioPacket_succeeds (Nat.lt_of_lt_of_le (by norm_num) hlarge) packet
  obtain ⟨-, hall, hfew⟩ := writeAudioPacket_spec hrest hwritten
  obtain ⟨rest', hrest', -⟩ := hall.sliced
  obtain rfl : blocks = [] := by
    rw [hfew, MemoryBuffer.size_write]
    have hcounted := toInt_lt (s.audioBuffer.size + packet.length)
    have hlarge' : (2 ^ 31 : ℤ) ≤ s.dataSize := by exact_mod_cast hlarge
    omega
  refine ⟨rest', t, hwritten, hrest', hall.setup, hall.videoSt, ?_⟩
  rw [hall.nextPts, List.length_nil, Nat.cast_zero, zero_mul, add_zero]

end

/-! ## Taking turns -/

/-- The clocks of the two streams. -/
def videoClock (s : VideoCreater) : ℚ := s.videoSt.nextPts * s.videoSt.timeBase.value

def audioClock (s : VideoCreater) : ℚ := s.audioSt.nextPts * s.audioSt.timeBase.value

/-- The durations of a picture and of a block of audio. -/
def videoFrame (s : VideoCreater) : ℚ := s.videoSt.timeBase.value

def audioBlock (s : VideoCreater) : ℚ := s.audioSt.nbSamples * s.audioSt.timeBase.value

theorem isVideoTurn_iff (s : VideoCreater) :
    s.isVideoTurn = true ↔ s.videoClock ≤ s.audioClock := by
  rw [isVideoTurn, decide_eq_true_iff, avCompareTs_le_zero, videoClock, audioClock]

/-- A step of the writing loop: a picture when it is the turn of video, and otherwise the
block of audio at hand; every call succeeds. -/
def takeTurn (s : VideoCreater) (block : List UInt8) : Option VideoCreater :=
  if s.isVideoTurn = true then some (s.writeBitmap {}).2
  else if block.length = s.dataSize then
    (s.writeAudioPacket block fun _ => {}).map fun written => written.2.2
  else none

def writingLoop (s : VideoCreater) : Machine VideoCreater (List UInt8) := ⟨s, takeTurn⟩

/-- Video is behind by less than a block of audio, and ahead by a picture at most. -/
def Close (s : VideoCreater) : Prop :=
  -s.audioBlock < s.videoClock - s.audioClock ∧ s.videoClock - s.audioClock ≤ s.videoFrame

/-- A positive block of audio and a positive picture, and no bytes left over. -/
structure Ready (s : VideoCreater) : Prop where
  videoTimeBase : 0 < s.videoSt.timeBase.value
  audioTimeBase : 0 < s.audioSt.timeBase.value
  nbSamples : 0 < s.audioSt.nbSamples
  channel : 0 < s.channel
  audioBuffer : MemoryBuffer.Represents s.audioBuffer []

/-- What the writing loop keeps: nothing is left over, unless a block is more than the buffer
counts and none is ever written. -/
structure Steady (s : VideoCreater) : Prop where
  videoTimeBase : 0 < s.videoSt.timeBase.value
  audioTimeBase : 0 < s.audioSt.timeBase.value
  nbSamples : 0 < s.audioSt.nbSamples
  channel : 0 < s.channel
  audioBuffer : ∃ rest, MemoryBuffer.Represents s.audioBuffer rest ∧
    (s.dataSize < 2 ^ 31 → rest = [])

theorem Ready.steady {s : VideoCreater} (h : Ready s) : Steady s :=
  ⟨h.videoTimeBase, h.audioTimeBase, h.nbSamples, h.channel, [], h.audioBuffer, fun _ => rfl⟩

theorem Steady.dataSize_pos {s : VideoCreater} (h : Steady s) : 0 < s.dataSize := by
  have hsamples := h.nbSamples
  have hchannel := h.channel
  unfold VideoCreater.dataSize audioSampleSize
  positivity

theorem Steady.setup {s t : VideoCreater} (h : Steady s) (hsetup : SameSetup s t)
    (hbuffer : ∃ rest, MemoryBuffer.Represents t.audioBuffer rest ∧
      (s.dataSize < 2 ^ 31 → rest = [])) : Steady t := by
  refine ⟨?_, ?_, ?_, ?_, ?_⟩
  · rw [hsetup.videoTimeBase]
    exact h.videoTimeBase
  · rw [hsetup.audioTimeBase]
    exact h.audioTimeBase
  · rw [hsetup.nbSamples]
    exact h.nbSamples
  · rw [hsetup.channel]
    exact h.channel
  · rw [hsetup.dataSize]
    exact hbuffer

theorem SameSetup.durations {s t : VideoCreater} (h : SameSetup s t) :
    t.videoFrame = s.videoFrame ∧ t.audioBlock = s.audioBlock := by
  unfold videoFrame audioBlock
  rw [h.videoTimeBase, h.audioTimeBase, h.nbSamples]
  exact ⟨rfl, rfl⟩

/-- A picture moves the clock of video by its duration. -/
theorem takeTurn_video {s t : VideoCreater} (h : Steady s) (hturn : s.isVideoTurn = true)
    {block : List UInt8} (hstep : s.takeTurn block = some t) :
    Steady t ∧ SameSetup s t ∧ t.videoClock = s.videoClock + s.videoFrame ∧
      t.audioClock = s.audioClock := by
  rw [takeTurn, if_pos hturn] at hstep
  obtain rfl := Option.some.inj hstep
  obtain ⟨hsetup, haudio, hbuffer⟩ := writeBitmap_spec s {}
  refine ⟨h.setup hsetup (by rw [hbuffer]; exact h.audioBuffer), hsetup, ?_, ?_⟩
  · calc ((s.videoSt.nextPts + 1 : ℤ) : ℚ) * s.videoSt.timeBase.value
        = s.videoSt.nextPts * s.videoSt.timeBase.value + s.videoSt.timeBase.value := by
          push_cast
          ring
      _ = s.videoClock + s.videoFrame := rfl
  · rw [audioClock, haudio, audioClock]

/-- A block of audio is written at once, and moves the clock of audio by its duration, or it
is more than the buffer counts, and moves nothing. -/
theorem takeTurn_audio {s t : VideoCreater} (h : Steady s) (hturn : ¬ s.isVideoTurn = true)
    {block : List UInt8} (hstep : s.takeTurn block = some t) :
    Steady t ∧ SameSetup s t ∧ t.videoClock = s.videoClock ∧
      (t.audioClock = s.audioClock + s.audioBlock ∨ t.audioClock = s.audioClock) := by
  rw [takeTurn, if_neg hturn] at hstep
  obtain ⟨rest, hrest, hempty⟩ := h.audioBuffer
  split at hstep
  · rename_i hblock
    by_cases hint : s.dataSize < 2 ^ 31
    · obtain rfl := hempty hint
      obtain ⟨data, t', hwritten, hrest', hsetup, hvideo, hpts⟩ :=
        writeAudioPacket_block h.dataSize_pos hint hrest hblock
      rw [hwritten] at hstep
      obtain rfl := Option.some.inj hstep
      refine ⟨h.setup hsetup ⟨[], hrest', fun _ => rfl⟩, hsetup, ?_, Or.inl ?_⟩
      · rw [videoClock, hvideo, videoClock]
      · rw [audioClock, hsetup.audioTimeBase, hpts, audioClock, audioBlock]
        push_cast
        ring
    · obtain ⟨rest', t', hwritten, hrest', hsetup, hvideo, hpts⟩ :=
        writeAudioPacket_large (not_lt.mp hint) hrest block
      rw [hwritten] at hstep
      obtain rfl := Option.some.inj hstep
      refine ⟨h.setup hsetup ⟨rest', hrest', fun hsmall => absurd hsmall hint⟩, hsetup, ?_,
        Or.inr ?_⟩
      · rw [videoClock, hvideo, videoClock]
      · rw [audioClock, hsetup.audioTimeBase, hpts, audioClock]
  · cases hstep

theorem Steady.takeTurn {s t : VideoCreater} (h : Steady s) {block : List UInt8}
    (hstep : s.takeTurn block = some t) : Steady t ∧ SameSetup s t := by
  by_cases hturn : s.isVideoTurn = true
  · obtain ⟨hsteady, hsetup, -⟩ := takeTurn_video h hturn hstep
    exact ⟨hsteady, hsetup⟩
  · obtain ⟨hsteady, hsetup, -⟩ := takeTurn_audio h hturn hstep
    exact ⟨hsteady, hsetup⟩

theorem Steady.takeTurn_isSome {s : VideoCreater} (h : Steady s) {block : List UInt8}
    (hblock : block.length = s.dataSize) : ∃ t, s.takeTurn block = some t := by
  by_cases hturn : s.isVideoTurn = true
  · exact ⟨_, if_pos hturn⟩
  · rw [VideoCreater.takeTurn, if_neg hturn, if_pos hblock, writeAudioPacket,
      if_neg h.dataSize_pos.ne']
    exact ⟨_, rfl⟩

/-- With blocks of the right length the loop goes on. -/
theorem writingLoop_runs {s₀ : VideoCreater} (h : Steady s₀) (blocks : List (List UInt8))
    (hblocks : ∀ block ∈ blocks, block.length = s₀.dataSize) :
    ∃ s, (writingLoop s₀).run blocks = some s ∧ Steady s ∧ SameSetup s₀ s := by
  induction blocks using List.reverseRecOn with
  | nil => exact ⟨s₀, rfl, h, SameSetup.refl s₀⟩
  | append_singleton blocks block ih =>
      obtain ⟨s, hs, hsteady, hsetup⟩ := ih fun b hb => hblocks b (List.mem_append_left _ hb)
      have hlength : block.length = s.dataSize := by
        rw [hsetup.dataSize]
        exact hblocks block (List.mem_append_right _ List.mem_cons_self)
      obtain ⟨t, ht⟩ := hsteady.takeTurn_isSome hlength
      obtain ⟨hsteady', hsetup'⟩ := hsteady.takeTurn ht
      exact ⟨t, Machine.run_concat_eq_some.mpr ⟨s, hs, ht⟩, hsteady', hsetup.trans hsetup'⟩

/-- Whichever turn it is, only the clock that is not ahead moves. -/
theorem Close.takeTurn {s t : VideoCreater} (h : Close s) (hsteady : Steady s)
    {block : List UInt8} (hstep : s.takeTurn block = some t) : Close t := by
  obtain ⟨hlower, hupper⟩ := h
  have hframe : 0 < s.videoFrame := hsteady.videoTimeBase
  by_cases hturn : s.isVideoTurn = true
  · obtain ⟨-, hsetup, hvideo, haudio⟩ := takeTurn_video hsteady hturn hstep
    rw [isVideoTurn_iff] at hturn
    obtain ⟨hsameFrame, hsameBlock⟩ := hsetup.durations
    unfold Close
    rw [hvideo, haudio, hsameFrame, hsameBlock]
    constructor
    · linarith
    · linarith
  · obtain ⟨-, hsetup, hvideo, haudio⟩ := takeTurn_audio hsteady hturn hstep
    rw [isVideoTurn_iff, not_le] at hturn
    obtain ⟨hsameFrame, hsameBlock⟩ := hsetup.durations
    unfold Close
    rw [hvideo, hsameFrame, hsameBlock]
    have hblock : 0 < s.audioBlock :=
      mul_pos (Nat.cast_pos.mpr hsteady.nbSamples) hsteady.audioTimeBase
    rcases haudio with hmoved | hsame
    · rw [hmoved]
      constructor
      · linarith
      · linarith
    · rw [hsame]
      exact ⟨hlower, hupper⟩

/-- In every run of the writing loop from `next_pts` 0 in both streams, for any time bases,
the clocks stay close. -/
theorem clocks_close {s₀ : VideoCreater} (hready : Ready s₀) (hvideo : s₀.videoSt.nextPts = 0)
    (haudio : s₀.audioSt.nextPts = 0) {blocks : List (List UInt8)} {s : VideoCreater}
    (hrun : (writingLoop s₀).run blocks = some s) : Close s := by
  have hinit : Steady s₀ ∧ Close s₀ := by
    refine ⟨hready.steady, ?_⟩
    have hblock : 0 < s₀.audioBlock :=
      mul_pos (Nat.cast_pos.mpr hready.nbSamples) hready.audioTimeBase
    have hframe : 0 < s₀.videoFrame := hready.videoTimeBase
    have hclocks : s₀.videoClock - s₀.audioClock = 0 := by
      rw [videoClock, audioClock, hvideo, haudio]
      simp
    unfold Close
    rw [hclocks]
    exact ⟨neg_neg_of_pos hblock, hframe.le⟩
  refine (Machine.invariant (M := writingLoop s₀) (I := fun s => Steady s ∧ Close s) hinit ?_
    hrun).2
  intro s block t hs hstep
  exact ⟨(hs.1.takeTurn hstep).1, hs.2.takeTurn hs.1 hstep⟩

/-- Pictures of a 25th of a second, and single samples of a 44100th. -/
theorem clocks_close_two :
    let s₀ : VideoCreater :=
      { channel := 1
        sampleRate := 44100
        videoSt := { timeBase := ⟨1, 25⟩ }
        audioSt := { timeBase := ⟨1, 44100⟩, sampleRate := 44100, nbSamples := 1 } }
    ∃ s, (writingLoop s₀).run [[1, 2, 3, 4], [5, 6, 7, 8]] = some s ∧ Close s := by
  intro s₀
  have hready : Ready s₀ := by
    refine ⟨?_, ?_, by decide, by decide, MemoryBuffer.represents_new⟩
    · norm_num [s₀, AVRational.value]
    · norm_num [s₀, AVRational.value]
  obtain ⟨s, hs, -⟩ := writingLoop_runs hready.steady [[1, 2, 3, 4], [5, 6, 7, 8]] (by decide)
  exact ⟨s, hs, clocks_close hready rfl rfl hs⟩

/-! ## The audio clock -/

/-- The sample rate that `add_audio_stream` chooses: 44100 where the encoder allows it, and
otherwise the first one it supports.  `supported_samplerates` is null or a list that ends
with 0. -/
def chooseRate (supportedSamplerates : Option (List ℕ)) : ℕ :=
  match supportedSamplerates with
  | none => 44100
  | some rates => if 44100 ∈ rates then 44100 else rates.headD 0

/-- An object whose two streams are open. -/
def new (channel sampleRate nbSamples : ℕ) (supportedSamplerates : Option (List ℕ)) :
    VideoCreater :=
  { channel := channel
    sampleRate := sampleRate
    videoSt := { timeBase := ⟨1, 25⟩ }
    audioSt :=
      { timeBase := ⟨1, chooseRate supportedSamplerates⟩
        sampleRate := chooseRate supportedSamplerates
        nbSamples := nbSamples } }

inductive Input
  | writeBitmap (results : BitmapResults)
  | writeAudioPacket (packet : List UInt8) (results : ℕ → AudioResults)

/-- With the blocks handed to `do_writeAudioPacket`. -/
structure Recording where
  creater : VideoCreater
  consumed : List (List UInt8) := []

def step (r : Recording) : Input → Option Recording
  | .writeBitmap results => some { r with creater := (r.creater.writeBitmap results).2 }
  | .writeAudioPacket packet results =>
      (r.creater.writeAudioPacket packet results).map fun written =>
        { creater := written.2.2, consumed := r.consumed ++ written.1 }

def machine (channel sampleRate nbSamples : ℕ) (supportedSamplerates : Option (List ℕ)) :
    Machine Recording Input :=
  ⟨{ creater := new channel sampleRate nbSamples supportedSamplerates }, step⟩

/-- How long the blocks play at the input's sample rate. -/
def playingTime (r : Recording) : ℚ :=
  r.consumed.flatten.length / (audioSampleSize * r.creater.channel * r.creater.sampleRate)

/-- The audio clock measures the input. -/
def InSync (r : Recording) : Prop := r.creater.audioClock = playingTime r

/-- The encoder has the input's sample rate, or the call completes no block. -/
def EqualRates (r : Recording) : Input → Prop
  | .writeBitmap _ => True
  | .writeAudioPacket packet _ =>
      r.creater.audioSt.sampleRate = r.creater.sampleRate ∨
        (r.creater.audioBuffer.write packet).size < r.creater.dataSize

/-- The audio stream has counted the samples of the blocks. -/
structure Counted (r : Recording) : Prop where
  timeBase : r.creater.audioSt.timeBase = ⟨1, r.creater.audioSt.sampleRate⟩
  encoderRate : 0 < r.creater.audioSt.sampleRate
  sampleRate : 0 < r.creater.sampleRate
  nextPts : r.creater.audioSt.nextPts = r.consumed.length * r.creater.audioSt.nbSamples
  each : ∀ block ∈ r.consumed, block.length = r.creater.dataSize
  filled : r.consumed ≠ [] → 0 < r.creater.dataSize
  audioBuffer : ∃ rest, MemoryBuffer.Represents r.creater.audioBuffer rest

/-- The samples are those of the input, and the clock takes them for those of the encoder. -/
theorem Counted.inSync_cases {r : Recording} (h : Counted r) :
    InSync r ↔ r.creater.audioSt.sampleRate = r.creater.sampleRate ∨ r.consumed = [] := by
  have hflatten := length_flatten_of_each h.each
  unfold InSync playingTime audioClock
  rw [h.timeBase, h.nextPts, hflatten, AVRational.value]
  by_cases hnil : r.consumed = []
  · simp [hnil]
  · have hpos := h.filled hnil
    unfold dataSize at hpos ⊢
    have hcount : 0 < r.consumed.length := List.length_pos_of_ne_nil hnil
    have hsamples : 0 < r.creater.audioSt.nbSamples := by
      by_contra hzero
      simp [Nat.eq_zero_of_not_pos hzero] at hpos
    have hchannel : 0 < r.creater.channel := by
      by_contra hzero
      simp [Nat.eq_zero_of_not_pos hzero] at hpos
    have hencoder := h.encoderRate
    have hrate := h.sampleRate
    push_cast
    have hsize : (0 : ℚ) < audioSampleSize := by norm_num
    rw [or_iff_left hnil, eq_div_iff (by positivity)]
    field_simp
    rw [Nat.cast_inj, eq_comm]

theorem Counted.writeBitmap {r : Recording} (h : Counted r) (results : BitmapResults) :
    Counted { r with creater := (r.creater.writeBitmap results).2 } := by
  obtain ⟨hsetup, haudio, hbuffer⟩ := writeBitmap_spec r.creater results
  refine ⟨?_, ?_, ?_, ?_, ?_, ?_, ?_⟩
  · rw [haudio]
    exact h.timeBase
  · rw [haudio]
    exact h.encoderRate
  · rw [hsetup.sampleRate]
    exact h.sampleRate
  · rw [haudio]
    exact h.nextPts
  · rw [hsetup.dataSize]
    exact h.each
  · rw [hsetup.dataSize]
    exact h.filled
  · rw [hbuffer]
    exact h.audioBuffer

theorem Counted.writeAudioPacket {r : Recording} (h : Counted r) {packet : List UInt8}
    {results : ℕ → AudioResults} {blocks : List (List UInt8)} {returned : Bool}
    {t : VideoCreater}
    (hwritten : r.creater.writeAudioPacket packet results = some (blocks, returned, t)) :
    Counted { creater := t, consumed := r.consumed ++ blocks } ∧ SameSetup r.creater t ∧
      (blocks = [] ↔ (r.creater.audioBuffer.write packet).size < r.creater.dataSize) := by
  obtain ⟨rest, hrest⟩ := h.audioBuffer
  obtain ⟨hpos, ⟨hsetup, -, hpts, ⟨rest', hrest', hsliced⟩, -⟩, hfew⟩ :=
    writeAudioPacket_spec hrest hwritten
  refine ⟨⟨?_, ?_, ?_, ?_, ?_, ?_, ⟨rest', hrest'⟩⟩, hsetup, hfew⟩
  · rw [hsetup.audioTimeBase, hsetup.encoderRate]
    exact h.timeBase
  · rw [hsetup.encoderRate]
    exact h.encoderRate
  · rw [hsetup.sampleRate]
    exact h.sampleRate
  · rw [hpts, h.nextPts, hsetup.nbSamples, List.length_append]
    push_cast
    ring
  · intro block hblock
    rw [hsetup.dataSize]
    rcases List.mem_append.mp hblock with hbefore | hnew
    · exact h.each block hbefore
    · exact hsliced.each block hnew
  · intro _
    rw [hsetup.dataSize]
    exact hpos

/-- What a step does to the clock of a recording in sync. -/
theorem counted_step {r r' : Recording} {input : Input} (h : Counted r)
    (hstep : step r input = some r') :
    Counted r' ∧ (InSync r → (InSync r' ↔ EqualRates r input)) := by
  cases input with
  | writeBitmap results =>
      obtain rfl := Option.some.inj hstep
      obtain ⟨hsetup, -⟩ := writeBitmap_spec r.creater results
      have hcounted := h.writeBitmap results
      refine ⟨hcounted, fun hsync => iff_of_true ?_ trivial⟩
      rw [hcounted.inSync_cases, hsetup.encoderRate, hsetup.sampleRate]
      exact h.inSync_cases.mp hsync
  | writeAudioPacket packet results =>
      obtain ⟨⟨blocks, returned, t⟩, hwritten, rfl⟩ := Option.map_eq_some_iff.mp hstep
      obtain ⟨hcounted, hsetup, hfew⟩ := h.writeAudioPacket hwritten
      refine ⟨hcounted, fun hsync => ?_⟩
      rw [h.inSync_cases] at hsync
      rw [hcounted.inSync_cases, hsetup.encoderRate, hsetup.sampleRate, List.append_eq_nil_iff,
        EqualRates, ← hfew]
      tauto

theorem counted_new (channel nbSamples : ℕ) {sampleRate : ℕ}
    {supportedSamplerates : Option (List ℕ)} (hrate : 0 < sampleRate)
    (hencoder : 0 < chooseRate supportedSamplerates) :
    Counted (machine channel sampleRate nbSamples supportedSamplerates).init := by
  refine ⟨rfl, hencoder, hrate, ?_, ?_, fun hne => absurd rfl hne,
    ⟨[], MemoryBuffer.represents_new⟩⟩
  · exact (zero_mul _).symm
  · intro block hblock
    exact absurd hblock List.not_mem_nil

/-- In every run, whatever the sample rates of the input and of the encoder, the audio clock
measures the input throughout if and only if the two are equal or no block is completed. -/
theorem inSync_iff {channel sampleRate nbSamples : ℕ} {supportedSamplerates : Option (List ℕ)}
    (hrate : 0 < sampleRate) (hencoder : 0 < chooseRate supportedSamplerates)
    {inputs : List Input} {r : Recording}
    (hrun : (machine channel sampleRate nbSamples supportedSamplerates).run inputs = some r) :
    (machine channel sampleRate nbSamples supportedSamplerates).Throughout InSync inputs ↔
      (machine channel sampleRate nbSamples supportedSamplerates).Always EqualRates inputs := by
  have hinit := counted_new channel nbSamples hrate hencoder
  refine Machine.throughout_iff_always (hinit.inSync_cases.mpr (Or.inr rfl)) ?_ hrun
  intro inputs r input r' hr hthroughout _ hstep
  have hcounted : Counted r :=
    Machine.invariant (I := Counted) hinit (fun _ _ _ h hstep => (counted_step h hstep).1) hr
  exact (counted_step hcounted hstep).2 (hthroughout.last hr)

/-- Input of 48000 samples a second: one sample moves the clock by a 44100th. -/
theorem not_inSync_resampled :
    ∃ r, (machine 1 48000 1 none).run [.writeAudioPacket [1, 2, 3, 4] fun _ => {}] = some r ∧
      ¬ InSync r := by
  obtain ⟨r, hr⟩ : ∃ r, step (machine 1 48000 1 none).init
    (.writeAudioPacket [1, 2, 3, 4] fun _ => {}) = some r := ⟨_, rfl⟩
  refine ⟨r, Machine.run_concat_eq_some.mpr ⟨_, Machine.run_nil, hr⟩, ?_⟩
  have hcounted : Counted (machine 1 48000 1 none).init :=
    counted_new 1 1 (by decide) (by decide)
  rw [(counted_step hcounted hr).2 (hcounted.inSync_cases.mpr (Or.inr rfl))]
  unfold EqualRates
  decide

theorem inSync_iff_equal :
    (machine 1 44100 1 none).Throughout InSync [.writeAudioPacket [1, 2, 3, 4] fun _ => {}] ↔
      (machine 1 44100 1 none).Always EqualRates
        [.writeAudioPacket [1, 2, 3, 4] fun _ => {}] :=
  inSync_iff (by decide) (by decide) rfl

end VideoCreater

end RyuLib
