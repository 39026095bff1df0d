import RyuLib.Foundations.Footprint
import RyuLib.Foundations.Memory
import RyuLib.Thread.Scheduler

/-!
# The volume of AudioInput and AudioOutput

Both callbacks scale the samples of a block in one loop: `fpb_` rounds at a `float*`.  A
block has `fpb_` frames of `channels_` samples of `smaple_size_` bytes, so that the loop
stops after the first half of a stereo block, and with samples of 16 bits it goes over twice
as many bytes as a mono block has.

* `AudioIO.volume_reaches_iff`: the loop scales all samples of the block, or stays within its
  bytes, exactly for one channel of 32 bits and for two of 16, if the packet played fits.

Samples are rational numbers.  The volume scales them when it differs from 1 by more than
0.0001.  What a sample is of which a copy overwrites only some bytes is any number.
-/

namespace RyuLib

open Foundations

/-- The fields of `AudioInput` and of `AudioOutput` that their callbacks read. -/
structure AudioIO where
  channels : ℕ
  smapleSize : ℕ
  fpb : ℕ
  bufferSize : ℕ
  volume : ℚ := 1

namespace AudioIO

/-- A `Memory` of `size` bytes, by its samples. -/
structure Memory where
  size : ℕ
  samples : Block ℚ

/-- The constructors, and `setVolume`. -/
def new (channels smapleSize fpb : ℕ) (volume : ℚ) : AudioIO :=
  { channels := channels
    smapleSize := smapleSize
    fpb := fpb
    bufferSize := smapleSize * fpb * channels
    volume := volume }

/-- `abs(volume_ - 1.0) > 0.0001` -/
def Scales (a : AudioIO) : Prop := |a.volume - 1| > 1 / 10000

instance (a : AudioIO) : Decidable a.Scales := inferInstanceAs (Decidable (_ < _))

/-- `*data = (*data) * volume_; data++;` -/
def scaleSample (a : AudioIO) : Cursor ℚ → Cursor ℚ := Cursor.visit (· * a.volume)

/-- The loop in both callbacks. -/
def scaleLoop (a : AudioIO) (samples : Block ℚ) : Block ℚ :=
  ((a.scaleSample)^[a.fpb] ⟨0, samples⟩).cells

/-- The bytes that the loop touches: four at each sample. -/
def loopBytes (a : AudioIO) (samples : Block ℚ) : List ℕ :=
  touched a.scaleSample (fun c => List.range' (4 * c.position) 4) a.fpb ⟨0, samples⟩

/-- `memcpy`; `torn` is the sample of which only some bytes are copied. -/
def memcpy (samples : Block ℚ) (memory : Memory) (torn : ℚ) : Block ℚ := fun i =>
  if 4 * (i + 1) ≤ memory.size then memory.samples i
  else if 4 * i < memory.size then torn
  else samples i

/-- The samples of the input afterwards, and the size that the handler is called with. -/
def recordCallback (a : AudioIO) (inputBuffer : Block ℚ) : Block ℚ × ℕ :=
  (if a.Scales then a.scaleLoop inputBuffer else inputBuffer, a.bufferSize)

def recordBytes (a : AudioIO) (inputBuffer : Block ℚ) : List ℕ :=
  if a.Scales then a.loopBytes inputBuffer else []

def mute (a : AudioIO) : Memory := ⟨a.bufferSize, fun _ => 0⟩

/-- The samples of the output afterwards. -/
def playCallback (a : AudioIO) (queue : ThreadQueue Memory) (outputBuffer : Block ℚ) (torn : ℚ) :
    Block ℚ × ThreadQueue Memory :=
  match queue.pop with
  | (some memory, queue) =>
      let copied := memcpy outputBuffer memory torn
      (if a.Scales then a.scaleLoop copied else copied, queue)
  | (none, queue) => (memcpy outputBuffer a.mute torn, queue)

def playBytes (a : AudioIO) (queue : ThreadQueue Memory) (outputBuffer : Block ℚ) (torn : ℚ) :
    List ℕ :=
  match queue.pop with
  | (some memory, _) =>
      List.range memory.size ++
        if a.Scales then a.loopBytes (memcpy outputBuffer memory torn) else []
  | (none, _) => List.range a.mute.size

/-- What is copied to the output: the next packet, or silence. -/
def copied (a : AudioIO) (queue : ThreadQueue Memory) : Memory := queue.pop.1.getD a.mute

/-! ## The loop -/

theorem scaleLoop_apply (a : AudioIO) (samples : Block ℚ) (i : ℕ) :
    a.scaleLoop samples i = if i < a.fpb then samples i * a.volume else samples i := by
  rw [scaleLoop, scaleSample, Cursor.cells_visit_iterate]
  simp

theorem mem_loopBytes {a : AudioIO} {samples : Block ℚ} {b : ℕ} :
    b ∈ a.loopBytes samples ↔ b < 4 * a.fpb := by
  rw [loopBytes, mem_touched]
  simp only [scaleSample, Cursor.position_visit_iterate, List.mem_range'_1, Nat.zero_add]
  constructor
  · rintro ⟨k, hk, hb⟩
    omega
  · intro hb
    exact ⟨b / 4, by omega, by omega⟩

/-- A volume that scales is not 1. -/
theorem Scales.ne_one {a : AudioIO} (h : a.Scales) : a.volume ≠ 1 := by
  intro hone
  rw [Scales, hone, sub_self, abs_zero] at h
  exact absurd h (by norm_num)

theorem recordCallback_apply {a : AudioIO} (h : a.Scales) (inputBuffer : Block ℚ) (i : ℕ) :
    (a.recordCallback inputBuffer).1 i =
      if i < a.fpb then inputBuffer i * a.volume else inputBuffer i := by
  rw [recordCallback, if_pos h]
  exact scaleLoop_apply a inputBuffer i

/-! ## The copy -/

theorem memcpy_behind (samples : Block ℚ) {memory : Memory} (torn : ℚ) {i : ℕ}
    (h : memory.size ≤ 4 * i) : memcpy samples memory torn i = samples i := by
  rw [memcpy, if_neg (by omega), if_neg (by omega)]

/-- What is copied to a sample can differ from what was there. -/
theorem exists_memcpy_ne {memory : Memory} {i : ℕ} (h : 4 * i < memory.size) :
    ∃ samples torn, memcpy samples memory torn i ≠ samples i := by
  refine ⟨fun _ => memory.samples i + 1, memory.samples i, ?_⟩
  have hvalue : memcpy (fun _ => memory.samples i + 1) memory (memory.samples i) i =
      memory.samples i := by
    unfold memcpy
    rw [if_pos h, ite_self]
  rw [hvalue]
  exact (lt_add_one _).ne

theorem playCallback_of_nil (a : AudioIO) {queue : ThreadQueue Memory} (h : queue.queue = [])
    (outputBuffer : Block ℚ) (torn : ℚ) :
    (a.playCallback queue outputBuffer torn).1 = memcpy outputBuffer a.mute torn ∧
      a.copied queue = a.mute := by
  unfold playCallback copied ThreadQueue.pop
  rw [h]
  exact ⟨rfl, rfl⟩

theorem playCallback_of_cons {a : AudioIO} (hscales : a.Scales) {queue : ThreadQueue Memory}
    {memory : Memory} {rest : List Memory} (h : queue.queue = memory :: rest)
    (outputBuffer : Block ℚ) (torn : ℚ) :
    (a.playCallback queue outputBuffer torn).1 = a.scaleLoop (memcpy outputBuffer memory torn) ∧
      a.copied queue = memory := by
  unfold playCallback copied ThreadQueue.pop
  rw [h]
  dsimp only
  rw [if_pos hscales]
  exact ⟨rfl, rfl⟩

/-! ## Which samples are scaled -/

/-- The callbacks scale each sample of the block once, and change nothing behind it. -/
def ScalesBlock (a : AudioIO) (queue : ThreadQueue Memory) : Prop :=
  (∀ inputBuffer i, (a.recordCallback inputBuffer).1 i =
      if i < a.fpb * a.channels then inputBuffer i * a.volume else inputBuffer i) ∧
    ∀ outputBuffer torn i, (a.playCallback queue outputBuffer torn).1 i =
      if i < a.fpb * a.channels then memcpy outputBuffer (a.copied queue) torn i * a.volume
      else outputBuffer i

/-- The callbacks touch no byte outside the block. -/
def StaysInside (a : AudioIO) (queue : ThreadQueue Memory) : Prop :=
  (∀ inputBuffer, ∀ b ∈ a.recordBytes inputBuffer, b < a.bufferSize) ∧
    ∀ outputBuffer torn, ∀ b ∈ a.playBytes queue outputBuffer torn, b < a.bufferSize

/-- The packet that is played next has at most the bytes of a block. -/
def PacketFits (a : AudioIO) (queue : ThreadQueue Memory) : Prop :=
  ∀ memory ∈ queue.queue.head?, memory.size ≤ a.bufferSize

theorem recordCallback_iff {a : AudioIO} (hscales : a.Scales)
    (hchannels : a.channels = 1 ∨ a.channels = 2) :
    (∀ inputBuffer i, (a.recordCallback inputBuffer).1 i =
        if i < a.fpb * a.channels then inputBuffer i * a.volume else inputBuffer i) ↔
      a.channels = 1 ∨ a.fpb = 0 := by
  constructor
  · intro h
    rcases hchannels with hone | htwo
    · exact Or.inl hone
    · by_contra hstereo
      -- the first sample behind the loop
      have hsample := h (fun _ => 1) a.fpb
      rw [recordCallback_apply hscales, if_neg (lt_irrefl _), htwo, if_pos (by omega),
        one_mul] at hsample
      exact hscales.ne_one hsample.symm
  · intro h inputBuffer i
    have hsamples : a.fpb * a.channels = a.fpb := by
      rcases h with hone | hzero
      · rw [hone, Nat.mul_one]
      · rw [hzero, Nat.zero_mul]
    rw [recordCallback_apply hscales, hsamples]

theorem playCallback_iff {a : AudioIO} (hscales : a.Scales)
    (hsize : a.bufferSize = 4 * (a.fpb * a.channels)) (hsamples : a.fpb * a.channels = a.fpb)
    (queue : ThreadQueue Memory) :
    (∀ outputBuffer torn i, (a.playCallback queue outputBuffer torn).1 i =
        if i < a.fpb * a.channels then memcpy outputBuffer (a.copied queue) torn i * a.volume
        else outputBuffer i) ↔
      PacketFits a queue := by
  unfold PacketFits
  cases hqueue : queue.queue with
  | nil =>
      refine iff_of_true (fun outputBuffer torn i => ?_) (by simp)
      obtain ⟨hplay, hcopied⟩ := playCallback_of_nil a hqueue outputBuffer torn
      rw [hplay, hcopied]
      by_cases hinside : i < a.fpb * a.channels
      · -- silence is silence at any volume
        have hsilent : memcpy outputBuffer a.mute torn i = 0 := if_pos (by
          show 4 * (i + 1) ≤ a.bufferSize
          omega)
        rw [if_pos hinside, hsilent, zero_mul]
      · rw [if_neg hinside]
        apply memcpy_behind
        show a.bufferSize ≤ 4 * i
        omega
  | cons memory rest =>
      simp only [List.head?_cons, Option.mem_some_iff, forall_eq']
      constructor
      · intro h
        by_contra hlong
        -- the first sample behind the block
        have hlast : 4 * a.fpb < memory.size := by omega
        obtain ⟨outputBuffer, torn, hne⟩ := exists_memcpy_ne hlast
        obtain ⟨hplay, -⟩ := playCallback_of_cons hscales hqueue outputBuffer torn
        have hsample := h outputBuffer torn a.fpb
        rw [hplay, scaleLoop_apply, hsamples, if_neg (lt_irrefl _), if_neg (lt_irrefl _)] at hsample
        exact hne hsample
      · intro hfits outputBuffer torn i
        obtain ⟨hplay, hcopied⟩ := playCallback_of_cons hscales hqueue outputBuffer torn
        rw [hplay, hcopied, scaleLoop_apply, hsamples]
        by_cases hinside : i < a.fpb
        · rw [if_pos hinside, if_pos hinside]
        · rw [if_neg hinside, if_neg hinside]
          exact memcpy_behind outputBuffer torn (by omega)

/-! ## Which bytes are touched -/

theorem recordBytes_iff {a : AudioIO} (hscales : a.Scales) :
    (∀ inputBuffer, ∀ b ∈ a.recordBytes inputBuffer, b < a.bufferSize) ↔
      4 * a.fpb ≤ a.bufferSize := by
  simp only [recordBytes, if_pos hscales, mem_loopBytes]
  constructor
  · intro h
    by_contra hshort
    exact lt_irrefl _ (h (fun _ => 0) a.bufferSize (by omega))
  · intro hle _ b hb
    omega

theorem playBytes_iff {a : AudioIO} (hscales : a.Scales) (hloop : 4 * a.fpb ≤ a.bufferSize)
    (queue : ThreadQueue Memory) :
    (∀ outputBuffer torn, ∀ b ∈ a.playBytes queue outputBuffer torn, b < a.bufferSize) ↔
      PacketFits a queue := by
  unfold PacketFits playBytes ThreadQueue.pop
  cases hqueue : queue.queue with
  | nil =>
      refine iff_of_true (fun _ _ b hb => ?_) (by simp)
      exact List.mem_range.mp hb
  | cons memory rest =>
      simp only [if_pos hscales, List.mem_append, List.mem_range, mem_loopBytes,
        List.head?_cons, Option.mem_some_iff, forall_eq']
      constructor
      · intro h
        by_contra hlong
        exact lt_irrefl _ (h (fun _ => 0) 0 a.bufferSize (Or.inl (by omega)))
      · rintro hfits _ _ b (hcopied | hscaled)
        · exact lt_of_lt_of_le hcopied hfits
        · exact lt_of_lt_of_le hscaled hloop

/-! ## Both callbacks -/

/-- With samples of 32 bits all samples of the block are scaled, and with samples of 16 bits no
byte outside the block is touched. -/
def VolumeReaches (a : AudioIO) (queue : ThreadQueue Memory) : Prop :=
  (a.smapleSize = 4 → ScalesBlock a queue) ∧ (a.smapleSize = 2 → StaysInside a queue)

/-- One channel of 32 bits or two channels of 16 bits, if a block has frames at all, and a
packet that fits. -/
def LoopFits (a : AudioIO) (queue : ThreadQueue Memory) : Prop :=
  (a.smapleSize = 4 → (a.channels = 1 ∨ a.fpb = 0) ∧ PacketFits a queue) ∧
    (a.smapleSize = 2 → (a.channels = 2 ∨ a.fpb = 0) ∧ PacketFits a queue)

theorem scalesBlock_iff {a : AudioIO} (hscales : a.Scales)
    (hchannels : a.channels = 1 ∨ a.channels = 2)
    (hsize : a.bufferSize = 4 * (a.fpb * a.channels)) (queue : ThreadQueue Memory) :
    ScalesBlock a queue ↔ (a.channels = 1 ∨ a.fpb = 0) ∧ PacketFits a queue := by
  rw [ScalesBlock, recordCallback_iff hscales hchannels]
  apply and_congr_right
  intro hmono
  apply playCallback_iff hscales hsize
  rcases hmono with hone | hzero
  · rw [hone, Nat.mul_one]
  · rw [hzero, Nat.zero_mul]

theorem staysInside_iff_fits {a : AudioIO} (hscales : a.Scales)
    (hchannels : a.channels = 1 ∨ a.channels = 2)
    (hsize : a.bufferSize = 2 * (a.fpb * a.channels)) (queue : ThreadQueue Memory) :
    StaysInside a queue ↔ (a.channels = 2 ∨ a.fpb = 0) ∧ PacketFits a queue := by
  have hloop : 4 * a.fpb ≤ a.bufferSize ↔ a.channels = 2 ∨ a.fpb = 0 := by
    rcases hchannels with hone | htwo
    · rw [hsize, hone]
      omega
    · rw [hsize, htwo]
      omega
  rw [StaysInside, recordBytes_iff hscales, ← hloop]
  apply and_congr_right
  intro hle
  exact playBytes_iff hscales hle queue

/-- For every size of a block, one or two channels and a volume that scales. -/
theorem volume_reaches_iff (channels smapleSize fpb : ℕ) (volume : ℚ)
    (hchannels : channels = 1 ∨ channels = 2) (hvolume : |volume - 1| > 1 / 10000)
    (queue : ThreadQueue Memory) :
    VolumeReaches (new channels smapleSize fpb volume) queue ↔
      LoopFits (new channels smapleSize fpb volume) queue := by
  have hscales : (new channels smapleSize fpb volume).Scales := hvolume
  have hsize : (new channels smapleSize fpb volume).bufferSize = smapleSize * (fpb * channels) :=
    Nat.mul_assoc smapleSize fpb channels
  apply and_congr
  · apply imp_congr_right
    intro hfour
    exact scalesBlock_iff hscales hchannels (hsize.trans (congrArg (· * _) hfour)) queue
  · apply imp_congr_right
    intro htwo
    exact staysInside_iff_fits hscales hchannels (hsize.trans (congrArg (· * _) htwo)) queue

/-- One channel of 32 bits at half the volume. -/
theorem volume_reaches_iff_mono :
    VolumeReaches (new 1 4 480 (1 / 2)) ⟨[⟨1920, fun _ => 1⟩]⟩ ↔
      LoopFits (new 1 4 480 (1 / 2)) ⟨[⟨1920, fun _ => 1⟩]⟩ :=
  volume_reaches_iff 1 4 480 (1 / 2) (Or.inl rfl) (by norm_num [abs_of_nonpos]) _

/-- Two channels of 32 bits: the second half of the block keeps its volume. -/
theorem stereo_half_scaled :
    ¬ VolumeReaches (new 2 4 2 (1 / 2)) {} := by
  intro h
  have hscales : (new 2 4 2 (1 / 2)).Scales := by
    show |(1 / 2 : ℚ) - 1| > 1 / 10000
    norm_num [abs_of_nonpos]
  have hsample := (h.1 rfl).1 (fun _ => 1) 2
  rw [recordCallback_apply hscales] at hsample
  change (1 : ℚ) = 1 * (1 / 2) at hsample
  norm_num at hsample

end AudioIO

end RyuLib
