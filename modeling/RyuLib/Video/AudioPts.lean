import RyuLib.Ffmpeg.VideoCreater
import RyuLib.Foundations.Wrapping

/-!
# The time stamps of the audio frames

Both recorders give an audio frame the number of samples before it as its `pts`, in units of
one sample, and keep that number in `samples_count`, an `int`.  What is counted is the frames
that get to the encoder, so that the stamps of a recording are the values of one counter that
is advanced by `nb_samples`.

* `VideoCreater.audio_pts_climb_iff`: the stamps are never negative and go up exactly as long
  as the samples before the last frame fit an `int`.
-/

namespace RyuLib

open Foundations

namespace VideoCreater

/-! ## ryulib/VideoCreater.hpp -/

/-- The results with which a block gets to the encoder. -/
def AudioResults.Encodes (r : AudioResults) : Prop := r.makeWritable = true ∧ r.convert = true

instance (r : AudioResults) : Decidable r.Encodes := inferInstanceAs (Decidable (_ ∧ _))

/-- The `pts` of the frames that the loop of `writeAudioPacket` gives to the encoder. -/
def ptsOfBlocks (results : ℕ → AudioResults) : ℕ → ℕ → VideoCreater → List ℤ
  | 0, _, _ => []
  | passes + 1, k, s =>
      match s.audioBuffer.read s.dataSize with
      | (none, _) => []
      | (some _, audioBuffer) =>
          let (written, s) := { s with audioBuffer := audioBuffer }.doWriteAudioPacket (results k)
          let pts := if (results k).Encodes then [s.audioSt.framePts] else []
          if written = false then pts else pts ++ ptsOfBlocks results passes (k + 1) s

/-- The next values after the first ones. -/
theorem map_range_append {α : Type*} (f : ℕ → α) (total more : ℕ) :
    (List.range total).map f ++ (List.range' total more).map f =
      (List.range (total + more)).map f := by
  rw [← List.map_append, List.range_eq_range', List.range_eq_range']
  congr 1
  have happend := List.range'_append_1 (s := 0) (m := total) (n := more)
  rwa [Nat.zero_add] at happend

/-- One value before the next ones. -/
theorem cons_map_range' {α : Type*} (f : ℕ → α) (count more : ℕ) :
    f count :: (List.range' (count + 1) more).map f = (List.range' count (1 + more)).map f := by
  rw [Nat.add_comm 1 more, List.range'_succ, List.map_cons]

/-- With the stamps of all frames that the audio encoder was given. -/
structure Stamped where
  creater : VideoCreater
  pts : List ℤ := []

namespace Stamped

def step (h : Stamped) : Input → Option Stamped
  | .writeBitmap results => some { h with creater := (h.creater.writeBitmap results).2 }
  | .writeAudioPacket packet results =>
      (h.creater.writeAudioPacket packet results).map fun written =>
        { creater := written.2.2
          pts := h.pts ++
            ptsOfBlocks results (h.creater.audioBuffer.unread.length + packet.length + 1) 0
              { h.creater with audioBuffer := h.creater.audioBuffer.write packet } }

def machine (s : VideoCreater) : Machine Stamped Input := ⟨{ creater := s }, step⟩

end Stamped

/-- `samples_count` is the value of a counter after `count` frames, and the time base of the
encoder is a sample. -/
structure Counting (start : ℤ) (n count : ℕ) (s : VideoCreater) : Prop where
  samplesCount : s.audioSt.samplesCount = counter (2 ^ 31) start n count
  nbSamples : s.audioSt.nbSamples = n
  timeBase : s.audioSt.timeBase = ⟨1, s.audioSt.sampleRate⟩
  sampleRate : 0 < s.audioSt.sampleRate

theorem timeBase_ne_zero {rate : ℕ} (h : 0 < rate) : (⟨1, rate⟩ : AVRational).value ≠ 0 := by
  have hcast : (0 : ℚ) < rate := by exact_mod_cast h
  show ((1 : ℤ) : ℚ) / ((rate : ℤ) : ℚ) ≠ 0
  push_cast
  positivity

section

variable {start : ℤ} {n count : ℕ} {s : VideoCreater}

/-- A block that gets to the encoder has the value of the counter and advances it. -/
theorem Counting.doWriteAudioPacket (h : Counting start n count s) {r : AudioResults}
    (hencodes : r.Encodes) :
    (s.doWriteAudioPacket r).2.audioSt.framePts = counter (2 ^ 31) start n count ∧
      Counting start n (count + 1) (s.doWriteAudioPacket r).2 := by
  obtain ⟨hwritable, hconvert⟩ := hencodes
  obtain ⟨hsamples, hnb, htimeBase, hrate⟩ := h
  unfold VideoCreater.doWriteAudioPacket
  simp only [hwritable, hconvert, Bool.true_eq_false, if_false]
  refine ⟨?_, ?_, hnb, htimeBase, hrate⟩
  · rw [htimeBase, avRescaleQ_self _ (timeBase_ne_zero hrate), hsamples]
  · rw [counter_succ, hsamples, hnb]
    rfl

/-- Any other block leaves it as it was. -/
theorem Counting.skip (h : Counting start n count s) {r : AudioResults}
    (hencodes : ¬ r.Encodes) : Counting start n count (s.doWriteAudioPacket r).2 := by
  obtain ⟨hsamples, hnb, htimeBase, hrate⟩ := h
  unfold VideoCreater.doWriteAudioPacket
  by_cases hwritable : r.makeWritable = false
  · simp only [hwritable, if_true]
    exact ⟨hsamples, hnb, htimeBase, hrate⟩
  · have hconvert : r.convert = false := by
      rw [AudioResults.Encodes, not_and] at hencodes
      exact Bool.eq_false_of_not_eq_true (hencodes (Bool.eq_true_of_not_eq_false hwritable))
    simp only [hwritable, hconvert, if_true]
    exact ⟨hsamples, hnb, htimeBase, hrate⟩

theorem ptsOfBlocks_of_short {results : ℕ → AudioResults} {passes k : ℕ}
    (h : (s.audioBuffer.read s.dataSize).1 = none) :
    ptsOfBlocks results (passes + 1) k s = [] := by
  rw [ptsOfBlocks]
  generalize s.audioBuffer.read s.dataSize = read at h
  obtain ⟨data, buffer⟩ := read
  subst h
  rfl

theorem ptsOfBlocks_of_block {results : ℕ → AudioResults} {passes k : ℕ} {data : List UInt8}
    (h : (s.audioBuffer.read s.dataSize).1 = some data) :
    let written := { s with
      audioBuffer := (s.audioBuffer.read s.dataSize).2 }.doWriteAudioPacket (results k)
    let pts := if (results k).Encodes then [written.2.audioSt.framePts] else []
    ptsOfBlocks results (passes + 1) k s =
      if written.1 = false then pts
      else pts ++ ptsOfBlocks results passes (k + 1) written.2 := by
  rw [ptsOfBlocks]
  generalize s.audioBuffer.read s.dataSize = read at h
  obtain ⟨found, buffer⟩ := read
  subst h
  rfl

/-- The stamps of the loop are the next values of the counter. -/
theorem Counting.writeBlocks (results : ℕ → AudioResults) (passes k : ℕ)
    (h : Counting start n count s) :
    ∃ more, ptsOfBlocks results passes k s =
        (List.range' count more).map (counter (2 ^ 31) start n) ∧
      Counting start n (count + more) (VideoCreater.writeBlocks results passes k s).2.2 := by
  induction passes generalizing k s count with
  | zero => exact ⟨0, rfl, h⟩
  | succ passes ih =>
      cases hread : (s.audioBuffer.read s.dataSize).1 with
      | none =>
          rw [ptsOfBlocks_of_short hread, writeBlocks_of_short hread]
          exact ⟨0, rfl, h⟩
      | some data =>
          rw [ptsOfBlocks_of_block hread, writeBlocks_of_block hread]
          have hread' : Counting start n count
              { s with audioBuffer := (s.audioBuffer.read s.dataSize).2 } :=
            ⟨h.samplesCount, h.nbSamples, h.timeBase, h.sampleRate⟩
          by_cases hencodes : (results k).Encodes
          · obtain ⟨hpts, hnext⟩ := hread'.doWriteAudioPacket hencodes
            rw [if_pos hencodes, hpts]
            split
            · exact ⟨1, rfl, hnext⟩
            · obtain ⟨more, hmore, hcounting⟩ := ih (k + 1) hnext
              refine ⟨1 + more, ?_, ?_⟩
              · rw [hmore]
                exact cons_map_range' _ count more
              · rw [← Nat.add_assoc]
                exact hcounting
          · have hnext := hread'.skip hencodes
            rw [if_neg hencodes]
            split
            · exact ⟨0, rfl, hnext⟩
            · exact ih (k + 1) hnext

/-- All stamps of a run are the first values of the counter. -/
theorem stamps_eq_counter {s₀ : VideoCreater} (h : Counting start n 0 s₀) {inputs : List Input}
    {r : Stamped} (hrun : (Stamped.machine s₀).run inputs = some r) :
    ∃ total, r.pts = (List.range total).map (counter (2 ^ 31) start n) ∧
      Counting start n total r.creater := by
  refine Machine.invariant (M := Stamped.machine s₀)
    (I := fun r => ∃ total, r.pts = (List.range total).map (counter (2 ^ 31) start n) ∧
      Counting start n total r.creater) ⟨0, rfl, h⟩ ?_ hrun
  rintro r input r' ⟨total, hpts, hcounting⟩ hstep
  cases input with
  | writeBitmap results =>
      cases hstep
      obtain ⟨-, haudio, -⟩ := writeBitmap_spec r.creater results
      exact ⟨total, hpts, haudio ▸ hcounting.samplesCount, haudio ▸ hcounting.nbSamples,
        haudio ▸ hcounting.timeBase, haudio ▸ hcounting.sampleRate⟩
  | writeAudioPacket packet results =>
      obtain ⟨written, hwritten, rfl⟩ := Option.map_eq_some_iff.mp hstep
      have hfilled : Counting start n total
          { r.creater with audioBuffer := r.creater.audioBuffer.write packet } :=
        ⟨hcounting.samplesCount, hcounting.nbSamples, hcounting.timeBase, hcounting.sampleRate⟩
      obtain ⟨more, hmore, hafter⟩ := hfilled.writeBlocks results
        (r.creater.audioBuffer.unread.length + packet.length + 1) 0
      refine ⟨total + more, ?_, ?_⟩
      · dsimp only
        rw [hpts, hmore, map_range_append]
      · unfold writeAudioPacket at hwritten
        split at hwritten
        · cases hwritten
        · cases hwritten
          exact hafter

/-- When every call succeeds, every block gets to the encoder. -/
theorem length_ptsOfBlocks (passes k : ℕ) (s : VideoCreater) :
    (ptsOfBlocks (fun _ => {}) passes k s).length =
      (VideoCreater.writeBlocks (fun _ => {}) passes k s).1.length := by
  induction passes generalizing k s with
  | zero => rfl
  | succ passes ih =>
      cases hread : (s.audioBuffer.read s.dataSize).1 with
      | none =>
          rw [ptsOfBlocks_of_short hread, writeBlocks_of_short hread]
          rfl
      | some data =>
          rw [ptsOfBlocks_of_block hread, writeBlocks_of_block hread]
          exact congrArg Nat.succ (ih (k + 1) _)

/-- One block after the other: a recording may be of any length. -/
theorem runs_of_any_length {s₀ : VideoCreater} (hpos : 0 < s₀.dataSize)
    (hint : s₀.dataSize < 2 ^ 31) (hbuffer : MemoryBuffer.Represents s₀.audioBuffer [])
    {block : List UInt8} (hblock : block.length = s₀.dataSize) (total : ℕ) :
    ∃ r, (Stamped.machine s₀).run
        (List.replicate total (.writeAudioPacket block fun _ => {})) = some r ∧
      r.pts.length = total ∧ MemoryBuffer.Represents r.creater.audioBuffer [] ∧
      SameSetup s₀ r.creater := by
  induction total with
  | zero => exact ⟨_, Machine.run_nil, rfl, hbuffer, SameSetup.refl s₀⟩
  | succ total ih =>
      obtain ⟨r, hr, hlength, hempty, hsetup⟩ := ih
      rw [← hsetup.dataSize] at hpos hint hblock
      obtain ⟨data, t, hwritten, hleft, hsetup', -⟩ :=
        writeAudioPacket_block hpos hint hempty hblock
      have hstep : (Stamped.machine s₀).step r (.writeAudioPacket block fun _ => {}) =
          some ⟨t, r.pts ++ ptsOfBlocks (fun _ => {})
            (r.creater.audioBuffer.unread.length + block.length + 1) 0
            { r.creater with audioBuffer := r.creater.audioBuffer.write block }⟩ :=
        Option.map_eq_some_iff.mpr ⟨_, hwritten, rfl⟩
      have hrun := Machine.run_concat_eq_some.mpr ⟨r, hr, hstep⟩
      rw [← List.replicate_succ'] at hrun
      refine ⟨_, hrun, ?_, hleft, hsetup.trans hsetup'⟩
      rw [writeAudioPacket, if_neg hpos.ne', Option.some.injEq] at hwritten
      rw [List.length_append, hlength, length_ptsOfBlocks, hwritten]
      rfl

end

end VideoCreater

/-! ## ffmpeg/VideoCreater.hpp -/

namespace Ffmpeg.VideoCreater

/-- The calls between an `open` and the next. -/
inductive Write
  | writeBitmap (results : BitmapResults)
  | writeAudioPacket (packet : List UInt8) (results : ℕ → AudioResults)

structure Stamped where
  creater : VideoCreater
  pts : List ℤ := []

namespace Stamped

def step (h : Stamped) : Write → Option Stamped
  | .writeBitmap results =>
      (h.creater.writeBitmap results).map fun (_, _, creater) => { h with creater := creater }
  | .writeAudioPacket packet results =>
      (h.creater.writeAudioPacket packet results).map fun (blocks, _, creater) =>
        { creater := creater, pts := h.pts ++ blocks.filterMap Written.pts }

def machine (s : VideoCreater) : Machine Stamped Write := ⟨{ creater := s }, step⟩

end Stamped

structure Counting (start : ℤ) (n count : ℕ) (s : VideoCreater) : Prop where
  samplesCount : s.audioSt.samplesCount = counter (2 ^ 31) start n count
  nbSamples : s.audioSt.nbSamples = n

section

variable {start : ℤ} {n count : ℕ} {s t : VideoCreater}

theorem encodeAudio_counts {sampleRate : ℕ} {r : AudioResults} {pts : Option ℤ} {returned : Bool}
    (h : s.encodeAudio sampleRate r = some (pts, returned, t)) :
    t.audioSt.samplesCount = toInt (s.audioSt.samplesCount + s.audioSt.nbSamples) ∧
      t.audioSt.nbSamples = s.audioSt.nbSamples := by
  unfold encodeAudio at h
  dsimp only at h
  split at h
  · cases h
    exact ⟨rfl, rfl⟩
  split at h
  · cases h
    exact ⟨rfl, rfl⟩
  split at h
  · cases h
  · cases h
    exact ⟨rfl, rfl⟩

/-- A block is either given to the encoder, with the value of the counter, or not counted. -/
theorem Counting.doWriteAudioPacket (h : Counting start n count s) {r : AudioResults}
    {pts : Option ℤ} {returned : Bool}
    (hwritten : s.doWriteAudioPacket r = some (pts, returned, t)) :
    (pts = none ∧ Counting start n count t) ∨
      (pts = some (counter (2 ^ 31) start n count) ∧ Counting start n (count + 1) t) := by
  unfold VideoCreater.doWriteAudioPacket at hwritten
  split at hwritten
  · cases hwritten
  split at hwritten
  · cases hwritten
    exact Or.inl ⟨rfl, h⟩
  split at hwritten
  · cases hwritten
  dsimp only at hwritten
  split at hwritten
  · cases hwritten
    exact Or.inl ⟨rfl, h.samplesCount, h.nbSamples⟩
  split at hwritten
  · rename_i hpositive _
    obtain ⟨hpts, -, -⟩ := encodeAudio_spec hpositive hwritten
    obtain ⟨hsamples, hnb⟩ := encodeAudio_counts hwritten
    refine Or.inr ⟨hpts.trans (congrArg some h.samplesCount), ?_, hnb.trans h.nbSamples⟩
    rw [hsamples, h.samplesCount, h.nbSamples, counter_succ]
    rfl
  · cases hwritten

theorem Counting.writeBlocks {dataSize : ℕ} {results : ℕ → AudioResults} {passes k : ℕ}
    {blocks : List Written} {returned : Bool} (h : Counting start n count s)
    (hblocks : VideoCreater.writeBlocks dataSize results passes k s = some (blocks, returned, t)) :
    ∃ more, blocks.filterMap Written.pts =
        (List.range' count more).map (counter (2 ^ 31) start n) ∧
      Counting start n (count + more) t := by
  induction passes generalizing k s count blocks with
  | zero =>
      cases hblocks
      exact ⟨0, rfl, h⟩
  | succ passes ih =>
      rcases writeBlocks_cases hblocks with
        ⟨-, rfl, rfl⟩ | ⟨data, pts, written, u, -, hwritten, hend⟩
      · exact ⟨0, rfl, h⟩
      · have hread : Counting start n count
            { s with audioBuffer := (s.audioBuffer.read dataSize).2 } :=
          ⟨h.samplesCount, h.nbSamples⟩
        rcases hread.doWriteAudioPacket hwritten with ⟨rfl, hu⟩ | ⟨rfl, hu⟩
        · rcases hend with ⟨-, rfl, rfl, -⟩ | ⟨-, later, rfl, hlater⟩
          · exact ⟨0, rfl, hu⟩
          · obtain ⟨more, hmore, hcounting⟩ := ih hu hlater
            exact ⟨more, hmore, hcounting⟩
        · rcases hend with ⟨-, rfl, rfl, -⟩ | ⟨-, later, rfl, hlater⟩
          · exact ⟨1, rfl, hu⟩
          · obtain ⟨more, hmore, hcounting⟩ := ih hu hlater
            refine ⟨1 + more, ?_, ?_⟩
            · rw [List.filterMap_cons, hmore]
              exact RyuLib.VideoCreater.cons_map_range' _ count more
            · rw [← Nat.add_assoc]
              exact hcounting

theorem stamps_eq_counter {s₀ : VideoCreater} (h : Counting start n 0 s₀) {inputs : List Write}
    {r : Stamped} (hrun : (Stamped.machine s₀).run inputs = some r) :
    ∃ total, r.pts = (List.range total).map (counter (2 ^ 31) start n) ∧
      Counting start n total r.creater := by
  refine Machine.invariant (M := Stamped.machine s₀)
    (I := fun r => ∃ total, r.pts = (List.range total).map (counter (2 ^ 31) start n) ∧
      Counting start n total r.creater) ⟨0, rfl, h⟩ ?_ hrun
  rintro r input r' ⟨total, hpts, hcounting⟩ hstep
  cases input with
  | writeBitmap results =>
      obtain ⟨⟨pts, returned, t⟩, hwritten, rfl⟩ := Option.map_eq_some_iff.mp hstep
      refine ⟨total, hpts, ?_⟩
      rcases writeBitmap_cases hwritten with ⟨-, -, rfl⟩ | ⟨-, -, rfl⟩
      · exact hcounting
      · exact ⟨hcounting.samplesCount, hcounting.nbSamples⟩
  | writeAudioPacket packet results =>
      obtain ⟨⟨blocks, returned, t⟩, hwritten, rfl⟩ := Option.map_eq_some_iff.mp hstep
      unfold writeAudioPacket at hwritten
      split at hwritten
      · cases hwritten
      · have hfilled : Counting start n total
            { r.creater with audioBuffer := r.creater.audioBuffer.write packet } :=
          ⟨hcounting.samplesCount, hcounting.nbSamples⟩
        obtain ⟨more, hmore, hafter⟩ := hfilled.writeBlocks hwritten
        refine ⟨total + more, ?_, hafter⟩
        dsimp only
        rw [hpts, hmore, RyuLib.VideoCreater.map_range_append]

end

end Ffmpeg.VideoCreater

/-! ## Recordings of any length -/

/-- The samples before the last of `count` frames fit an `int`, counted from `start`. -/
def SamplesFit (start : ℤ) (n count : ℕ) : Prop :=
  count = 0 ∨ 0 ≤ start ∧ start + (count - 1) * n < 2 ^ 31

theorem climbs_iff_samplesFit {start : ℤ} {n : ℕ} (hpos : 0 < n) (hint : n < 2 ^ 31)
    (hlow : -2 ^ 31 ≤ start) (hhigh : start < 2 ^ 31) {pts : List ℤ} {total : ℕ}
    (hpts : pts = (List.range total).map (counter (2 ^ 31) start n)) :
    Climbs pts ↔ SamplesFit start n pts.length := by
  have hlength : pts.length = total := by
    rw [hpts, List.length_map, List.length_range]
  rw [hlength, hpts, climbs_counter_iff (by exact_mod_cast hpos) (by exact_mod_cast hint)
    (by exact_mod_cast hlow) (by exact_mod_cast hhigh)]
  exact Iff.rfl

/-- In every recording, with the encoder's time base a sample, the stamps that the audio frames
are given are never negative and go up if and only if the samples before the last frame fit
an `int`: in one recorder counted from 0, in the other from what `samples_count` happens to be
when the recording begins. -/
theorem audio_pts_climb_iff {n : ℕ} (hpos : 0 < n) (hint : n < 2 ^ 31) :
    (∀ (channel sampleRate : ℕ) (rates : Option (List ℕ)),
        0 < VideoCreater.chooseRate rates →
          ∀ (inputs : List VideoCreater.Input) (r : VideoCreater.Stamped),
            (VideoCreater.Stamped.machine
              (VideoCreater.new channel sampleRate n rates)).run inputs = some r →
              (Climbs r.pts ↔ SamplesFit 0 n r.pts.length)) ∧
      ∀ s : Ffmpeg.VideoCreater, s.audioSt.nbSamples = n → -2 ^ 31 ≤ s.audioSt.samplesCount →
        s.audioSt.samplesCount < 2 ^ 31 →
          ∀ (inputs : List Ffmpeg.VideoCreater.Write) (r : Ffmpeg.VideoCreater.Stamped),
            (Ffmpeg.VideoCreater.Stamped.machine s).run inputs = some r →
              (Climbs r.pts ↔ SamplesFit s.audioSt.samplesCount n r.pts.length) := by
  constructor
  · intro channel sampleRate rates hrate inputs r hrun
    have hzero : counter (2 ^ 31) 0 n 0 = 0 := counter_zero (by norm_num) (by norm_num) n
    have hcounting : VideoCreater.Counting 0 n 0
        (VideoCreater.new channel sampleRate n rates) := ⟨hzero.symm, rfl, rfl, hrate⟩
    obtain ⟨total, hpts, -⟩ := VideoCreater.stamps_eq_counter hcounting hrun
    exact climbs_iff_samplesFit hpos hint (by norm_num) (by norm_num) hpts
  · intro s hnb hlow hhigh inputs r hrun
    have hcounting : Ffmpeg.VideoCreater.Counting s.audioSt.samplesCount n 0 s :=
      ⟨(counter_zero (by exact_mod_cast hlow) (by exact_mod_cast hhigh) n).symm, hnb⟩
    obtain ⟨total, hpts, -⟩ := Ffmpeg.VideoCreater.stamps_eq_counter hcounting hrun
    exact climbs_iff_samplesFit hpos hint hlow hhigh hpts

/-- Two frames of one sample, and a packet that is too short for one. -/
theorem audio_pts_climb_iff_two :
    (∃ r, (VideoCreater.Stamped.machine (VideoCreater.new 1 44100 1 none)).run
          (List.replicate 2 (.writeAudioPacket [1, 2, 3, 4] fun _ => {})) = some r ∧
        (Climbs r.pts ↔ SamplesFit 0 1 r.pts.length)) ∧
      let s : Ffmpeg.VideoCreater :=
        { videoSt := ⟨false, 0, 0, 0, false, false⟩, audioSt := ⟨true, 5, 5, 1, false, true⟩ }
      ∃ r, (Ffmpeg.VideoCreater.Stamped.machine s).run
          [.writeAudioPacket [1, 2, 3] fun _ => {}] = some r ∧
        (Climbs r.pts ↔ SamplesFit 5 1 r.pts.length) := by
  have hiff := audio_pts_climb_iff Nat.one_pos (by norm_num)
  constructor
  · obtain ⟨r, hrun, -⟩ := VideoCreater.runs_of_any_length
      (show 0 < (VideoCreater.new 1 44100 1 none).dataSize by decide) (by decide)
      MemoryBuffer.represents_new (show ([1, 2, 3, 4] : List UInt8).length = _ from rfl) 2
    exact ⟨r, hrun, hiff.1 1 44100 none (by decide) _ r hrun⟩
  · intro s
    obtain ⟨r, hrun⟩ : ∃ r, (Ffmpeg.VideoCreater.Stamped.machine s).run
        [.writeAudioPacket [1, 2, 3] fun _ => {}] = some r := ⟨_, rfl⟩
    exact ⟨r, hrun, hiff.2 s rfl (by decide) (by decide) _ r hrun⟩

/-- Blocks of 1024 samples at 44100 a second: after 2097152 of them, thirteen and a half hours,
the next frame has a negative stamp. -/
theorem pts_negative_after_hours :
    let block := List.replicate 4096 0
    ∃ r, (VideoCreater.Stamped.machine (VideoCreater.new 1 44100 1024 none)).run
        (List.replicate 2097153 (.writeAudioPacket block fun _ => {})) = some r ∧
      ¬ Climbs r.pts := by
  intro block
  let s₀ := VideoCreater.new 1 44100 1024 none
  have hempty : MemoryBuffer.Represents s₀.audioBuffer [] := MemoryBuffer.represents_new
  have hblock : block.length = s₀.dataSize := by
    show (List.replicate 4096 (0 : UInt8)).length = 1024 * 4 * 1
    rw [List.length_replicate]
  obtain ⟨r, hrun, hlength, -, -⟩ :=
    VideoCreater.runs_of_any_length (by decide) (by decide) hempty hblock 2097153
  refine ⟨r, hrun, ?_⟩
  have hzero : counter (2 ^ 31) 0 (1024 : ℕ) 0 = 0 := counter_zero (by norm_num) (by norm_num) _
  have hcounting : VideoCreater.Counting 0 1024 0 (VideoCreater.new 1 44100 1024 none) :=
    ⟨hzero.symm, rfl, rfl, by decide⟩
  obtain ⟨total, hpts, -⟩ := VideoCreater.stamps_eq_counter hcounting hrun
  rw [climbs_iff_samplesFit (by norm_num) (by norm_num) (by norm_num) (by norm_num) hpts, hlength,
    SamplesFit]
  norm_num

end RyuLib
