import RyuLib.Ffmpeg.VideoCreater
import RyuLib.Foundations.Machine

/-!
# Recordings of one VideoCreater

The calls of ffmpeg/VideoCreater.hpp in any order, from any first values of the counters.
A recording starts afresh when its pictures have `pts` 0, 1, 2, ..., its first audio frame
has `pts` 0, and no frame holds a byte from before the `open`.

* `Recordings.afresh_iff`: every recording does so exactly when pictures and blocks
  get to an encoder only after an `open` that found their counter at 0, and blocks only
  when no byte from before it is left in `audio_buffer`.

`audio_buffer` is a queue, so that the place of a byte among all bytes passed to
`writeAudioPacket` is the number of bytes taken out before it (`Tracks.placed`).
-/

namespace RyuLib

open Foundations

namespace Ffmpeg

/-- A frame that the audio encoder was given; `position` bytes were passed to
`writeAudioPacket` before the first one of `data`. -/
structure AudioFrame where
  pts : ℤ
  position : ℕ
  data : List UInt8

namespace VideoCreater

/-- The frames among blocks that are taken out after `taken` bytes. -/
def place (taken : ℕ) : List Written → List AudioFrame
  | [] => []
  | block :: blocks =>
      (block.pts.toList.map fun pts => ⟨pts, taken, block.data⟩) ++
        place (taken + block.data.length) blocks

theorem place_eq_nil {blocks : List Written} (h : ∀ block ∈ blocks, block.pts = none)
    (taken : ℕ) : place taken blocks = [] := by
  induction blocks generalizing taken with
  | nil => rfl
  | cons block blocks ih =>
      rw [place, h block List.mem_cons_self, ih fun b hb => h b (List.mem_cons_of_mem block hb)]
      rfl

/-- The frames hold what is found at their places in `whole`. -/
theorem place_spec {taken : ℕ} {blocks : List Written} {whole rest : List UInt8}
    (hwhole : whole.drop taken = (blocks.map Written.data).flatten ++ rest) :
    ∀ frame ∈ place taken blocks,
      taken ≤ frame.position ∧
        frame.position + frame.data.length ≤
          taken + (blocks.map Written.data).flatten.length ∧
        frame.data = (whole.drop frame.position).take frame.data.length := by
  induction blocks generalizing taken with
  | nil =>
      intro frame hframe
      exact absurd hframe List.not_mem_nil
  | cons block blocks ih =>
      intro frame hframe
      rw [List.map_cons, List.flatten_cons, List.append_assoc] at hwhole
      rw [List.map_cons, List.flatten_cons, List.length_append]
      rcases List.mem_append.mp hframe with hfirst | hlater
      · obtain ⟨pts, -, rfl⟩ := List.mem_map.mp hfirst
        refine ⟨le_refl taken, by dsimp only; omega, ?_⟩
        rw [hwhole, List.take_left]
      · have hnext : whole.drop (taken + block.data.length) =
            (blocks.map Written.data).flatten ++ rest := by
          rw [← List.drop_drop, hwhole, List.drop_left]
        obtain ⟨hafter, hbefore, hdata⟩ := ih hnext frame hlater
        exact ⟨by omega, by omega, hdata⟩

end VideoCreater

/-- What a successful `open` found, and the number of bytes passed before it. -/
structure Opened where
  nextPts : ℤ
  samplesCount : ℤ
  passed : ℕ

/-- `taken` of the bytes `passed` were taken out of `audio_buffer` so far; `videoPts` and
`audioFrames` are what the encoders were given since the last successful `open`. -/
structure Recordings where
  creater : VideoCreater
  passed : List UInt8 := []
  taken : ℕ := 0
  opened : Option Opened := none
  videoPts : List ℤ := []
  audioFrames : List AudioFrame := []

inductive Call
  | open_ (option : VideoCreaterOption) (results : VideoCreater.OpenResults)
  | close
  | writeBitmap (results : VideoCreater.BitmapResults)
  | writeAudioPacket (packet : List UInt8) (results : ℕ → VideoCreater.AudioResults)

namespace Recordings

def step (s : Recordings) : Call → Option Recordings
  | .open_ option results =>
      let (opened, creater) := s.creater.open_ option results
      if opened = true then
        some
          { creater := creater
            passed := s.passed
            taken := s.taken
            opened := some
              { nextPts := s.creater.videoSt.nextPts
                samplesCount := s.creater.audioSt.samplesCount
                passed := s.passed.length } }
      else some { s with creater := creater }
  | .close => some { s with creater := s.creater.close }
  | .writeBitmap results =>
      (s.creater.writeBitmap results).map fun (pts, _, creater) =>
        { s with creater := creater, videoPts := s.videoPts ++ pts.toList }
  | .writeAudioPacket packet results =>
      (s.creater.writeAudioPacket packet results).map fun (blocks, _, creater) =>
        { s with
          creater := creater
          passed := s.passed ++ packet
          taken := s.taken + (blocks.map VideoCreater.Written.data).flatten.length
          audioFrames := s.audioFrames ++ VideoCreater.place s.taken blocks }

/-- `video` and `audio` are what the members of a new object happen to hold. -/
def machine (video audio : OutputStream) : Machine Recordings Call :=
  ⟨{ creater := { videoSt := video, audioSt := audio } }, step⟩

/-- The recording since the last successful `open`, if there was one, starts afresh. -/
def Afresh (s : Recordings) : Prop :=
  ∀ o ∈ s.opened,
    s.videoPts = (List.range s.videoPts.length).map Nat.cast ∧
      (∀ frame ∈ s.audioFrames.head?, frame.pts = 0) ∧
      ∀ frame ∈ s.audioFrames, o.passed ≤ frame.position

/-- A picture gets to the encoder only if the `open` found `next_pts` at 0, and a block only
if it found `samples_count` at 0 and its bytes are taken out. -/
def Clean (s : Recordings) : Call → Prop
  | .writeBitmap results => results.Encodes → ∀ o ∈ s.opened, o.nextPts = 0
  | .writeAudioPacket packet results =>
      s.creater.dataSize ≤ (s.creater.audioBuffer.write packet).size → (results 0).Encodes →
        ∀ o ∈ s.opened, o.samplesCount = 0 ∧ o.passed ≤ s.taken
  | _ => True

/-- How the recording stands to the calls: its bytes are those passed, in order, and its
counters go on from what the `open` found. -/
structure Tracks (s : Recordings) : Prop where
  taken : s.taken ≤ s.passed.length
  audioBuffer : MemoryBuffer.Represents s.creater.audioBuffer (s.passed.drop s.taken)
  nextPts : ∀ o ∈ s.opened, s.creater.videoSt.nextPts = o.nextPts + s.videoPts.length
  videoPts : ∀ o ∈ s.opened,
    s.videoPts = (List.range s.videoPts.length).map fun i : ℕ => o.nextPts + i
  samplesCount : s.audioFrames = [] →
    ∀ o ∈ s.opened, s.creater.audioSt.samplesCount = o.samplesCount
  firstPts : ∀ frame ∈ s.audioFrames.head?, ∀ o ∈ s.opened, frame.pts = o.samplesCount
  placed : ∀ frame ∈ s.audioFrames, frame.position + frame.data.length ≤ s.taken ∧
    frame.data = (s.passed.drop frame.position).take frame.data.length

theorem tracks_init (video audio : OutputStream) : Tracks (machine video audio).init := by
  refine ⟨le_refl 0, MemoryBuffer.represents_new, ?_, ?_, ?_, ?_, ?_⟩
  · intro o ho
    cases ho
  · intro o ho
    cases ho
  · intro _ o ho
    cases ho
  · intro frame hframe
    cases hframe
  · intro frame hframe
    exact absurd hframe List.not_mem_nil

/-- An `open` that fails and a `close` change nothing that is tracked. -/
theorem Tracks.carried {s : Recordings} (h : Tracks s) {creater : VideoCreater}
    (hcarried : VideoCreater.Carried s.creater creater) :
    Tracks { s with creater := creater } := by
  refine ⟨h.taken, ?_, ?_, h.videoPts, ?_, h.firstPts, h.placed⟩
  · rw [hcarried.audioBuffer]
    exact h.audioBuffer
  · rw [hcarried.videoPts]
    exact h.nextPts
  · rw [hcarried.samplesCount]
    exact h.samplesCount

/-- The pictures have `pts` 0, 1, 2, ... exactly when the `open` found 0. -/
theorem Tracks.pictures_iff {s : Recordings} (h : Tracks s) {o : Opened} (ho : o ∈ s.opened) :
    s.videoPts = (List.range s.videoPts.length).map Nat.cast ↔
      o.nextPts = 0 ∨ s.videoPts = [] := by
  have hvideo := h.videoPts o ho
  constructor
  · intro hafresh
    by_cases hnil : s.videoPts = []
    · exact Or.inr hnil
    · left
      have hpos : 0 < s.videoPts.length := List.length_pos_of_ne_nil hnil
      have hfirst := congrArg (·[0]?) (hvideo.symm.trans hafresh)
      simpa [hpos] using hfirst
  · rintro (hzero | hnil)
    · rw [hzero] at hvideo
      simpa using hvideo
    · rw [hnil]
      rfl

theorem Tracks.writeBitmap {s s' : Recordings} (h : Tracks s)
    {results : VideoCreater.BitmapResults} (hstep : step s (.writeBitmap results) = some s') :
    Tracks s' ∧ (Afresh s → (Afresh s' ↔ Clean s (.writeBitmap results))) := by
  obtain ⟨⟨pts, returned, creater⟩, hwritten, rfl⟩ := Option.map_eq_some_iff.mp hstep
  rcases VideoCreater.writeBitmap_cases hwritten with
    ⟨hnot, rfl, rfl⟩ | ⟨hencodes, rfl, rfl⟩
  · have hsame : s.videoPts ++ (none : Option ℤ).toList = s.videoPts := List.append_nil _
    dsimp only
    rw [hsame]
    exact ⟨h, fun hafresh => iff_of_true hafresh fun hencodes => (hnot hencodes).elim⟩
  · have htracks : Tracks
        { s with
          creater := { s.creater with videoSt.nextPts := s.creater.videoSt.nextPts + 1 }
          videoPts := s.videoPts ++ [s.creater.videoSt.nextPts] } := by
      refine ⟨h.taken, h.audioBuffer, ?_, ?_, h.samplesCount, h.firstPts, h.placed⟩
      · intro o ho
        dsimp only
        rw [h.nextPts o ho, List.length_append, List.length_singleton]
        push_cast
        ring
      · intro o ho
        dsimp only
        rw [List.length_append, List.length_singleton, List.range_succ, List.map_append,
          ← h.videoPts o ho, h.nextPts o ho]
        rfl
    refine ⟨htracks, fun hafresh => ?_⟩
    constructor
    · intro hafresh' _ o ho
      exact ((htracks.pictures_iff ho).mp (hafresh' o ho).1).resolve_right
        (List.append_ne_nil_of_right_ne_nil _ (List.cons_ne_nil _ _))
    · intro hclean o ho
      exact ⟨(htracks.pictures_iff ho).mpr (Or.inl (hclean hencodes o ho)), (hafresh o ho).2⟩

/-- The bytes after a call that takes `blocks` out, and the places of all frames. -/
theorem Tracks.bytes {s : Recordings} (h : Tracks s) {packet rest : List UInt8}
    {blocks : List VideoCreater.Written} {n : ℕ}
    (hsliced : Sliced n (s.passed.drop s.taken ++ packet)
      (blocks.map VideoCreater.Written.data) rest) :
    let taken := s.taken + (blocks.map VideoCreater.Written.data).flatten.length
    taken ≤ (s.passed ++ packet).length ∧ rest = (s.passed ++ packet).drop taken ∧
      (∀ frame ∈ VideoCreater.place s.taken blocks, s.taken ≤ frame.position) ∧
      ∀ frame ∈ s.audioFrames ++ VideoCreater.place s.taken blocks,
        frame.position + frame.data.length ≤ taken ∧
          frame.data = ((s.passed ++ packet).drop frame.position).take frame.data.length := by
  have htaken := h.taken
  have hwhole : (s.passed ++ packet).drop s.taken =
      (blocks.map VideoCreater.Written.data).flatten ++ rest := by
    rw [List.drop_append_of_le_length htaken]
    exact hsliced.whole.symm
  have hplaces := VideoCreater.place_spec hwhole
  refine ⟨?_, ?_, fun frame hframe => (hplaces frame hframe).1, ?_⟩
  · have hlength := congrArg List.length hwhole
    rw [List.length_drop, List.length_append, List.length_append] at hlength
    rw [List.length_append]
    omega
  · rw [← List.drop_drop, hwhole, List.drop_left]
  · intro frame hframe
    rcases List.mem_append.mp hframe with hold | hnew
    · obtain ⟨hbefore, hdata⟩ := h.placed frame hold
      refine ⟨by omega, ?_⟩
      rw [List.drop_append_of_le_length (by omega), List.take_append_of_le_length]
      · exact hdata
      · rw [List.length_drop]
        omega
    · exact (hplaces frame hnew).2

/-- The first frame has the `pts` that the `open` found, whenever it comes. -/
theorem Tracks.firstPts_append {s : Recordings} (h : Tracks s) {frames : List AudioFrame}
    (hframes : ∀ frame ∈ frames.head?, frame.pts = s.creater.audioSt.samplesCount) :
    ∀ frame ∈ (s.audioFrames ++ frames).head?, ∀ o ∈ s.opened,
      frame.pts = o.samplesCount := by
  intro frame hframe o ho
  by_cases hnil : s.audioFrames = []
  · rw [hnil, List.nil_append] at hframe
    exact (hframes frame hframe).trans (h.samplesCount hnil o ho)
  · rw [List.head?_append_of_ne_nil _ hnil] at hframe
    exact h.firstPts frame hframe o ho

theorem Tracks.writeAudioPacket {s s' : Recordings} (h : Tracks s) {packet : List UInt8}
    {results : ℕ → VideoCreater.AudioResults}
    (hstep : step s (.writeAudioPacket packet results) = some s') :
    Tracks s' ∧ (Afresh s → (Afresh s' ↔ Clean s (.writeAudioPacket packet results))) := by
  obtain ⟨⟨blocks, returned, creater⟩, hwritten, rfl⟩ := Option.map_eq_some_iff.mp hstep
  obtain ⟨hpos, ⟨hvideo, ⟨rest, hrest, hsliced⟩, -⟩, hencoded, hlost⟩ :=
    VideoCreater.writeAudioPacket_spec h.audioBuffer hwritten
  obtain ⟨htaken, rfl, hafter, hplaced⟩ := h.bytes hsliced
  dsimp only at htaken hrest hplaced hencoded hlost ⊢
  rw [Int.toNat_of_nonneg hpos.le] at hencoded hlost
  by_cases hreaches : s.creater.dataSize ≤ (s.creater.audioBuffer.write packet).size ∧
      (results 0).Encodes
  · obtain ⟨data, later, rfl⟩ := hencoded hreaches.1 hreaches.2
    set frames := VideoCreater.place s.taken
      (⟨data, some s.creater.audioSt.samplesCount⟩ :: later) with hframes
    have hmem : ⟨s.creater.audioSt.samplesCount, s.taken, data⟩ ∈ frames := List.mem_cons_self
    have hhead : ∀ frame ∈ frames.head?, frame.pts = s.creater.audioSt.samplesCount := by
      intro frame hframe
      obtain rfl := Option.some.inj hframe
      rfl
    have hfirstPts := h.firstPts_append hhead
    refine ⟨⟨htaken, hrest, ?_, h.videoPts, ?_, hfirstPts, hplaced⟩, fun hafresh => ?_⟩
    · rw [hvideo]
      exact h.nextPts
    · intro hnil
      rw [(List.append_eq_nil_iff.mp hnil).2] at hmem
      exact absurd hmem List.not_mem_nil
    · constructor
      · intro hafresh' _ _ o ho
        obtain ⟨-, hzero, hposition⟩ := hafresh' o ho
        have hmem' := List.mem_append_right s.audioFrames hmem
        obtain ⟨frame, hframe⟩ : ∃ frame, (s.audioFrames ++ frames).head? = some frame :=
          Option.ne_none_iff_exists'.mp fun hnone =>
            List.ne_nil_of_mem hmem' (List.head?_eq_none_iff.mp hnone)
        refine ⟨?_, hposition _ hmem'⟩
        rw [← hfirstPts frame hframe o ho]
        exact hzero frame hframe
      · intro hclean o ho
        obtain ⟨hzero, hpassed⟩ := hclean hreaches.1 hreaches.2 o ho
        obtain ⟨hpictures, -, hposition⟩ := hafresh o ho
        refine ⟨hpictures, fun frame hframe => (hfirstPts frame hframe o ho).trans hzero, ?_⟩
        intro frame hframe
        rcases List.mem_append.mp hframe with hold | hnew
        · exact hposition frame hold
        · exact hpassed.trans (hafter frame hnew)
  · obtain ⟨hnone, hcount⟩ := hlost hreaches
    rw [VideoCreater.place_eq_nil hnone, List.append_nil] at hplaced ⊢
    refine ⟨⟨htaken, hrest, ?_, h.videoPts, ?_, h.firstPts, hplaced⟩,
      fun hafresh => iff_of_true hafresh ?_⟩
    · rw [hvideo]
      exact h.nextPts
    · rw [hcount]
      exact h.samplesCount
    · intro hle hencodes
      exact (hreaches ⟨hle, hencodes⟩).elim

/-- What a step does to a recording that started afresh. -/
theorem tracks_step {s s' : Recordings} {call : Call} (h : Tracks s)
    (hstep : step s call = some s') : Tracks s' ∧ (Afresh s → (Afresh s' ↔ Clean s call)) := by
  cases call with
  | open_ option results =>
      have hcarried := VideoCreater.open_carries s.creater option results
      unfold step at hstep
      dsimp only at hstep
      split at hstep
      · obtain rfl := Option.some.inj hstep
        refine ⟨?_, fun _ => iff_of_true ?_ trivial⟩
        · refine ⟨h.taken, ?_, ?_, ?_, ?_, ?_, ?_⟩
          · rw [hcarried.audioBuffer]
            exact h.audioBuffer
          · intro o ho
            obtain rfl := Option.some.inj ho
            exact hcarried.videoPts.trans (add_zero _).symm
          · intro o _
            rfl
          · intro _ o ho
            obtain rfl := Option.some.inj ho
            exact hcarried.samplesCount
          · intro frame hframe
            cases hframe
          · intro frame hframe
            exact absurd hframe List.not_mem_nil
        · intro o _
          refine ⟨rfl, ?_, ?_⟩
          · intro frame hframe
            cases hframe
          · intro frame hframe
            exact absurd hframe List.not_mem_nil
      · obtain rfl := Option.some.inj hstep
        exact ⟨h.carried hcarried, fun hafresh => iff_of_true hafresh trivial⟩
  | close =>
      obtain rfl := Option.some.inj hstep
      exact ⟨h.carried (VideoCreater.close_carries s.creater),
        fun hafresh => iff_of_true hafresh trivial⟩
  | writeBitmap results => exact h.writeBitmap hstep
  | writeAudioPacket packet results => exact h.writeAudioPacket hstep

/-- In every run, from any first values of the counters: every frame holds the bytes passed
at its place, and all recordings start afresh if and only if every picture and block gets to
its encoder after an `open` that found its counter at 0 and, for a block, with no byte from
before the `open` left. -/
theorem afresh_iff (video audio : OutputStream) {calls : List Call} {s : Recordings}
    (hrun : (machine video audio).run calls = some s) :
    (∀ frame ∈ s.audioFrames,
        frame.data = (s.passed.drop frame.position).take frame.data.length) ∧
      ((machine video audio).Throughout Afresh calls ↔
        (machine video audio).Always Clean calls) := by
  have htracks : ∀ {calls s}, (machine video audio).run calls = some s → Tracks s :=
    Machine.invariant (tracks_init video audio) fun _ _ _ h hstep => (tracks_step h hstep).1
  refine ⟨fun frame hframe => ((htracks hrun).placed frame hframe).2, ?_⟩
  refine Machine.throughout_iff_always (M := machine video audio) ?_ ?_ hrun
  · intro o ho
    cases ho
  · intro calls s call s' hs hthroughout _ hstep
    exact (tracks_step (htracks hs) hstep).2 (hthroughout.last hs)

/-- The streams of an object in zeroed memory. -/
def zeroed : OutputStream := { nextPts := 0, samplesCount := 0, nbSamples := 0 }

/-- Even from counters that hold 0: the first picture of the second recording has `pts` 1. -/
theorem not_afresh_second :
    ∃ s, (machine zeroed zeroed).run
        [.open_ {} {}, .writeBitmap {}, .close, .open_ {} {}, .writeBitmap {}] = some s ∧
      ¬ s.Afresh := by
  refine ⟨_, rfl, fun hafresh => ?_⟩
  exact absurd (hafresh _ rfl).1 (by decide)

theorem afresh_iff_first :
    ∃ s, (machine zeroed zeroed).run [.open_ {} {}, .writeBitmap {}] = some s ∧
      (∀ frame ∈ s.audioFrames,
        frame.data = (s.passed.drop frame.position).take frame.data.length) ∧
      ((machine zeroed zeroed).Throughout Afresh [.open_ {} {}, .writeBitmap {}] ↔
        (machine zeroed zeroed).Always Clean [.open_ {} {}, .writeBitmap {}]) :=
  ⟨_, rfl, afresh_iff _ _ rfl⟩

end Recordings

end Ffmpeg

end RyuLib
