import RyuLib.Ffmpeg.Playback

/-!
# Playback and its tasks

Between two tasks the stream, the audio and the video are as if each task so far had been
executed at once (`refines_FFPlayer`), although the worker and the thread of the video go on
while a file is opened or closed.
-/

namespace RyuLib

open Foundations

namespace Ffmpeg

namespace Playback

/-- The task, or the call of `on_repeat`, that an input begins. -/
def Input.task : Input → Option FFPlayer.Input
  | .openTask r => some (.openTask r)
  | .closeTask => some .closeTask
  | .playTask => some .playTask
  | .pauseTask => some .pauseTask
  | .moveTask => some .moveTask
  | .onRepeat isEmpty frame => some (.onRepeat isEmpty frame.isSome)
  | .scheduler | .worker _ | .video _ => none

/-- The components are as the thread of the scheduler left them. -/
structure Shows (p : FFPlayer) (s : State) : Prop where
  stream : p.stream = s.stream
  started : p.started = s.started
  audio : p.audio = s.audio.component
  video : p.video = s.video.component

/-- What is open or closed already while a task is executed. -/
def Follows (tasks : List FFPlayer.Input) (s : State) : Prop :=
  match s.scheduler with
  | .idle | .route | .sync | .drain => ∃ p, FFPlayer.machine.run tasks = some p ∧ Shows p s
  | .openAudio format r =>
      ∃ front p, tasks = front ++ [.openTask r] ∧ FFPlayer.machine.run front = some p ∧
        r.openInput = some format ∧ r.findStreamInfo = true ∧
          Shows { p with stream := ⟨some format⟩ } s
  | .openVideo format r =>
      ∃ front p audio, tasks = front ++ [.openTask r] ∧ FFPlayer.machine.run front = some p ∧
        r.openInput = some format ∧ r.findStreamInfo = true ∧
          FFAudio.openCodec format r.audio p.audio = some (true, audio) ∧
            Shows { p with stream := ⟨some format⟩, audio := audio } s
  | .closeAudio =>
      ∃ p, FFPlayer.machine.run tasks = some p ∧
        Shows p { s with audio := s.audio.close, video := s.video.close }
  | .closeVideo =>
      ∃ p, FFPlayer.machine.run tasks = some p ∧ Shows p { s with video := s.video.close }

variable {s s' : State} {input : Input} {r : Received} {tasks : List FFPlayer.Input}

theorem Shows.congr {p : FFPlayer} (h : Shows p s) (hstream : s'.stream = s.stream)
    (hstarted : s'.started = s.started) (haudio : s'.audio.component = s.audio.component)
    (hvideo : s'.video.component = s.video.component) : Shows p s' :=
  ⟨h.stream.trans hstream.symm, h.started.trans hstarted.symm, h.audio.trans haudio.symm,
    h.video.trans hvideo.symm⟩

/-- The other threads change none of it. -/
theorem Follows.congr (h : Follows tasks s) (hscheduler : s'.scheduler = s.scheduler)
    (hstream : s'.stream = s.stream) (hstarted : s'.started = s.started)
    (haudio : s'.audio.component = s.audio.component)
    (hvideo : s'.video.component = s.video.component) : Follows tasks s' := by
  have hsame : ∀ p, Shows p s → Shows p s' :=
    fun p hp => hp.congr hstream hstarted haudio hvideo
  unfold Follows at *
  rw [hscheduler]
  cases hat : s.scheduler with
  | idle | route | sync | drain =>
      rw [hat] at h
      obtain ⟨p, hrun, hshows⟩ := h
      exact ⟨p, hrun, hsame p hshows⟩
  | openAudio format r =>
      rw [hat] at h
      obtain ⟨front, p, htasks, hrun, hinput, hinfo, hshows⟩ := h
      exact ⟨front, p, htasks, hrun, hinput, hinfo, hsame _ hshows⟩
  | openVideo format r =>
      rw [hat] at h
      obtain ⟨front, p, audio, htasks, hrun, hinput, hinfo, hopened, hshows⟩ := h
      exact ⟨front, p, audio, htasks, hrun, hinput, hinfo, hopened, hsame _ hshows⟩
  | closeAudio =>
      rw [hat] at h
      obtain ⟨p, hrun, hshows⟩ := h
      exact ⟨p, hrun, hshows.congr hstream hstarted (congrArg CodecComponent.close haudio)
        (congrArg CodecComponent.close hvideo)⟩
  | closeVideo =>
      rw [hat] at h
      obtain ⟨p, hrun, hshows⟩ := h
      exact ⟨p, hrun, hshows.congr hstream hstarted haudio
        (congrArg CodecComponent.close hvideo)⟩

/-! ## A task in one step -/

section

variable {p : FFPlayer} {format : AVFormatContext} {r : OpenResults}

theorem step_openFailed (hinput : r.openInput = none) :
    FFPlayer.machine.step p (.openTask r) =
      some { p with stream := ⟨none⟩, reported := some .file } := by
  show FFPlayer.openTask _ r = _
  unfold FFPlayer.openTask FFStream.openFile
  rw [hinput]

theorem step_openUnknown (hinput : r.openInput = some format) (hinfo : r.findStreamInfo = false) :
    FFPlayer.machine.step p (.openTask r) =
      some { p with stream := ⟨some format⟩, reported := some .file } := by
  show FFPlayer.openTask _ r = _
  unfold FFPlayer.openTask FFStream.openFile
  rw [hinput, hinfo]

theorem step_openFile (hinput : r.openInput = some format) (hinfo : r.findStreamInfo = true) :
    FFPlayer.machine.step p (.openTask r) =
      (FFAudio.openCodec format r.audio p.audio).bind fun (opened, audio) =>
        if opened = false then
          some { p with stream := ⟨none⟩, audio := audio, reported := some .audio }
        else
          (FFVideo.openCodec format r.video p.video).map fun (opened, video) =>
            if opened = false then
              { p with
                stream := ⟨none⟩
                audio := audio.close
                video := video
                reported := some .video }
            else
              { p with
                stream := ⟨some format⟩
                audio := audio
                video := video
                reported := none } := by
  show FFPlayer.openTask _ r = _
  unfold FFPlayer.openTask FFStream.openFile
  rw [hinput, hinfo]
  rfl

end

/-- A call of `on_repeat` that reads a packet, or none because there are enough. -/
theorem step_onRepeat {p : FFPlayer} (isEmpty readFrame : Bool) (hstarted : p.started = true)
    (hread : isEmpty = true → p.stream.read readFrame = true) :
    FFPlayer.machine.step p (.onRepeat isEmpty readFrame) = some { p with reported := none } := by
  have hgoes : ¬ (isEmpty = true ∧ p.stream.read readFrame = false) := by
    rintro ⟨hempty, hnone⟩
    rw [hread hempty] at hnone
    cases hnone
  exact (if_neg (by simp [hstarted])).trans (if_neg hgoes)

/-- One that finds the end of the file. -/
theorem step_endOfFile {p : FFPlayer} {readFrame : Bool} (hstarted : p.started = true)
    (hread : p.stream.read readFrame = false) :
    FFPlayer.machine.step p (.onRepeat true readFrame) =
      some { p with reported := none }.doClose :=
  (if_neg (by simp [hstarted])).trans (if_pos ⟨rfl, hread⟩)

/-- Each step of the scheduler takes part in the task that it is in. -/
theorem Follows.of_scheduler (h : Follows tasks s) (hstep : SchedulerStep s input s') :
    Follows (tasks ++ input.task.toList) s' := by
  have hsame : tasks ++ (Input.task .scheduler).toList = tasks := List.append_nil tasks
  unfold Follows at h
  cases hstep with
  | openFailed hat hinput =>
      rw [hat] at h
      obtain ⟨p, hrun, hshows⟩ := h
      have hdone := Machine.run_concat_eq_some.mpr ⟨p, hrun, step_openFailed hinput⟩
      unfold Follows
      rw [hat]
      exact ⟨_, hdone, rfl, hshows.started, hshows.audio, hshows.video⟩
  | openUnknown hat hinput hinfo =>
      rw [hat] at h
      obtain ⟨p, hrun, hshows⟩ := h
      have hdone := Machine.run_concat_eq_some.mpr ⟨p, hrun, step_openUnknown hinput hinfo⟩
      unfold Follows
      rw [hat]
      exact ⟨_, hdone, rfl, hshows.started, hshows.audio, hshows.video⟩
  | openFile hat hinput hinfo =>
      rw [hat] at h
      obtain ⟨p, hrun, hshows⟩ := h
      exact ⟨tasks, p, rfl, hrun, hinput, hinfo, rfl, hshows.started, hshows.audio, hshows.video⟩
  | audioFailed hat hopened =>
      rw [hat] at h
      obtain ⟨front, p, rfl, hrun, hinput, hinfo, hshows⟩ := h
      have haudio : p.audio = s.audio.component := hshows.audio
      have hstep := step_openFile (p := p) hinput hinfo
      rw [haudio, hopened] at hstep
      have hdone := Machine.run_concat_eq_some.mpr ⟨p, hrun, hstep⟩
      rw [hsame]
      exact ⟨_, hdone, rfl, hshows.started, (Codec.component_opened ..).symm, hshows.video⟩
  | @audioOpened format r component hat hopened =>
      rw [hat] at h
      obtain ⟨front, p, rfl, hrun, hinput, hinfo, hshows⟩ := h
      have haudio : p.audio = s.audio.component := hshows.audio
      rw [hsame]
      exact ⟨front, p, component, rfl, hrun, hinput, hinfo, haudio ▸ hopened, hshows.stream,
        hshows.started, (Codec.component_opened ..).symm, hshows.video⟩
  | videoFailed hat hopened =>
      rw [hat] at h
      obtain ⟨front, p, audio, rfl, hrun, hinput, hinfo, haudio, hshows⟩ := h
      have hvideo : p.video = s.video.component := hshows.video
      have hclosed : audio.close = s.audio.component.close := congrArg _ hshows.audio
      have hstep := step_openFile (p := p) hinput hinfo
      rw [haudio, hvideo] at hstep
      simp only [Option.bind_some, Bool.true_eq_false, if_false, hopened] at hstep
      have hdone := Machine.run_concat_eq_some.mpr ⟨p, hrun, hstep⟩
      rw [hsame]
      exact ⟨_, hdone, rfl, hshows.started, hclosed, (Codec.component_opened ..).symm⟩
  | videoOpened hat hopened =>
      rw [hat] at h
      obtain ⟨front, p, audio, rfl, hrun, hinput, hinfo, haudio, hshows⟩ := h
      have hvideo : p.video = s.video.component := hshows.video
      have hstep := step_openFile (p := p) hinput hinfo
      rw [haudio, hvideo] at hstep
      simp only [Option.bind_some, Bool.true_eq_false, if_false, hopened] at hstep
      have hdone := Machine.run_concat_eq_some.mpr ⟨p, hrun, hstep⟩
      rw [hsame]
      exact ⟨_, hdone, hshows.stream, hshows.started, hshows.audio,
        (Codec.component_opened ..).symm⟩
  | closeTask hat =>
      rw [hat] at h
      obtain ⟨p, hrun, hshows⟩ := h
      have hdone := Machine.run_concat_eq_some.mpr
        ⟨p, hrun, (rfl : FFPlayer.machine.step p .closeTask = some _)⟩
      exact ⟨_, hdone, rfl, rfl, congrArg CodecComponent.close hshows.audio,
        congrArg CodecComponent.close hshows.video⟩
  | @endOfFile frame hat hstarted hread =>
      rw [hat] at h
      obtain ⟨p, hrun, hshows⟩ := h
      have hnone : p.stream.read frame.isSome = false := by
        unfold FFStream.read
        rw [hshows.stream]
        rcases hread with hcontext | rfl
        · rw [hcontext]
          rfl
        · exact Bool.and_false _
      have hdone := Machine.run_concat_eq_some.mpr
        ⟨p, hrun, step_endOfFile (hshows.started.trans hstarted) hnone⟩
      exact ⟨_, hdone, rfl, rfl, congrArg CodecComponent.close hshows.audio,
        congrArg CodecComponent.close hshows.video⟩
  | playTask hat =>
      rw [hat] at h
      obtain ⟨p, hrun, hshows⟩ := h
      have hdone := Machine.run_concat_eq_some.mpr
        ⟨p, hrun, (rfl : FFPlayer.machine.step p .playTask = some _)⟩
      unfold Follows
      rw [hat]
      exact ⟨_, hdone, hshows.stream, rfl, hshows.audio, hshows.video⟩
  | pauseTask hat =>
      rw [hat] at h
      obtain ⟨p, hrun, hshows⟩ := h
      have hdone := Machine.run_concat_eq_some.mpr
        ⟨p, hrun, (rfl : FFPlayer.machine.step p .pauseTask = some _)⟩
      unfold Follows
      rw [hat]
      exact ⟨_, hdone, hshows.stream, rfl, hshows.audio, hshows.video⟩
  | moveTask hat hcontext =>
      rw [hat] at h
      obtain ⟨p, hrun, hshows⟩ := h
      have hstep : FFPlayer.machine.step p .moveTask = some { p with reported := none } :=
        if_pos (hshows.stream.symm ▸ hcontext)
      have hdone := Machine.run_concat_eq_some.mpr ⟨p, hrun, hstep⟩
      unfold Follows
      rw [hat]
      exact ⟨_, hdone, hshows.stream, hshows.started, hshows.audio, hshows.video⟩
  | @skip frame hat hstarted =>
      rw [hat] at h
      obtain ⟨p, hrun, hshows⟩ := h
      have hstep := step_onRepeat false frame.isSome
        (hshows.started.trans hstarted) nofun
      have hdone := Machine.run_concat_eq_some.mpr ⟨p, hrun, hstep⟩
      unfold Follows
      rw [hat]
      exact ⟨_, hdone, hshows.stream, hshows.started, hshows.audio, hshows.video⟩
  | read hat hstarted hformat =>
      rw [hat] at h
      obtain ⟨p, hrun, hshows⟩ := h
      have hread : p.stream.read true = true := by
        unfold FFStream.read
        rw [hshows.stream, hformat]
        rfl
      have hdone := Machine.run_concat_eq_some.mpr
        ⟨p, hrun, step_onRepeat true true (hshows.started.trans hstarted) fun _ => hread⟩
      exact ⟨_, hdone, hshows.stream, hshows.started, hshows.audio, hshows.video⟩
  | routeAudio hat | routeVideo hat | routeOther hat | sync _ hat | closeAudio hat
  | closeVideo hat | drained hat =>
      rw [hat] at h
      obtain ⟨p, hrun, hshows⟩ := h
      rw [hsame]
      exact ⟨p, hrun, hshows.stream, hshows.started, hshows.audio, hshows.video⟩
  | drain hat =>
      rw [hat] at h
      obtain ⟨p, hrun, hshows⟩ := h
      rw [hsame]
      unfold Follows
      rw [hat]
      exact ⟨p, hrun, hshows.stream, hshows.started, hshows.audio, hshows.video⟩

theorem Follows.step (h : Follows tasks s) (hstep : Playback.step s input = some s') :
    Follows (tasks ++ input.task.toList) s' := by
  rcases step_cases hstep with hthread | ⟨r, rfl, hthread⟩ | ⟨r, rfl, hthread⟩
  · exact h.of_scheduler hthread
  · rw [show tasks ++ (Input.task (.worker r)).toList = tasks from List.append_nil tasks]
    cases hthread <;> exact h.congr rfl rfl rfl rfl rfl
  · rw [show tasks ++ (Input.task (.video r)).toList = tasks from List.append_nil tasks]
    cases hthread <;> exact h.congr rfl rfl rfl rfl rfl

theorem follows_of_run : ∀ inputs s, machine.run inputs = some s →
    Follows (inputs.filterMap Input.task) s := by
  refine Machine.run_induction (M := machine)
    (P := fun inputs s => Follows (inputs.filterMap Input.task) s) ⟨{}, rfl, rfl, rfl, rfl, rfl⟩ ?_
  intro inputs s input s' _ ih hstep
  have hlast : [input].filterMap Input.task = input.task.toList := by cases input <;> rfl
  rw [List.filterMap_append, hlast]
  exact ih.step hstep

/-- Between two tasks the components are as if each task so far had been executed at once. -/
theorem refines_FFPlayer (inputs : List Input) (s : State) (hrun : machine.run inputs = some s)
    (hidle : s.scheduler = .idle) :
    ∃ p, FFPlayer.machine.run (inputs.filterMap Input.task) = some p ∧ Shows p s := by
  have hfollows := follows_of_run inputs s hrun
  unfold Follows at hfollows
  rwa [hidle] at hfollows

theorem refines_FFPlayer_played : ∃ s, machine.run played = some s ∧
    ∃ p, FFPlayer.machine.run (played.filterMap Input.task) = some p ∧ Shows p s := by
  obtain ⟨s, hs⟩ := Option.isSome_iff_exists.mp isSome_played
  refine ⟨s, hs, refines_FFPlayer played s hs ?_⟩
  obtain rfl := Option.some.inj hs
  rfl

end Playback

end Ffmpeg

end RyuLib
