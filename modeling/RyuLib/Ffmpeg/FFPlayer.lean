import RyuLib.Foundations.Machine

/-!
# FFPlayer

An open task opens the stream, the audio and the video one after the other, and cleans up
when one of them fails: it closes the ones before.  What the failing one has allocated
itself by then, and what was open from before, it leaves.

* `FFPlayer.allOrNothing_iff`: a failing open leaves everything closed exactly when it fails
  before anything is allocated and found everything closed.

Of the calls of FFmpeg and SDL only the results are modelled, and of packets only whether
there are some.
-/

namespace RyuLib

open Foundations

namespace Ffmpeg

/-- `codec_type` of a stream. -/
inductive MediaType
  | audio
  | video
  | other
  deriving DecidableEq

/-- Of `AVFormatContext` the streams, as they are after `avformat_find_stream_info`. -/
structure AVFormatContext where
  streams : List MediaType
  deriving DecidableEq

/-- What the calls in `FFAudio::open` and `FFVideo::open` return: the codec or NULL, a context
or NULL, success or failure; `device` is what `AudioSDL::open` returns. -/
structure CodecResults where
  findDecoder : Bool := true
  allocContext : Bool := true
  parametersToContext : Bool := true
  open2 : Bool := true
  device : Bool := true

/-- What the calls of an open task return.  `openInput` is the context that
`avformat_open_input` opens, or none if it fails. -/
structure OpenResults where
  openInput : Option AVFormatContext
  findStreamInfo : Bool := true
  audio : CodecResults := {}
  video : CodecResults := {}

/-- `context_`, or none for a null pointer. -/
structure FFStream where
  context : Option AVFormatContext := none
  deriving DecidableEq

namespace FFStream

/-- A context that cannot be opened is freed and set to null. -/
def openFile (r : OpenResults) : Bool × FFStream :=
  match r.openInput with
  | none => (false, ⟨none⟩)
  | some format => (r.findStreamInfo, ⟨some format⟩)

def close (_ : FFStream) : FFStream := ⟨none⟩

/-- Whether a packet is returned. -/
def read (s : FFStream) (readFrame : Bool) : Bool := s.context.isSome && readFrame

end FFStream

/-- The fields of `FFAudio` and `FFVideo` that `open` sets; `context` says whether `context_` is
not null, and `streamIndex` is none for -1. -/
structure CodecComponent where
  streamIndex : Option ℕ := none
  context : Bool := false
  deriving DecidableEq

namespace CodecComponent

/-- What `FFAudio::open` and `FFVideo::open` share: the return value and the component, or none
for a call that reads through a null pointer. -/
def openCodec (type : MediaType) (format : AVFormatContext) (r : CodecResults)
    (c : CodecComponent) : Option (Bool × CodecComponent) :=
  let c := { c with streamIndex := format.streams.findIdx? (· = type) }
  if c.streamIndex = none then some (false, c)
  else if r.findDecoder = false then some (false, c)
  -- `avcodec_parameters_to_context` writes to the context it is given
  else if r.allocContext = false then none
  else
    let c := { c with context := true }
    if r.parametersToContext = false then some (false, c)
    else if r.open2 = false then some (false, c)
    else some (true, c)

def close (c : CodecComponent) : CodecComponent := { c with context := false }

end CodecComponent

/-- Opens the device last, and returns what that returns. -/
def FFAudio.openCodec (format : AVFormatContext) (r : CodecResults) (c : CodecComponent) :
    Option (Bool × CodecComponent) :=
  (c.openCodec .audio format r).map fun opened => (opened.1 && r.device, opened.2)

/-- What `WindowSDL::open` returns is not looked at. -/
def FFVideo.openCodec (format : AVFormatContext) (r : CodecResults) (c : CodecComponent) :
    Option (Bool × CodecComponent) :=
  c.openCodec .video format r

/-- The component that an ERROR_OPEN is about. -/
inductive OpenError
  | file
  | audio
  | video
  deriving DecidableEq

/-- `reported` is what the last task has reported, and `started` the flag of the scheduler. -/
structure FFPlayer where
  stream : FFStream := {}
  audio : CodecComponent := {}
  video : CodecComponent := {}
  started : Bool := false
  reported : Option OpenError := none
  deriving DecidableEq

namespace FFPlayer

def doClose (p : FFPlayer) : FFPlayer :=
  { p with
    started := false
    stream := p.stream.close
    audio := p.audio.close
    video := p.video.close }

/-- TASK_OPEN. -/
def openTask (p : FFPlayer) (r : OpenResults) : Option FFPlayer :=
  let (opened, stream) := FFStream.openFile r
  match opened, stream.context with
  | true, some format =>
      (FFAudio.openCodec format r.audio p.audio).bind fun (opened, audio) =>
        if opened = false then
          some { p with stream := stream.close, audio := audio, reported := some .audio }
        else
          (FFVideo.openCodec format r.video p.video).map fun (opened, video) =>
            if opened = false then
              { p with
                stream := stream.close
                audio := audio.close
                video := video
                reported := some .video }
            else { p with stream := stream, audio := audio, video := video }
  | _, _ => some { p with stream := stream, reported := some .file }

/-- The tasks, and a call of `on_repeat` with what it finds: `isEmpty` is that of the audio, and
`readFrame` says that the file has not ended. -/
inductive Input
  | openTask (results : OpenResults)
  | closeTask
  | playTask
  | pauseTask
  | moveTask
  | onRepeat (isEmpty readFrame : Bool)

def step (p : FFPlayer) (input : Input) : Option FFPlayer :=
  let p := { p with reported := none }
  match input with
  | .openTask results => p.openTask results
  | .closeTask => some p.doClose
  | .playTask => some { p with started := true }
  | .pauseTask => some { p with started := false }
  -- `FFStream::move` reads through the context
  | .moveTask => if p.stream.context.isSome = true then some p else none
  | .onRepeat isEmpty readFrame =>
      if p.started = false then none
      else if isEmpty = true ∧ p.stream.read readFrame = false then some p.doClose
      else some p

def machine : Machine FFPlayer Input := ⟨{}, step⟩

/-- No component has a context. -/
def Closed (p : FFPlayer) : Prop :=
  p.stream.context = none ∧ p.audio.context = false ∧ p.video.context = false

/-- All of them have one. -/
def Opened (p : FFPlayer) : Prop :=
  p.stream.context ≠ none ∧ p.audio.context = true ∧ p.video.context = true

/-- If the last task has reported an error, everything is closed. -/
def AllOrNothing (p : FFPlayer) : Prop := p.reported ≠ none → p.Closed

/-- A stream of the type, and a decoder for it. -/
def Found (type : MediaType) (format : AVFormatContext) (r : CodecResults) : Prop :=
  type ∈ format.streams ∧ r.findDecoder = true

instance (type : MediaType) (format : AVFormatContext) (r : CodecResults) :
    Decidable (Found type format r) :=
  inferInstanceAs (Decidable (_ ∧ _))

/-- The calls behind the allocation of the context succeed. -/
def Ready (r : CodecResults) : Prop := r.parametersToContext = true ∧ r.open2 = true

/-- Behind the opening of the file, what fails does so because a stream or its decoder is not
found, and then nothing was open before. -/
def CarefulCodecs (p : FFPlayer) (format : AVFormatContext) (r : OpenResults) : Prop :=
  (¬ Found .audio format r.audio → p.Closed) ∧
    (Found .audio format r.audio →
      (Ready r.audio ∧ r.audio.device = true) ∧
        (¬ Found .video format r.video → p.Closed) ∧
          (Found .video format r.video → Ready r.video))

def CarefulOpen (p : FFPlayer) (r : OpenResults) : Prop :=
  match r.openInput with
  | none => p.Closed
  | some format => r.findStreamInfo = true ∧ p.CarefulCodecs format r

/-- An open fails, if it does, in `avformat_open_input` or for want of a stream or a decoder,
and then nothing was open before. -/
def Careful (p : FFPlayer) : Input → Prop
  | .openTask r => p.CarefulOpen r
  | _ => True

end FFPlayer

/-! ## Opening -/

/-- Without a stream or a decoder the context is as before; with both there is one, whatever
fails behind it. -/
theorem CodecComponent.openCodec_spec {type : MediaType} {format : AVFormatContext}
    {r : CodecResults} {c c' : CodecComponent} {opened : Bool}
    (h : c.openCodec type format r = some (opened, c')) :
    (¬ FFPlayer.Found type format r → opened = false ∧ c'.context = c.context) ∧
      (FFPlayer.Found type format r → c'.context = true ∧ (opened = true ↔ FFPlayer.Ready r)) := by
  unfold CodecComponent.openCodec at h
  have hstream : format.streams.findIdx? (· = type) = none ↔ type ∉ format.streams := by
    rw [List.findIdx?_eq_none_iff]
    simp only [decide_eq_false_iff_not]
    exact ⟨fun hnone hmem => hnone type hmem rfl, fun hmem t ht heq => hmem (heq ▸ ht)⟩
  unfold FFPlayer.Found FFPlayer.Ready
  dsimp only at h
  split at h
  · rename_i hnone
    obtain ⟨rfl, rfl⟩ := Prod.mk.inj (Option.some.inj h)
    exact ⟨fun _ => ⟨rfl, rfl⟩, fun hfound => absurd hfound.1 (hstream.mp hnone)⟩
  · rename_i hsome
    have hmem : type ∈ format.streams := not_not.mp fun hnot => hsome (hstream.mpr hnot)
    split at h
    · rename_i hdecoder
      obtain ⟨rfl, rfl⟩ := Prod.mk.inj (Option.some.inj h)
      refine ⟨fun _ => ⟨rfl, rfl⟩, fun hfound => ?_⟩
      rw [hdecoder] at hfound
      exact absurd hfound.2 Bool.false_ne_true
    · rename_i hdecoder
      have hfound := And.intro hmem (Bool.of_not_eq_false hdecoder)
      refine ⟨fun hnot => absurd hfound hnot, fun _ => ?_⟩
      repeat' split at h
      · cases h
      · rename_i hparameters
        obtain ⟨rfl, rfl⟩ := Prod.mk.inj (Option.some.inj h)
        simp [hparameters]
      · rename_i hopen
        obtain ⟨rfl, rfl⟩ := Prod.mk.inj (Option.some.inj h)
        simp [hopen]
      · rename_i hparameters hopen
        obtain ⟨rfl, rfl⟩ := Prod.mk.inj (Option.some.inj h)
        simp [Bool.of_not_eq_false hparameters, Bool.of_not_eq_false hopen]

theorem FFAudio.openCodec_spec {format : AVFormatContext} {r : CodecResults}
    {c c' : CodecComponent} {opened : Bool} (h : FFAudio.openCodec format r c = some (opened, c')) :
    (¬ FFPlayer.Found .audio format r → opened = false ∧ c'.context = c.context) ∧
      (FFPlayer.Found .audio format r →
        c'.context = true ∧ (opened = true ↔ FFPlayer.Ready r ∧ r.device = true)) := by
  obtain ⟨⟨codecOpened, c''⟩, hcodec, hresult⟩ := Option.map_eq_some_iff.mp h
  obtain ⟨rfl, rfl⟩ := Prod.mk.inj hresult
  obtain ⟨hnot, hfound⟩ := CodecComponent.openCodec_spec hcodec
  dsimp only
  constructor
  · intro h
    rw [(hnot h).1]
    exact ⟨rfl, (hnot h).2⟩
  · intro h
    rw [Bool.and_eq_true, (hfound h).2]
    exact ⟨(hfound h).1, Iff.rfl⟩

namespace FFPlayer

variable {p p' : FFPlayer}

/-- What an open task leads to: an error of the file, with a context where it was opened; an
error of the audio, with the audio as that leaves it; an error of the video, likewise; or a
player that is open. -/
theorem openTask_cases {r : OpenResults} (h : p.openTask r = some p') :
    (r.openInput = none ∧ p' = { p with stream := ⟨none⟩, reported := some .file }) ∨
      ∃ format, r.openInput = some format ∧
        ((r.findStreamInfo = false ∧
            p' = { p with stream := ⟨some format⟩, reported := some .file }) ∨
          r.findStreamInfo = true ∧
            ((∃ audio, FFAudio.openCodec format r.audio p.audio = some (false, audio) ∧
                p' = { p with stream := ⟨none⟩, audio := audio, reported := some .audio }) ∨
              ∃ audio, FFAudio.openCodec format r.audio p.audio = some (true, audio) ∧
                ((∃ video, FFVideo.openCodec format r.video p.video = some (false, video) ∧
                    p' = { p with
                      stream := ⟨none⟩, audio := audio.close, video := video
                      reported := some .video }) ∨
                  ∃ video, FFVideo.openCodec format r.video p.video = some (true, video) ∧
                    p' = { p with stream := ⟨some format⟩, audio := audio, video := video }))) := by
  unfold openTask FFStream.openFile at h
  cases hinput : r.openInput with
  | none =>
      rw [hinput] at h
      exact Or.inl ⟨rfl, (Option.some.inj h).symm⟩
  | some format =>
      refine Or.inr ⟨format, rfl, ?_⟩
      rw [hinput] at h
      cases hinfo : r.findStreamInfo with
      | false =>
          rw [hinfo] at h
          exact Or.inl ⟨rfl, (Option.some.inj h).symm⟩
      | true =>
          rw [hinfo] at h
          obtain ⟨⟨opened, audio⟩, haudio, hrest⟩ := Option.bind_eq_some_iff.mp h
          refine Or.inr ⟨rfl, ?_⟩
          cases opened with
          | false => exact Or.inl ⟨audio, haudio, (Option.some.inj hrest).symm⟩
          | true =>
              obtain ⟨⟨opened, video⟩, hvideo, hresult⟩ := Option.map_eq_some_iff.mp hrest
              refine Or.inr ⟨audio, haudio, ?_⟩
              cases opened with
              | false => exact Or.inl ⟨video, hvideo, hresult.symm⟩
              | true => exact Or.inr ⟨video, hvideo, hresult.symm⟩

/-- Between tasks of a run that is careful, all components are open or none is. -/
def Settled (p : FFPlayer) : Prop := p.Closed ∨ p.Opened

theorem Settled.closed_iff (h : p.Settled) :
    (p.audio.context = false ↔ p.Closed) ∧ (p.video.context = false ↔ p.Closed) := by
  rcases h with hclosed | ⟨-, haudio, hvideo⟩
  · exact ⟨iff_of_true hclosed.2.1 hclosed, iff_of_true hclosed.2.2 hclosed⟩
  · unfold Closed
    rw [haudio, hvideo]
    simp

theorem allOrNothing_iff_closed {e : OpenError} (h : p.reported = some e) :
    p.AllOrNothing ↔ p.Closed := by
  unfold AllOrNothing
  rw [h]
  simp

/-- The audio fails. -/
theorem Settled.audioFailed (h : p.Settled) {format : AVFormatContext} {r : OpenResults}
    {audio : CodecComponent}
    (haudio : FFAudio.openCodec format r.audio p.audio = some (false, audio)) :
    (audio.context = false ∧ p.video.context = false) ↔ p.CarefulCodecs format r := by
  obtain ⟨hnot, hfound⟩ := FFAudio.openCodec_spec haudio
  unfold CarefulCodecs
  by_cases hf : Found .audio format r.audio
  · obtain ⟨hcontext, hready⟩ := hfound hf
    have hfailed : ¬ (Ready r.audio ∧ r.audio.device = true) :=
      fun hall => Bool.false_ne_true (hready.mpr hall)
    rw [hcontext]
    exact iff_of_false (fun hall => Bool.false_ne_true hall.1.symm)
      fun hall => hfailed (hall.2 hf).1
  · rw [(hnot hf).2, h.closed_iff.1, h.closed_iff.2]
    simp [hf]

/-- The video fails. -/
theorem Settled.videoFailed (h : p.Settled) {format : AVFormatContext} {r : OpenResults}
    {audio video : CodecComponent}
    (haudio : FFAudio.openCodec format r.audio p.audio = some (true, audio))
    (hvideo : FFVideo.openCodec format r.video p.video = some (false, video)) :
    video.context = false ↔ p.CarefulCodecs format r := by
  obtain ⟨hnotAudio, hfoundAudio⟩ := FFAudio.openCodec_spec haudio
  obtain ⟨hnot, hfound⟩ := CodecComponent.openCodec_spec hvideo
  have hf : Found .audio format r.audio :=
    not_not.mp fun hf => Bool.false_ne_true (hnotAudio hf).1.symm
  have hready := (hfoundAudio hf).2.mp rfl
  unfold CarefulCodecs
  by_cases hv : Found .video format r.video
  · obtain ⟨hcontext, hreadyVideo⟩ := hfound hv
    have hfailed : ¬ Ready r.video := fun hall => Bool.false_ne_true (hreadyVideo.mpr hall)
    rw [hcontext]
    exact iff_of_false (fun hnull => Bool.false_ne_true hnull.symm)
      fun hall => hfailed ((hall.2 hf).2.2 hv)
  · rw [(hnot hv).2, h.closed_iff.2]
    simp [hf, hready, hv]

/-- Nothing fails. -/
theorem Settled.opened {format : AVFormatContext} {r : OpenResults} {audio video : CodecComponent}
    (haudio : FFAudio.openCodec format r.audio p.audio = some (true, audio))
    (hvideo : FFVideo.openCodec format r.video p.video = some (true, video)) :
    p.CarefulCodecs format r ∧ audio.context = true ∧ video.context = true := by
  obtain ⟨hnotAudio, hfoundAudio⟩ := FFAudio.openCodec_spec haudio
  obtain ⟨hnot, hfound⟩ := CodecComponent.openCodec_spec hvideo
  have hf : Found .audio format r.audio :=
    not_not.mp fun hf => Bool.false_ne_true (hnotAudio hf).1.symm
  have hv : Found .video format r.video :=
    not_not.mp fun hv => Bool.false_ne_true (hnot hv).1.symm
  refine ⟨⟨fun hnone => absurd hf hnone, fun _ => ⟨(hfoundAudio hf).2.mp rfl,
    fun hnone => absurd hv hnone, fun _ => (hfound hv).2.mp rfl⟩⟩, (hfoundAudio hf).1,
    (hfound hv).1⟩

/-- A failing open leaves everything closed exactly when it is careful. -/
theorem Settled.openTask (h : p.Settled) {r : OpenResults} (hreported : p.reported = none)
    (hopen : p.openTask r = some p') :
    (p'.AllOrNothing ↔ p.Careful (.openTask r)) ∧ (p'.AllOrNothing → p'.Settled) := by
  rcases openTask_cases hopen with ⟨hinput, rfl⟩ | ⟨format, hinput, hrest⟩
  · -- the context is gone, and the other components are as before
    rw [allOrNothing_iff_closed rfl]
    refine ⟨?_, Or.inl⟩
    show _ ↔ p.CarefulOpen r
    rw [CarefulOpen, hinput]
    dsimp only
    rw [Closed, h.closed_iff.1, h.closed_iff.2]
    simp
  · have hcareful : p.Careful (.openTask r) ↔
        r.findStreamInfo = true ∧ p.CarefulCodecs format r := by
      show p.CarefulOpen r ↔ _
      rw [CarefulOpen, hinput]
    rw [hcareful]
    rcases hrest with ⟨hinfo, rfl⟩ | ⟨hinfo, ⟨audio, haudio, rfl⟩ | ⟨audio, haudio, hrest⟩⟩
    · -- the context is left
      rw [allOrNothing_iff_closed rfl, hinfo]
      refine ⟨iff_of_false ?_ fun hall => Bool.false_ne_true hall.1, Or.inl⟩
      rintro ⟨hnone, -⟩
      cases hnone
    · rw [allOrNothing_iff_closed rfl, hinfo, ← h.audioFailed haudio]
      refine ⟨?_, Or.inl⟩
      simp [Closed]
    · rcases hrest with ⟨video, hvideo, rfl⟩ | ⟨video, hvideo, rfl⟩
      · rw [allOrNothing_iff_closed rfl, hinfo, ← h.videoFailed haudio hvideo]
        refine ⟨?_, Or.inl⟩
        simp [Closed, CodecComponent.close]
      · obtain ⟨hcareful, haudioContext, hvideoContext⟩ := Settled.opened haudio hvideo
        refine ⟨iff_of_true (fun hne => absurd hreported hne) ⟨hinfo, hcareful⟩, fun _ => ?_⟩
        exact Or.inr ⟨Option.some_ne_none format, haudioContext, hvideoContext⟩

theorem closed_doClose (p : FFPlayer) : p.doClose.Closed := ⟨rfl, rfl, rfl⟩

theorem Settled.step (h : p.Settled) {input : Input} (hstep : p.step input = some p') :
    (p'.AllOrNothing ↔ p.Careful input) ∧ (p'.AllOrNothing → p'.Settled) := by
  have hquiet : ∀ q : FFPlayer, q.reported = none → q.AllOrNothing :=
    fun q hq hne => absurd hq hne
  cases input with
  | openTask results => exact Settled.openTask (p := { p with reported := none }) h rfl hstep
  | closeTask =>
      obtain rfl := Option.some.inj hstep
      exact ⟨iff_of_true (hquiet _ rfl) trivial, fun _ => Or.inl (closed_doClose _)⟩
  | playTask | pauseTask =>
      obtain rfl := Option.some.inj hstep
      exact ⟨iff_of_true (hquiet _ rfl) trivial, fun _ => h⟩
  | moveTask =>
      obtain ⟨-, hsame⟩ := Option.ite_none_right_eq_some.mp hstep
      obtain rfl := Option.some.inj hsame
      exact ⟨iff_of_true (hquiet _ rfl) trivial, fun _ => h⟩
  | onRepeat isEmpty readFrame =>
      obtain ⟨-, hrest⟩ := Option.ite_none_left_eq_some.mp hstep
      split at hrest
      · obtain rfl := Option.some.inj hrest
        exact ⟨iff_of_true (hquiet _ rfl) trivial, fun _ => Or.inl (closed_doClose _)⟩
      · obtain rfl := Option.some.inj hrest
        exact ⟨iff_of_true (hquiet _ rfl) trivial, fun _ => h⟩

/-- As long as opens that fail leave everything closed, the player is settled. -/
theorem settled_of_throughout {inputs : List Input} (hrun : machine.run inputs = some p)
    (h : machine.Throughout AllOrNothing inputs) : p.Settled := by
  refine Machine.run_induction (M := machine)
    (P := fun inputs p => machine.Throughout AllOrNothing inputs → p.Settled) ?_ ?_ inputs p hrun h
  · exact fun _ => Or.inl ⟨rfl, rfl, rfl⟩
  · intro inputs p input p' hrun ih hstep hthroughout
    obtain ⟨hbefore, hlast⟩ := Machine.throughout_concat.mp hthroughout
    exact ((ih hbefore).step hstep).2
      (hlast p' (Machine.run_concat_eq_some.mpr ⟨p, hrun, hstep⟩))

/-- In every run, each open task that reports ERROR_OPEN leaves stream, audio and video closed
if and only if each one that fails does so in `avformat_open_input` or for want of a stream
or a decoder, and finds the player closed. -/
theorem allOrNothing_iff {inputs : List Input} (hrun : machine.run inputs = some p) :
    machine.Throughout AllOrNothing inputs ↔ machine.Always Careful inputs := by
  refine Machine.throughout_iff_always (M := machine) (fun hne => absurd rfl hne) ?_ hrun
  intro inputs p input p' hrun hthroughout _ hstep
  exact ((settled_of_throughout hrun hthroughout).step hstep).1

/-- A file that is not there, and then one that is. -/
theorem allOrNothing_iff_missing :
    machine.Throughout AllOrNothing [.openTask ⟨none, true, {}, {}⟩,
        .openTask ⟨some ⟨[.video, .audio]⟩, true, {}, {}⟩] ↔
      machine.Always Careful [.openTask ⟨none, true, {}, {}⟩,
        .openTask ⟨some ⟨[.video, .audio]⟩, true, {}, {}⟩] :=
  allOrNothing_iff (p := ⟨⟨some ⟨[.video, .audio]⟩⟩, ⟨some 1, true⟩, ⟨some 0, true⟩, false, none⟩)
    (by decide)

/-- A file without stream information: its context stays open. -/
theorem not_allOrNothing_noInfo :
    ¬ ∀ (inputs : List Input) (p : FFPlayer), machine.run inputs = some p → p.AllOrNothing := by
  intro h
  have hnot := h [.openTask ⟨some ⟨[.video, .audio]⟩, false, {}, {}⟩]
    ⟨⟨some ⟨[.video, .audio]⟩⟩, {}, {}, false, some .file⟩ (by decide) (by decide)
  exact nomatch hnot.1

end FFPlayer

end Ffmpeg

end RyuLib
