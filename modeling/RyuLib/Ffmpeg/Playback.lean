import RyuLib.Foundations.Custody
import RyuLib.Foundations.Machine
import RyuLib.Ffmpeg.FFPlayer

/-!
# Playback

The three threads of a player: the one of the scheduler, which executes the tasks and reads the
file, the worker of the audio and the thread of the video.  They take turns in any order, each
with one access to what they share at a time: a queue, a context or a time stamp.

A packet is read by the first thread and goes to the queue of its stream, from there to the
thread that decodes it, and is freed behind that.

* `kept_of_run`: at any time every packet is in one place, and each thread gets its packets in
  the order of the file.

Of the calls of FFmpeg only the results are modelled, and of the frames the time stamps;
`terminateNow` is left out.
-/

namespace RyuLib

open Foundations

namespace Ffmpeg

/-- A packet that `av_read_frame` has filled, the `number`th of all; `file` says from which of
the files opened, and `format` is what that file holds. -/
structure AVPacket where
  number : ℕ
  file : ℕ
  format : AVFormatContext
  streamIndex : ℕ
  deriving DecidableEq

/-- What has a packet: the variable `packet` of a thread, a queue, `av_packet_free`, or nothing
at all. -/
inductive Keeper
  | scheduler
  | audioQueue
  | worker
  | videoQueue
  | videoThread
  | freed
  | lost
  deriving DecidableEq

instance : Fintype Keeper where
  elems := {.scheduler, .audioQueue, .worker, .videoQueue, .videoThread, .freed, .lost}
  complete k := by cases k <;> decide

/-- What `avcodec_receive_frame` returns: a frame, by which `pts_correction_last_pts` changes,
`AVERROR(EAGAIN)`, `AVERROR_EOF` or another error. -/
inductive Received
  | frame (pts : ℤ)
  | again
  | eof
  | error
  deriving DecidableEq

/-- The audio or the video: its fields, for which of the files its context was allocated, and
`pts_correction_last_pts` there. -/
structure Codec where
  component : CodecComponent := {}
  file : ℕ := 0
  pts : ℤ := -2 ^ 63

namespace Codec

/-- `context_ != nullptr`. -/
abbrev context (c : Codec) : Bool := c.component.context

/-- After an open, where the component is as given: a context that was allocated is new. -/
def opened (c : Codec) (type : MediaType) (format : AVFormatContext) (r : CodecResults)
    (file : ℕ) (component : CodecComponent) : Codec :=
  if type ∈ format.streams ∧ r.findDecoder = true then { component := component, file := file }
  else { c with component := component }

def close (c : Codec) : Codec := { c with component := c.component.close }

section

variable {type : MediaType} {format : AVFormatContext} {r : CodecResults}

theorem opened_found (hfound : FFPlayer.Found type format r) (c : Codec) (file : ℕ)
    (component : CodecComponent) :
    c.opened type format r file component = { component := component, file := file } :=
  if_pos hfound

theorem opened_missing (hmissing : ¬ FFPlayer.Found type format r) (c : Codec) (file : ℕ)
    (component : CodecComponent) :
    c.opened type format r file component = { c with component := component } :=
  if_neg hmissing

theorem component_opened (c : Codec) (file : ℕ) (component : CodecComponent) :
    (c.opened type format r file component).component = component := by
  unfold opened
  split <;> rfl

end

end Codec

namespace Playback

deriving instance DecidableEq for CodecResults, OpenResults

/-- What the thread of the scheduler does next: a task or `on_repeat`, or a part of one. -/
inductive SchedulerAt
  | idle
  | openAudio (format : AVFormatContext) (r : OpenResults)
  | openVideo (format : AVFormatContext) (r : OpenResults)
  | route
  | sync
  | closeAudio
  | closeVideo
  | drain
  deriving DecidableEq

/-- What the worker does next: `pop`, the comparison of `context_` with null, and the calls of
`decode_and_play`. -/
inductive WorkerAt
  | popping
  | checking
  | sending
  | receiving
  deriving DecidableEq

/-- What the thread of the video does next: `front`, the comparison of the time stamps, `pop`,
and the calls of `decode_and_play`. -/
inductive VideoAt
  | looking
  | comparing
  | taking
  | sending
  | receiving
  deriving DecidableEq

structure State where
  stream : FFStream := {}
  /-- how many files were opened -/
  files : ℕ := 0
  audio : Codec := {}
  video : Codec := {}
  targetPts : ℤ := 0
  started : Bool := false
  packets : Custody Keeper AVPacket := {}
  scheduler : SchedulerAt := .idle
  worker : WorkerAt := .popping
  thread : VideoAt := .looking

namespace State

/-- The oldest packet that one keeper holds goes to another. -/
def pass (s : State) (k l : Keeper) : Option State :=
  (s.packets.pass k l).map fun packets => { s with packets := packets }

/-! ## The thread of the scheduler -/

/-- TASK_OPEN, to the end of `stream_.open`. -/
def openTask (s : State) (r : OpenResults) : State :=
  let (opened, stream) := FFStream.openFile r
  match opened, stream.context with
  | true, some format =>
      { s with stream := stream, files := s.files + 1, scheduler := .openAudio format r }
  | _, some _ => { s with stream := stream, files := s.files + 1 }
  | _, none => { s with stream := stream }

/-- `audio_.open`, and `stream_.close` if it fails. -/
def openAudio (s : State) (format : AVFormatContext) (r : OpenResults) : Option State :=
  (FFAudio.openCodec format r.audio s.audio.component).map fun (opened, component) =>
    let s := { s with audio := s.audio.opened .audio format r.audio s.files component }
    if opened = false then { s with stream := s.stream.close, scheduler := .idle }
    else { s with scheduler := .openVideo format r }

/-- `video_.open`, and `stream_.close` and `audio_.close` if it fails. -/
def openVideo (s : State) (format : AVFormatContext) (r : OpenResults) : Option State :=
  (FFVideo.openCodec format r.video s.video.component).map fun (opened, component) =>
    let s := { s with
      video := s.video.opened .video format r.video s.files component
      scheduler := .idle }
    if opened = false then { s with stream := s.stream.close, audio := s.audio.close } else s

/-- `do_close`, to the end of `stream_.close`. -/
def doClose (s : State) : State :=
  { s with started := false, stream := s.stream.close, scheduler := .closeAudio }

/-- `stream_.read()`; a packet that is not filled is freed at once. -/
def read (s : State) (frame : Option ℕ) : Option AVPacket :=
  match s.stream.context, frame with
  | some format, some index => some ⟨(s.packets.had .scheduler).length, s.files, format, index⟩
  | _, _ => none

/-- `on_repeat`, to the end of `stream_.read`; at the end of the file `do_close` begins. -/
def onRepeat (s : State) (isEmpty : Bool) (frame : Option ℕ) : State :=
  if isEmpty = false then s
  else
    match s.read frame with
    | some packet => { s with packets := s.packets.give .scheduler packet, scheduler := .route }
    | none => s.doClose

/-- `audio_.write(packet)` or `video_.write(packet)`: without a context the packet stays where
nobody finds it. -/
def write (s : State) (c : Codec) (queue : Keeper) : Option State :=
  s.pass .scheduler (if c.context = true then queue else .lost)

def route (s : State) (packet : AVPacket) : Option State :=
  if s.audio.component.streamIndex = some packet.streamIndex then
    (s.write s.audio .audioQueue).map fun s => { s with scheduler := .sync }
  else if s.video.component.streamIndex = some packet.streamIndex then
    (s.write s.video .videoQueue).map fun s => { s with scheduler := .idle }
  else (s.pass .scheduler .freed).map fun s => { s with scheduler := .idle }

/-- `audio_.getPTS()`. -/
def audioPts (s : State) : ℤ := if s.audio.context = true then s.audio.pts else 0

/-- `video_.audioSync(audio_.getPTS())`. -/
def audioSync (s : State) : State :=
  if s.video.context = true then { s with targetPts := s.audioPts, scheduler := .idle }
  else { s with scheduler := .idle }

/-- The loop of `FFVideo::close`.  A `pop` that finds the queue empty after all changes
nothing. -/
def drain (s : State) : Option State :=
  if s.packets.holds .videoQueue = [] then some { s with scheduler := .idle }
  else s.pass .videoQueue .freed

/-- The thread goes on with what it has begun. -/
def proceed (s : State) : Option State :=
  match s.scheduler with
  | .idle => none
  | .openAudio format r => s.openAudio format r
  | .openVideo format r => s.openVideo format r
  | .route => (s.packets.holds .scheduler).head?.bind s.route
  | .sync => some s.audioSync
  | .closeAudio => some { s with audio := s.audio.close, scheduler := .closeVideo }
  | .closeVideo => some { s with video := s.video.close, scheduler := .drain }
  | .drain => s.drain

/-! ## The worker of the audio -/

/-- `ret` is 0 or 1 behind `avcodec_send_packet`, so that frames are received in any case. -/
def workerStep (s : State) (r : Received) : Option State :=
  match s.worker with
  | .popping => (s.pass .audioQueue .worker).map fun s => { s with worker := .checking }
  | .checking =>
      if s.audio.context = true then some { s with worker := .sending }
      else (s.pass .worker .freed).map fun s => { s with worker := .popping }
  | .sending => if s.audio.context = true then some { s with worker := .receiving } else none
  | .receiving =>
      if s.audio.context = false then none
      else
        match r with
        | .frame pts => some { s with audio := { s.audio with pts := pts } }
        | .again | .eof => (s.pass .worker .freed).map fun s => { s with worker := .popping }
        -- a return before `av_packet_free`
        | .error => (s.pass .worker .lost).map fun s => { s with worker := .popping }

/-! ## The thread of the video -/

/-- `sleepTight` returns at once, so that the thread looks again when there is nothing to do. -/
def videoStep (s : State) (r : Received) : Option State :=
  match s.thread with
  | .looking =>
      if s.packets.holds .videoQueue = [] then some s else some { s with thread := .comparing }
  | .comparing =>
      -- `getPTS` reads through `context_`
      if s.video.context = false then none
      else if s.video.pts ≤ s.targetPts then some { s with thread := .taking }
      else some { s with thread := .looking }
  | .taking =>
      -- `close` may have been faster
      if s.packets.holds .videoQueue = [] then some { s with thread := .looking }
      else (s.pass .videoQueue .videoThread).map fun s => { s with thread := .sending }
  | .sending => if s.video.context = true then some { s with thread := .receiving } else none
  | .receiving =>
      if s.video.context = false then none
      else
        match r with
        | .frame pts => some { s with video := { s.video with pts := pts } }
        | .again | .eof => (s.pass .videoThread .freed).map fun s => { s with thread := .looking }
        | .error => (s.pass .videoThread .lost).map fun s => { s with thread := .looking }

end State

/-- The scheduler begins a task or a call of `on_repeat`, or it, the worker or the thread of the
video goes on; `isEmpty` is what `audio_.isEmpty()` returns, `frame` the stream of the packet
that `av_read_frame` fills, and `r` what the decoder returns if it is asked. -/
inductive Input
  | openTask (r : OpenResults)
  | closeTask
  | playTask
  | pauseTask
  | moveTask
  | onRepeat (isEmpty : Bool) (frame : Option ℕ)
  | scheduler
  | worker (r : Received)
  | video (r : Received)
  deriving DecidableEq

def step (s : State) (input : Input) : Option State :=
  match input with
  | .openTask r => if s.scheduler = .idle then some (s.openTask r) else none
  | .closeTask => if s.scheduler = .idle then some s.doClose else none
  | .playTask => if s.scheduler = .idle then some { s with started := true } else none
  | .pauseTask => if s.scheduler = .idle then some { s with started := false } else none
  -- `FFStream::move` reads through the context
  | .moveTask =>
      if s.scheduler = .idle ∧ s.stream.context.isSome = true then some s else none
  | .onRepeat isEmpty frame =>
      if s.scheduler = .idle ∧ s.started = true then some (s.onRepeat isEmpty frame) else none
  | .scheduler => s.proceed
  | .worker r => s.workerStep r
  | .video r => s.videoStep r

def machine : Machine State Input := ⟨{}, step⟩

/-- A file is opened and played: two packets are read, and the first is decoded. -/
def begun : List Input :=
  [.openTask ⟨some ⟨[.video, .audio]⟩, true, {}, {}⟩, .scheduler, .scheduler, .playTask,
    .onRepeat true (some 1), .scheduler, .scheduler, .worker .again, .worker .again,
    .worker .again, .onRepeat true (some 0), .scheduler, .video .again, .worker .again,
    .onRepeat true (some 1), .scheduler, .scheduler]

/-- The file is closed while each queue has a packet. -/
def closing : List Input := [.closeTask, .scheduler, .scheduler, .scheduler, .scheduler]

/-- Another file is opened and played. -/
def reopening : List Input :=
  [.openTask ⟨some ⟨[.audio, .video]⟩, true, {}, {}⟩, .scheduler, .scheduler, .playTask,
    .onRepeat true (some 0), .scheduler, .scheduler, .onRepeat true (some 1), .scheduler]

/-- The threads that decode are between two packets when the file is closed, and have nothing
left when the other one is opened. -/
def played : List Input :=
  begun ++ [.video .again] ++ closing ++ [.video .again, .worker .again, .worker .again] ++
    reopening

theorem isSome_played : (machine.run played).isSome = true := rfl

/-- The thread of the video is about to read a time stamp when the file is closed, and the worker
comes to its packet only after the other one has been opened. -/
def overtaken : List Input := begun ++ closing ++ reopening

theorem isSome_overtaken : (machine.run overtaken).isSome = true := rfl

/-! ## What a step can do

One relation for each thread. -/

inductive SchedulerStep (s : State) : Input → State → Prop
  | openFailed {r : OpenResults} (hat : s.scheduler = .idle) (hinput : r.openInput = none) :
      SchedulerStep s (.openTask r) { s with stream := ⟨none⟩ }
  | openUnknown {r : OpenResults} {format : AVFormatContext} (hat : s.scheduler = .idle)
      (hinput : r.openInput = some format) (hinfo : r.findStreamInfo = false) :
      SchedulerStep s (.openTask r) { s with stream := ⟨some format⟩, files := s.files + 1 }
  | openFile {r : OpenResults} {format : AVFormatContext} (hat : s.scheduler = .idle)
      (hinput : r.openInput = some format) (hinfo : r.findStreamInfo = true) :
      SchedulerStep s (.openTask r)
        { s with
          stream := ⟨some format⟩
          files := s.files + 1
          scheduler := .openAudio format r }
  | audioFailed {format : AVFormatContext} {r : OpenResults} {component : CodecComponent}
      (hat : s.scheduler = .openAudio format r)
      (hopened : FFAudio.openCodec format r.audio s.audio.component = some (false, component)) :
      SchedulerStep s .scheduler
        { s with
          audio := s.audio.opened .audio format r.audio s.files component
          stream := ⟨none⟩
          scheduler := .idle }
  | audioOpened {format : AVFormatContext} {r : OpenResults} {component : CodecComponent}
      (hat : s.scheduler = .openAudio format r)
      (hopened : FFAudio.openCodec format r.audio s.audio.component = some (true, component)) :
      SchedulerStep s .scheduler
        { s with
          audio := s.audio.opened .audio format r.audio s.files component
          scheduler := .openVideo format r }
  | videoFailed {format : AVFormatContext} {r : OpenResults} {component : CodecComponent}
      (hat : s.scheduler = .openVideo format r)
      (hopened : FFVideo.openCodec format r.video s.video.component = some (false, component)) :
      SchedulerStep s .scheduler
        { s with
          video := s.video.opened .video format r.video s.files component
          stream := ⟨none⟩
          audio := s.audio.close
          scheduler := .idle }
  | videoOpened {format : AVFormatContext} {r : OpenResults} {component : CodecComponent}
      (hat : s.scheduler = .openVideo format r)
      (hopened : FFVideo.openCodec format r.video s.video.component = some (true, component)) :
      SchedulerStep s .scheduler
        { s with
          video := s.video.opened .video format r.video s.files component
          scheduler := .idle }
  | closeTask (hat : s.scheduler = .idle) : SchedulerStep s .closeTask s.doClose
  | endOfFile {frame : Option ℕ} (hat : s.scheduler = .idle) (hstarted : s.started = true)
      (hread : s.stream.context = none ∨ frame = none) :
      SchedulerStep s (.onRepeat true frame) s.doClose
  | playTask (hat : s.scheduler = .idle) : SchedulerStep s .playTask { s with started := true }
  | pauseTask (hat : s.scheduler = .idle) :
      SchedulerStep s .pauseTask { s with started := false }
  | moveTask (hat : s.scheduler = .idle) (hcontext : s.stream.context.isSome = true) :
      SchedulerStep s .moveTask s
  | skip {frame : Option ℕ} (hat : s.scheduler = .idle) (hstarted : s.started = true) :
      SchedulerStep s (.onRepeat false frame) s
  | read {format : AVFormatContext} {index : ℕ} (hat : s.scheduler = .idle)
      (hstarted : s.started = true) (hformat : s.stream.context = some format) :
      SchedulerStep s (.onRepeat true (some index))
        { s with
          packets := s.packets.give .scheduler
            ⟨(s.packets.had .scheduler).length, s.files, format, index⟩
          scheduler := .route }
  | routeAudio {packet : AVPacket} {rest : List AVPacket} {packets : Custody Keeper AVPacket}
      (hat : s.scheduler = .route) (hhand : s.packets.holds .scheduler = packet :: rest)
      (hindex : s.audio.component.streamIndex = some packet.streamIndex)
      (hpass : s.packets.pass .scheduler
        (if s.audio.context = true then .audioQueue else .lost) = some packets) :
      SchedulerStep s .scheduler { s with packets := packets, scheduler := .sync }
  | routeVideo {packet : AVPacket} {rest : List AVPacket} {packets : Custody Keeper AVPacket}
      (hat : s.scheduler = .route) (hhand : s.packets.holds .scheduler = packet :: rest)
      (hindex : s.video.component.streamIndex = some packet.streamIndex)
      (hpass : s.packets.pass .scheduler
        (if s.video.context = true then .videoQueue else .lost) = some packets) :
      SchedulerStep s .scheduler { s with packets := packets, scheduler := .idle }
  | routeOther {packets : Custody Keeper AVPacket} (hat : s.scheduler = .route)
      (hpass : s.packets.pass .scheduler .freed = some packets) :
      SchedulerStep s .scheduler { s with packets := packets, scheduler := .idle }
  | sync (targetPts : ℤ) (hat : s.scheduler = .sync) :
      SchedulerStep s .scheduler { s with targetPts := targetPts, scheduler := .idle }
  | closeAudio (hat : s.scheduler = .closeAudio) :
      SchedulerStep s .scheduler { s with audio := s.audio.close, scheduler := .closeVideo }
  | closeVideo (hat : s.scheduler = .closeVideo) :
      SchedulerStep s .scheduler { s with video := s.video.close, scheduler := .drain }
  | drain {packets : Custody Keeper AVPacket} (hat : s.scheduler = .drain)
      (hpass : s.packets.pass .videoQueue .freed = some packets) :
      SchedulerStep s .scheduler { s with packets := packets }
  | drained (hat : s.scheduler = .drain) (hempty : s.packets.holds .videoQueue = []) :
      SchedulerStep s .scheduler { s with scheduler := .idle }

inductive WorkerStep (s : State) (r : Received) : State → Prop
  | pop {packets : Custody Keeper AVPacket} (hat : s.worker = .popping)
      (hpass : s.packets.pass .audioQueue .worker = some packets) :
      WorkerStep s r { s with packets := packets, worker := .checking }
  | check (hat : s.worker = .checking) (hcontext : s.audio.context = true) :
      WorkerStep s r { s with worker := .sending }
  | send (hat : s.worker = .sending) (hcontext : s.audio.context = true) :
      WorkerStep s r { s with worker := .receiving }
  | frame (pts : ℤ) (hat : s.worker = .receiving) (hcontext : s.audio.context = true) :
      WorkerStep s r { s with audio := { s.audio with pts := pts } }
  | free {packets : Custody Keeper AVPacket} (hat : s.worker ≠ .popping)
      (hpass : s.packets.pass .worker .freed = some packets) :
      WorkerStep s r { s with packets := packets, worker := .popping }
  | fail {packets : Custody Keeper AVPacket} (hat : s.worker = .receiving) (herror : r = .error)
      (hpass : s.packets.pass .worker .lost = some packets) :
      WorkerStep s r { s with packets := packets, worker := .popping }

inductive VideoStep (s : State) (r : Received) : State → Prop
  | wait (hat : s.thread = .looking) (hempty : s.packets.holds .videoQueue = []) :
      VideoStep s r s
  | look (hat : s.thread = .looking) (hqueue : s.packets.holds .videoQueue ≠ []) :
      VideoStep s r { s with thread := .comparing }
  | compare {next : VideoAt} (hat : s.thread = .comparing) (hcontext : s.video.context = true)
      (hnext : next = .taking ∧ s.video.pts ≤ s.targetPts ∨ next = .looking) :
      VideoStep s r { s with thread := next }
  | miss (hat : s.thread = .taking) (hempty : s.packets.holds .videoQueue = []) :
      VideoStep s r { s with thread := .looking }
  | take {packets : Custody Keeper AVPacket} (hat : s.thread = .taking)
      (hpass : s.packets.pass .videoQueue .videoThread = some packets) :
      VideoStep s r { s with packets := packets, thread := .sending }
  | send (hat : s.thread = .sending) (hcontext : s.video.context = true) :
      VideoStep s r { s with thread := .receiving }
  | frame (pts : ℤ) (hat : s.thread = .receiving) (hcontext : s.video.context = true) :
      VideoStep s r { s with video := { s.video with pts := pts } }
  | free {packets : Custody Keeper AVPacket} (hat : s.thread = .receiving)
      (hpass : s.packets.pass .videoThread .freed = some packets) :
      VideoStep s r { s with packets := packets, thread := .looking }
  | fail {packets : Custody Keeper AVPacket} (hat : s.thread = .receiving) (herror : r = .error)
      (hpass : s.packets.pass .videoThread .lost = some packets) :
      VideoStep s r { s with packets := packets, thread := .looking }

variable {s s' : State}

theorem pass_eq_some {k l : Keeper} :
    s.pass k l = some s' ↔ ∃ packets, s.packets.pass k l = some packets ∧
      s' = { s with packets := packets } := by
  rw [State.pass, Option.map_eq_some_iff]
  simp only [eq_comm]

theorem openTask_cases (r : OpenResults) (hat : s.scheduler = .idle) :
    SchedulerStep s (.openTask r) (s.openTask r) := by
  unfold State.openTask FFStream.openFile
  cases hinput : r.openInput with
  | none => exact .openFailed hat hinput
  | some format =>
      cases hinfo : r.findStreamInfo with
      | false => exact .openUnknown hat hinput hinfo
      | true => exact .openFile hat hinput hinfo

theorem openAudio_cases {format : AVFormatContext} {r : OpenResults}
    (hat : s.scheduler = .openAudio format r) (h : s.openAudio format r = some s') :
    SchedulerStep s .scheduler s' := by
  obtain ⟨⟨opened, component⟩, hopened, rfl⟩ := Option.map_eq_some_iff.mp h
  cases opened with
  | false => exact .audioFailed hat hopened
  | true => exact .audioOpened hat hopened

theorem openVideo_cases {format : AVFormatContext} {r : OpenResults}
    (hat : s.scheduler = .openVideo format r) (h : s.openVideo format r = some s') :
    SchedulerStep s .scheduler s' := by
  obtain ⟨⟨opened, component⟩, hopened, rfl⟩ := Option.map_eq_some_iff.mp h
  cases opened with
  | false => exact .videoFailed hat hopened
  | true => exact .videoOpened hat hopened

theorem onRepeat_cases (isEmpty : Bool) (frame : Option ℕ) (hat : s.scheduler = .idle)
    (hstarted : s.started = true) :
    SchedulerStep s (.onRepeat isEmpty frame) (s.onRepeat isEmpty frame) := by
  unfold State.onRepeat State.read
  cases isEmpty with
  | false => exact .skip hat hstarted
  | true =>
      cases hformat : s.stream.context with
      | none => exact .endOfFile hat hstarted (Or.inl hformat)
      | some format =>
          cases frame with
          | none => exact .endOfFile hat hstarted (Or.inr rfl)
          | some index => exact .read hat hstarted hformat

theorem route_cases {packet : AVPacket} {rest : List AVPacket} (hat : s.scheduler = .route)
    (hhand : s.packets.holds .scheduler = packet :: rest) (h : s.route packet = some s') :
    SchedulerStep s .scheduler s' := by
  unfold State.route at h
  split_ifs at h with haudio hvideo
  all_goals
    obtain ⟨t, ht, rfl⟩ := Option.map_eq_some_iff.mp h
    obtain ⟨packets, hpass, rfl⟩ := pass_eq_some.mp ht
  · exact .routeAudio hat hhand haudio hpass
  · exact .routeVideo hat hhand hvideo hpass
  · exact .routeOther hat hpass

theorem drain_cases (hat : s.scheduler = .drain) (h : s.drain = some s') :
    SchedulerStep s .scheduler s' := by
  unfold State.drain at h
  split_ifs at h with hempty
  · obtain rfl := Option.some.inj h
    exact .drained hat hempty
  · obtain ⟨packets, hpass, rfl⟩ := pass_eq_some.mp h
    exact .drain hat hpass

theorem proceed_cases (h : s.proceed = some s') : SchedulerStep s .scheduler s' := by
  unfold State.proceed at h
  split at h
  · cases h
  · rename_i hat
    exact openAudio_cases hat h
  · rename_i hat
    exact openVideo_cases hat h
  · rename_i hat
    obtain ⟨packet, hhead, hroute⟩ := Option.bind_eq_some_iff.mp h
    obtain ⟨rest, hhand⟩ := List.head?_eq_some_iff.mp hhead
    exact route_cases hat hhand hroute
  · rename_i hat
    obtain rfl := Option.some.inj h
    unfold State.audioSync
    split
    · exact .sync s.audioPts hat
    · exact .sync s.targetPts hat
  · rename_i hat
    obtain rfl := Option.some.inj h
    exact .closeAudio hat
  · rename_i hat
    obtain rfl := Option.some.inj h
    exact .closeVideo hat
  · rename_i hat
    exact drain_cases hat h

theorem workerStep_cases {r : Received} (h : s.workerStep r = some s') : WorkerStep s r s' := by
  unfold State.workerStep at h
  split at h
  · rename_i hat
    obtain ⟨t, ht, rfl⟩ := Option.map_eq_some_iff.mp h
    obtain ⟨packets, hpass, rfl⟩ := pass_eq_some.mp ht
    exact .pop hat hpass
  · rename_i hat
    split_ifs at h with hcontext
    · obtain rfl := Option.some.inj h
      exact .check hat hcontext
    · obtain ⟨t, ht, rfl⟩ := Option.map_eq_some_iff.mp h
      obtain ⟨packets, hpass, rfl⟩ := pass_eq_some.mp ht
      exact .free (by simp [hat]) hpass
  · rename_i hat
    obtain ⟨hcontext, hs'⟩ := Option.ite_none_right_eq_some.mp h
    obtain rfl := Option.some.inj hs'
    exact .send hat hcontext
  · rename_i hat
    obtain ⟨hcontext, hreceived⟩ := Option.ite_none_left_eq_some.mp h
    have hcontext := Bool.of_not_eq_false hcontext
    cases r with
    | frame pts =>
        obtain rfl := Option.some.inj hreceived
        exact .frame pts hat hcontext
    | again | eof =>
        obtain ⟨t, ht, rfl⟩ := Option.map_eq_some_iff.mp hreceived
        obtain ⟨packets, hpass, rfl⟩ := pass_eq_some.mp ht
        exact .free (by simp [hat]) hpass
    | error =>
        obtain ⟨t, ht, rfl⟩ := Option.map_eq_some_iff.mp hreceived
        obtain ⟨packets, hpass, rfl⟩ := pass_eq_some.mp ht
        exact .fail hat rfl hpass

theorem videoStep_cases {r : Received} (h : s.videoStep r = some s') : VideoStep s r s' := by
  unfold State.videoStep at h
  split at h
  · rename_i hat
    split_ifs at h with hqueue
    · obtain rfl := Option.some.inj h
      exact .wait hat hqueue
    · obtain rfl := Option.some.inj h
      exact .look hat hqueue
  · rename_i hat
    obtain ⟨hcontext, hcompared⟩ := Option.ite_none_left_eq_some.mp h
    have hcontext := Bool.of_not_eq_false hcontext
    split_ifs at hcompared with hpts
    · obtain rfl := Option.some.inj hcompared
      exact .compare hat hcontext (Or.inl ⟨rfl, hpts⟩)
    · obtain rfl := Option.some.inj hcompared
      exact .compare hat hcontext (Or.inr rfl)
  · rename_i hat
    split_ifs at h with hqueue
    · obtain rfl := Option.some.inj h
      exact .miss hat hqueue
    · obtain ⟨t, ht, rfl⟩ := Option.map_eq_some_iff.mp h
      obtain ⟨packets, hpass, rfl⟩ := pass_eq_some.mp ht
      exact .take hat hpass
  · rename_i hat
    obtain ⟨hcontext, hs'⟩ := Option.ite_none_right_eq_some.mp h
    obtain rfl := Option.some.inj hs'
    exact .send hat hcontext
  · rename_i hat
    obtain ⟨hcontext, hreceived⟩ := Option.ite_none_left_eq_some.mp h
    have hcontext := Bool.of_not_eq_false hcontext
    cases r with
    | frame pts =>
        obtain rfl := Option.some.inj hreceived
        exact .frame pts hat hcontext
    | again | eof =>
        obtain ⟨t, ht, rfl⟩ := Option.map_eq_some_iff.mp hreceived
        obtain ⟨packets, hpass, rfl⟩ := pass_eq_some.mp ht
        exact .free hat hpass
    | error =>
        obtain ⟨t, ht, rfl⟩ := Option.map_eq_some_iff.mp hreceived
        obtain ⟨packets, hpass, rfl⟩ := pass_eq_some.mp ht
        exact .fail hat rfl hpass

theorem step_cases {input : Input} (h : step s input = some s') :
    SchedulerStep s input s' ∨ (∃ r, input = .worker r ∧ WorkerStep s r s') ∨
      ∃ r, input = .video r ∧ VideoStep s r s' := by
  cases input with
  | scheduler => exact Or.inl (proceed_cases h)
  | worker r => exact Or.inr (Or.inl ⟨r, rfl, workerStep_cases h⟩)
  | video r => exact Or.inr (Or.inr ⟨r, rfl, videoStep_cases h⟩)
  | openTask r =>
      obtain ⟨hat, hs'⟩ := Option.ite_none_right_eq_some.mp h
      obtain rfl := Option.some.inj hs'
      exact Or.inl (openTask_cases r hat)
  | closeTask =>
      obtain ⟨hat, hs'⟩ := Option.ite_none_right_eq_some.mp h
      obtain rfl := Option.some.inj hs'
      exact Or.inl (.closeTask hat)
  | playTask =>
      obtain ⟨hat, hs'⟩ := Option.ite_none_right_eq_some.mp h
      obtain rfl := Option.some.inj hs'
      exact Or.inl (.playTask hat)
  | pauseTask =>
      obtain ⟨hat, hs'⟩ := Option.ite_none_right_eq_some.mp h
      obtain rfl := Option.some.inj hs'
      exact Or.inl (.pauseTask hat)
  | moveTask =>
      obtain ⟨⟨hat, hcontext⟩, hs'⟩ := Option.ite_none_right_eq_some.mp h
      obtain rfl := Option.some.inj hs'
      exact Or.inl (.moveTask hat hcontext)
  | onRepeat isEmpty frame =>
      obtain ⟨⟨hat, hstarted⟩, hs'⟩ := Option.ite_none_right_eq_some.mp h
      obtain rfl := Option.some.inj hs'
      exact Or.inl (onRepeat_cases isEmpty frame hat hstarted)

end Playback

end Ffmpeg

end RyuLib
