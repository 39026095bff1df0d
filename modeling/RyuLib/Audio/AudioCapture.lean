import RyuLib.Audio.SystemAudioCapture

/-!
# AudioCapture

The microphone's blocks and the frames of the system's audio are mixed into one buffer.
Four sizes have to agree for it, and each is set in its own place: that of the microphone's
block, of the frames that the resampler makes, of the silence and of the mixed data.  A
`start` sets all of them anew, whatever the devices do.

* `AudioCapture.buffers_match`: while there is a microphone, all four are the frame size of
  the current option, and the mixing loop stays inside its three buffers.

A `start`, a `stop`, an iteration of the worker and a callback are one step each.  What the
loop makes of two samples is a parameter.
-/

namespace RyuLib

open Foundations

structure AudioCaptureOption where
  micDeviceId : ℤ := -1
  channels : ℕ := 1
  sampleRate : ℕ := 44100
  sampleSize : ℕ := 4
  frames : ℕ := 1024

def AudioCaptureOption.getFrameSize (o : AudioCaptureOption) : ℕ :=
  o.channels * o.sampleSize * o.frames

/-- `streaming` says that PortAudio calls `recordCallback`. -/
structure AudioInput where
  smapleSize : ℕ
  bufferSize : ℕ
  streaming : Bool := false

namespace AudioInput

def new (channels smapleSize fpb : ℕ) : AudioInput :=
  { smapleSize := smapleSize, bufferSize := smapleSize * fpb * channels }

/-- The results of the calls of PortAudio in `open`. -/
structure OpenResults where
  device : Bool
  info : Bool
  openStream : Bool
  startStream : Bool

abbrev errorNoDefaultInputDevice : ℤ := -1

abbrev errorOpenInputDevice : ℤ := -2

abbrev errorStartInputDevice : ℤ := -3

/-- The return value, with `none` for the exception. -/
def open_ (m : AudioInput) (r : OpenResults) : Option ℤ × AudioInput :=
  if r.device = false then (some errorNoDefaultInputDevice, m)
  else if m.smapleSize ≠ 2 ∧ m.smapleSize ≠ 4 then (none, m)
  else if r.info = false then (some errorOpenInputDevice, m)
  else if r.openStream = false then (some errorOpenInputDevice, m)
  else if r.startStream = false then (some errorStartInputDevice, m)
  else (some 0, { m with streaming := true })

theorem bufferSize_open (m : AudioInput) (r : OpenResults) :
    (m.open_ r).2.bufferSize = m.bufferSize := by
  unfold open_
  repeat' split
  all_goals rfl

end AudioInput

/-- A `Memory` is the list of its bytes, and `none` is `nullptr`. -/
structure AudioCapture (ρ : Type*) where
  mic : Option AudioInput := none
  systemAudio : SystemAudioCapture ρ
  silentAudio : Option (List UInt8) := none
  audioData : Option (List UInt8) := none
  option : AudioCaptureOption := {}
  isMicMuted : Bool := false
  isSystemMuted : Bool := true

namespace AudioCapture

variable {ρ : Type*}

def stop (s : AudioCapture ρ) : AudioCapture ρ :=
  match s.mic with
  | none => { s with systemAudio := s.systemAudio.stop }
  | some _ => { s with systemAudio := s.systemAudio.stop, mic := none }

/-- The outcomes of opening the devices. -/
structure Devices (ρ : Type*) where
  system : Option SystemAudioCapture.Format
  resampler : AudioResampling.OpenResults ρ
  mic : AudioInput.OpenResults

/-- The return value, with `none` for an exception. -/
def start (s : AudioCapture ρ) (option : AudioCaptureOption) (devices : Devices ρ) :
    Option Bool × AudioCapture ρ :=
  let s := if s.mic.isSome = true then s.stop else s
  let mic := AudioInput.new option.channels option.sampleSize option.frames
  let (result, mic) := mic.open_ devices.mic
  (result.map fun code => decide (code = 0),
    { s with
      option := option
      mic := some mic
      silentAudio := some (List.replicate option.getFrameSize 0)
      audioData := some (List.replicate option.getFrameSize 0)
      systemAudio := s.systemAudio.start option.channels option.sampleRate option.sampleSize
        option.frames devices.system devices.resampler })

/-- The four bytes of a sample. -/
abbrev Word := Fin 4 → UInt8

def word (data : List UInt8) (i : ℕ) : Word := fun k => data.getD (4 * i + k) 0

def setWord (data : List UInt8) (i : ℕ) (w : Word) : List UInt8 :=
  data.take (4 * i) ++ List.ofFn w ++ data.drop (4 * i + 4)

/-- The mixing loop up to sample `n`. -/
def mixLoop (mix : Word → Word → Word) (mic system dst : List UInt8) : ℕ → List UInt8
  | 0 => dst
  | n + 1 => setWord (mixLoop mix mic system dst n) n (mix (word mic n) (word system n))

/-- The three buffers of the loop, and the number of samples. -/
structure Mixing where
  mic : List UInt8
  system : List UInt8
  dst : List UInt8
  samples : ℕ

/-- Every sample that the loop reads or writes lies inside its buffer. -/
def Mixing.Inside (m : Mixing) : Prop :=
  ∀ i < m.samples, 4 * i + 4 ≤ m.mic.length ∧ 4 * i + 4 ≤ m.system.length ∧
    4 * i + 4 ≤ m.dst.length

/-- `on_data`; without one of its two `Memory` objects there is no result. -/
def onData (mix : Word → Word → Word) (s : AudioCapture ρ) (buffer : List UInt8)
    (bufferSize : ℕ) : Option (Mixing × AudioCapture ρ) :=
  match s.silentAudio, s.audioData with
  | some silent, some dst =>
      let (systemAudio, capture) := s.systemAudio.getAudioData
      let system := if s.isSystemMuted = true then silent else systemAudio.getD silent
      let mic := if s.isMicMuted = true then silent else buffer
      some (⟨mic, system, dst, bufferSize / 4⟩,
        { s with
          systemAudio := capture
          audioData := some (mixLoop mix mic system dst (bufferSize / 4)) })
  | _, _ => none

/-! ## Runs -/

inductive Input (ρ : Type*)
  | start (option : AudioCaptureOption) (devices : Devices ρ)
  | stop
  | packet (data : Option (List UInt8))
  | work
  | micCallback (buffer : List UInt8)
  | setMicMuted (value : Bool)
  | setSystemMuted (value : Bool)

/-- A callback comes from an open device; that of the microphone brings a block of its
buffer size. -/
def step (convert : ρ → List UInt8 → Option (List UInt8) × ρ) (mix : Word → Word → Word)
    (s : AudioCapture ρ) : Input ρ → Option (AudioCapture ρ)
  | .start option devices => some (s.start option devices).2
  | .stop => some s.stop
  | .packet data =>
      if s.systemAudio.opened = false then none
      else some { s with systemAudio := s.systemAudio.onSystemAudio data }
  | .work => some { s with systemAudio := (s.systemAudio.work convert).2 }
  | .micCallback buffer =>
      match s.mic with
      | none => none
      | some mic =>
          if mic.streaming = true ∧ buffer.length = mic.bufferSize then
            (s.onData mix buffer mic.bufferSize).map Prod.snd
          else none
  | .setMicMuted value => some { s with isMicMuted := value }
  | .setSystemMuted value => some { s with isSystemMuted := value }

/-- A new object, with any values in the members that have no initializer. -/
def machine (convert : ρ → List UInt8 → Option (List UInt8) × ρ) (mix : Word → Word → Word)
    (a : AudioResampling ρ) : Machine (AudioCapture ρ) (Input ρ) :=
  ⟨{ systemAudio := SystemAudioCapture.fresh a }, step convert mix⟩

/-- The numbers of an option are positive. -/
def Input.Positive : Input ρ → Prop
  | .start option _ => 0 < option.channels ∧ 0 < option.sampleSize ∧ 0 < option.frames
  | _ => True

/-! ## The frames of the system's audio -/

/-- All frames in the queue have `size` bytes, and so have those that a resampler with a
context makes. -/
structure FramesOf (size : ℕ) (s : SystemAudioCapture ρ) : Prop where
  queueOut : ∀ frame ∈ s.queueOut.queue, frame.length = size
  memoryBuffer : ∃ rest, MemoryBuffer.Represents s.audioResampling.memoryBuffer rest
  resampler : s.audioResampling.swrCtx ≠ none →
    s.audioResampling.dstDataSize = size ∧ 0 < size

section

variable {convert : ρ → List UInt8 → Option (List UInt8) × ρ} {size : ℕ}
  {s : SystemAudioCapture ρ}

/-- A `start` of a resampler without context: the old frames are gone, and new ones are made
only with the new size. -/
theorem FramesOf.start (h : FramesOf size s) (channels sampleRate sampleSize frames : ℕ)
    (device : Option SystemAudioCapture.Format) (r : AudioResampling.OpenResults ρ)
    (hclosed : s.audioResampling.swrCtx = none)
    (hpositive : 0 < frames * channels * sampleSize) :
    FramesOf (frames * channels * sampleSize)
      (s.start channels sampleRate sampleSize frames device r) := by
  cases device with
  | none =>
      refine ⟨fun frame hframe => absurd hframe List.not_mem_nil, h.memoryBuffer, ?_⟩
      intro hopen
      exact (hopen hclosed).elim
  | some format =>
      obtain ⟨hdst, -, hmemory⟩ := AudioResampling.open_spec s.audioResampling format.channels
        format.samples (format.bitsPerSample / 8) channels sampleRate sampleSize frames r
      refine ⟨fun frame hframe => absurd hframe List.not_mem_nil, ⟨[], ?_⟩,
        fun _ => ⟨hdst, hpositive⟩⟩
      have hempty := MemoryBuffer.represents_clear s.audioResampling.memoryBuffer
      rw [← hmemory] at hempty
      exact hempty

theorem FramesOf.stop (h : FramesOf size s) : FramesOf size s.stop :=
  ⟨h.queueOut, h.memoryBuffer, fun hopen => absurd rfl hopen⟩

theorem onSystemAudio_frame (s : SystemAudioCapture ρ) (data : Option (List UInt8)) :
    (s.onSystemAudio data).queueOut = s.queueOut ∧
      (s.onSystemAudio data).audioResampling = s.audioResampling := by
  unfold SystemAudioCapture.onSystemAudio
  repeat' split
  all_goals exact ⟨rfl, rfl⟩

theorem FramesOf.onSystemAudio (h : FramesOf size s) (data : Option (List UInt8)) :
    FramesOf size (s.onSystemAudio data) := by
  obtain ⟨hqueue, hresampling⟩ := onSystemAudio_frame s data
  refine ⟨?_, ?_, ?_⟩
  · rw [hqueue]
    exact h.queueOut
  · rw [hresampling]
    exact h.memoryBuffer
  · rw [hresampling]
    exact h.resampler

variable (convert) in
/-- What a conversion hands on is a whole frame. -/
theorem execute_frame {a : AudioResampling ρ}
    (hmemory : ∃ rest, MemoryBuffer.Represents a.memoryBuffer rest)
    (hresampler : a.swrCtx ≠ none → a.dstDataSize = size ∧ 0 < size) (block : List UInt8) :
    (∃ rest, MemoryBuffer.Represents (a.execute convert block).2.2.memoryBuffer rest) ∧
      ∀ frame ∈ (a.execute convert block).2.1, frame.length = size := by
  cases hctx : a.swrCtx with
  | none =>
      rw [AudioResampling.execute_of_none hctx]
      exact ⟨hmemory, fun frame hframe => absurd hframe (by simp)⟩
  | some ctx =>
      obtain ⟨hsize, hpositive⟩ := hresampler (by rw [hctx]; exact Option.some_ne_none ctx)
      obtain ⟨rest, hrest⟩ := hmemory
      rw [← hsize] at hpositive
      have hstart : Sliced a.dstDataSize [rest].flatten [] rest := by
        rw [List.flatten_singleton]
        exact Sliced.start _ _
      obtain ⟨-, -, rest', hrest', hsliced⟩ :=
        AudioResampling.execute_sliced convert hctx hpositive hrest hstart block
      refine ⟨⟨rest', hrest'⟩, fun frame hframe => ?_⟩
      rw [← hsize]
      refine hsliced.each frame ?_
      rw [List.nil_append, Option.mem_toList]
      exact hframe

theorem FramesOf.work (h : FramesOf size s) : FramesOf size (s.work convert).2 := by
  cases hqueue : s.queueIn.queue with
  | nil =>
      rw [SystemAudioCapture.work_of_nil hqueue]
      exact h
  | cons data rest =>
      cases hread : ((s.buffer.write data).read s.audioResampling.getSrcBufferSize).1 with
      | none =>
          rw [SystemAudioCapture.work_of_short hqueue hread]
          exact ⟨h.queueOut, h.memoryBuffer, h.resampler⟩
      | some block =>
          obtain ⟨hmemory, hframes⟩ := execute_frame convert h.memoryBuffer h.resampler block
          obtain ⟨-, hdst, hctx⟩ :=
            AudioResampling.execute_keeps convert (a := s.audioResampling) block
          rw [SystemAudioCapture.work_of_block hqueue hread]
          generalize s.audioResampling.execute convert block = executed at *
          obtain ⟨output, frame, resampling⟩ := executed
          dsimp only at hmemory hframes hdst hctx ⊢
          obtain ⟨-, -, hkept, -⟩ := SystemAudioCapture.onResampled_frame
            (s := { s with
              queueIn := ⟨rest⟩
              buffer := ((s.buffer.write data).read s.audioResampling.getSrcBufferSize).2
              audioResampling := resampling }) frame
          refine ⟨?_, ?_, ?_⟩
          · intro frame' hframe'
            rw [SystemAudioCapture.queueOut_onResampled] at hframe'
            rcases List.mem_append.mp hframe' with hold | hnew
            · exact h.queueOut frame' hold
            · exact hframes frame' (Option.mem_toList.mp hnew)
          · rw [hkept]
            exact hmemory
          · rw [hkept]
            intro hopen
            obtain ⟨hsize, hpositive⟩ := h.resampler (fun hnone => hopen (hctx.mpr hnone))
            exact ⟨hdst.trans hsize, hpositive⟩

/-- A frame that is taken from the queue was in it. -/
theorem FramesOf.getAudioData (h : FramesOf size s) :
    (∀ frame ∈ s.getAudioData.1, frame.length = size) ∧ FramesOf size s.getAudioData.2 := by
  have hpop := ThreadQueue.pop_queue s.queueOut
  constructor
  · intro frame hframe
    refine h.queueOut frame ?_
    rw [← hpop]
    exact List.mem_append_left _ (Option.mem_toList.mpr hframe)
  · refine ⟨fun frame hframe => h.queueOut frame ?_, h.memoryBuffer, h.resampler⟩
    rw [← hpop]
    exact List.mem_append_right _ hframe

end

/-! ## The four buffers -/

/-- What the microphone delivers, the silence and the mixed data have the size of a frame. -/
structure Sized (size : ℕ) (mic : AudioInput) (silentAudio audioData : Option (List UInt8)) :
    Prop where
  mic : mic.bufferSize = size
  silentAudio : ∃ silent, silentAudio = some silent ∧ silent.length = size
  audioData : ∃ data, audioData = some data ∧ data.length = size

/-- Without a microphone the resampler is closed. -/
structure Matched (s : AudioCapture ρ) : Prop where
  frames : FramesOf s.option.getFrameSize s.systemAudio
  closed : s.mic = none → s.systemAudio.audioResampling.swrCtx = none
  sized : ∀ mic, s.mic = some mic → Sized s.option.getFrameSize mic s.silentAudio s.audioData

section

variable {convert : ρ → List UInt8 → Option (List UInt8) × ρ} {mix : Word → Word → Word}
  {s s' : AudioCapture ρ}

theorem Matched.stop (h : Matched s) :
    Matched s.stop ∧ s.stop.systemAudio.audioResampling.swrCtx = none := by
  unfold AudioCapture.stop
  cases hmic : s.mic with
  | none =>
      refine ⟨⟨h.frames.stop, fun _ => rfl, ?_⟩, rfl⟩
      intro mic hmic'
      cases hmic'
  | some mic =>
      refine ⟨⟨h.frames.stop, fun _ => rfl, ?_⟩, rfl⟩
      intro mic' hmic'
      cases hmic'

/-- A `start` sets all sizes from its option, after it has closed what was open. -/
theorem Matched.start (h : Matched s) {option : AudioCaptureOption} (devices : Devices ρ)
    (hpositive : 0 < option.channels ∧ 0 < option.sampleSize ∧ 0 < option.frames) :
    Matched (s.start option devices).2 := by
  have hstopped : ∃ s₀ : AudioCapture ρ, (if s.mic.isSome = true then s.stop else s) = s₀ ∧
      Matched s₀ ∧ s₀.systemAudio.audioResampling.swrCtx = none := by
    cases hmic : s.mic with
    | none => exact ⟨s, rfl, h, h.closed hmic⟩
    | some mic => exact ⟨s.stop, rfl, h.stop⟩
  obtain ⟨s₀, hs₀, hmatched, hclosed⟩ := hstopped
  have hsize : option.frames * option.channels * option.sampleSize = option.getFrameSize := by
    unfold AudioCaptureOption.getFrameSize
    ring
  have hframe : 0 < option.frames * option.channels * option.sampleSize := by
    obtain ⟨hchannels, hsampleSize, hframes⟩ := hpositive
    positivity
  have hframes := hmatched.frames.start option.channels option.sampleRate option.sampleSize
    option.frames devices.system devices.resampler hclosed hframe
  rw [hsize] at hframes
  unfold AudioCapture.start
  rw [hs₀]
  refine ⟨hframes, fun hnone => absurd hnone (Option.some_ne_none _), ?_⟩
  intro mic hmic
  obtain rfl := Option.some.inj hmic
  refine ⟨?_, ⟨_, rfl, List.length_replicate⟩, ⟨_, rfl, List.length_replicate⟩⟩
  rw [AudioInput.bufferSize_open]
  show option.sampleSize * option.frames * option.channels = option.getFrameSize
  unfold AudioCaptureOption.getFrameSize
  ring

theorem length_setWord {data : List UInt8} {i : ℕ} (h : 4 * i + 4 ≤ data.length) (w : Word) :
    (setWord data i w).length = data.length := by
  unfold setWord
  rw [List.length_append, List.length_append, List.length_take, List.length_drop,
    List.length_ofFn]
  omega

theorem length_mixLoop {mic system dst : List UInt8} {n : ℕ} (h : 4 * n ≤ dst.length) :
    (mixLoop mix mic system dst n).length = dst.length := by
  induction n with
  | zero => rfl
  | succ n ih =>
      have hbefore := ih (by omega)
      rw [mixLoop, length_setWord (by omega), hbefore]

variable (mix) in
/-- A callback of the microphone mixes inside its buffers, with a frame of the right size or
with silence, and leaves the sizes as they are. -/
theorem Matched.onData (h : Matched s) {mic : AudioInput} (hmic : s.mic = some mic)
    {buffer : List UInt8} (hbuffer : buffer.length = mic.bufferSize) :
    ∃ mixing s', s.onData mix buffer mic.bufferSize = some (mixing, s') ∧
      mixing.mic.length = s.option.getFrameSize ∧ mixing.system.length = s.option.getFrameSize ∧
      mixing.dst.length = s.option.getFrameSize ∧ mixing.Inside ∧ Matched s' := by
  obtain ⟨hsize, ⟨silent, hsilent, hsilentSize⟩, ⟨data, hdata, hdataSize⟩⟩ := h.sized mic hmic
  obtain ⟨htaken, hleft⟩ := h.frames.getAudioData
  have hsystem : (if s.isSystemMuted = true then silent
      else s.systemAudio.getAudioData.1.getD silent).length = s.option.getFrameSize := by
    split
    · exact hsilentSize
    · cases htaken' : s.systemAudio.getAudioData.1 with
      | none => exact hsilentSize
      | some frame => exact htaken frame htaken'
  have hmicSize : (if s.isMicMuted = true then silent else buffer).length =
      s.option.getFrameSize := by
    split
    · exact hsilentSize
    · exact hbuffer.trans hsize
  refine ⟨_, _, by rw [AudioCapture.onData, hsilent, hdata], hmicSize, hsystem, hdataSize, ?_, ?_⟩
  · intro i hi
    dsimp only at hi ⊢
    rw [hmicSize, hsystem, hdataSize, ← hsize]
    omega
  · refine ⟨hleft, h.closed, ?_⟩
    intro mic' hmic'
    refine ⟨(h.sized mic' hmic').mic, ⟨silent, rfl, hsilentSize⟩, _, rfl, ?_⟩
    rw [length_mixLoop (by rw [hdataSize, ← hsize]; omega), hdataSize]

theorem matched_step {input : Input ρ} (h : Matched s) (hpositive : input.Positive)
    (hstep : step convert mix s input = some s') : Matched s' := by
  cases input with
  | start option devices =>
      obtain rfl := Option.some.inj hstep
      exact h.start devices hpositive
  | stop =>
      obtain rfl := Option.some.inj hstep
      exact h.stop.1
  | packet data =>
      unfold step at hstep
      dsimp only at hstep
      split at hstep
      · cases hstep
      · obtain rfl := Option.some.inj hstep
        refine ⟨h.frames.onSystemAudio data, fun hnone => ?_, h.sized⟩
        dsimp only
        rw [(onSystemAudio_frame s.systemAudio data).2]
        exact h.closed hnone
  | work =>
      obtain rfl := Option.some.inj hstep
      have hctx := (SystemAudioCapture.audioResampling_work convert s.systemAudio).2
      exact ⟨h.frames.work, fun hnone => hctx.mpr (h.closed hnone), h.sized⟩
  | micCallback buffer =>
      unfold step at hstep
      dsimp only at hstep
      cases hmic : s.mic with
      | none =>
          rw [hmic] at hstep
          cases hstep
      | some mic =>
          rw [hmic] at hstep
          dsimp only at hstep
          split at hstep
          · rename_i hcalled
            obtain ⟨mixing, s'', hdata, -, -, -, -, hmatched⟩ := h.onData mix hmic hcalled.2
            rw [hdata] at hstep
            obtain rfl := Option.some.inj hstep
            exact hmatched
          · cases hstep
  | setMicMuted value =>
      obtain rfl := Option.some.inj hstep
      exact ⟨h.frames, h.closed, h.sized⟩
  | setSystemMuted value =>
      obtain rfl := Option.some.inj hstep
      exact ⟨h.frames, h.closed, h.sized⟩

/-- The buffers of a session: the `Memory` that `getAudioData` returns, the block of the
microphone, the silence and the mixed data have the frame size of the current option, and a
callback of the microphone mixes inside its three buffers, which have that size. -/
structure Mixes (mix : Word → Word → Word) (s : AudioCapture ρ) (mic : AudioInput) : Prop where
  returned : ∀ memory ∈ s.systemAudio.getAudioData.1, memory.length = s.option.getFrameSize
  sized : Sized s.option.getFrameSize mic s.silentAudio s.audioData
  inside : ∀ buffer : List UInt8, buffer.length = mic.bufferSize →
    ∃ mixing s', s.onData mix buffer mic.bufferSize = some (mixing, s') ∧
      mixing.mic.length = s.option.getFrameSize ∧ mixing.system.length = s.option.getFrameSize ∧
      mixing.dst.length = s.option.getFrameSize ∧ mixing.Inside

/-- In every run, with any outcome of opening the devices, any packets and any iterations of
the worker, the buffers match whenever there is a microphone. -/
theorem buffers_match (convert : ρ → List UInt8 → Option (List UInt8) × ρ)
    (mix : Word → Word → Word) (a : AudioResampling ρ) {inputs : List (Input ρ)}
    (hpositive : ∀ input ∈ inputs, input.Positive) {s : AudioCapture ρ}
    (hrun : (machine convert mix a).run inputs = some s) {mic : AudioInput}
    (hmic : s.mic = some mic) : Mixes mix s mic := by
  have hmatched : Matched s := by
    clear hmic
    induction inputs using List.reverseRecOn generalizing s with
    | nil =>
        obtain rfl := Option.some.inj hrun
        refine ⟨⟨?_, ⟨[], rfl, rfl⟩, fun hopen => absurd rfl hopen⟩, fun _ => rfl, ?_⟩
        · intro frame hframe
          exact absurd hframe List.not_mem_nil
        · intro mic hmic
          cases hmic
    | append_singleton inputs input ih =>
        obtain ⟨before, hbefore, hstep⟩ := Machine.run_concat_eq_some.mp hrun
        have hmatched := ih (fun i hi => hpositive i (List.mem_append_left _ hi)) hbefore
        exact matched_step hmatched
          (hpositive input (List.mem_append_right _ (List.mem_singleton_self input))) hstep
  refine ⟨hmatched.frames.getAudioData.1, hmatched.sized mic hmic, fun buffer hbuffer => ?_⟩
  obtain ⟨mixing, s', hdata, hmicSize, hsystem, hdst, hinside, -⟩ :=
    hmatched.onData mix hmic hbuffer
  exact ⟨mixing, s', hdata, hmicSize, hsystem, hdst, hinside⟩

end

def monoOption : AudioCaptureOption :=
  { channels := 1, sampleRate := 8000, sampleSize := 4, frames := 1 }

/-- A session in which a block of the microphone is mixed with silence. -/
def monoSession : List (Input Unit) :=
  [.start monoOption
      ⟨some ⟨1, 48000, 16⟩, ⟨some (), true, true, true⟩, ⟨true, true, true, true⟩⟩,
    .micCallback [1, 2, 3, 4]]

/-- A session of another format and without a device for the microphone, in which a packet
becomes a frame. -/
def stereoSession (packet : List UInt8) : List (Input Unit) :=
  [.start { monoOption with channels := 2 }
      ⟨some ⟨1, 48000, 16⟩, ⟨some (), true, true, true⟩, ⟨false, true, true, true⟩⟩,
    .packet (some packet), .work]

def toEightBytes : Unit → List UInt8 → Option (List UInt8) × Unit :=
  fun _ _ => (some (List.replicate 8 0), ())

def addWords : Word → Word → Word := fun mic system k => mic k + system k

/-- The new object of the two sessions. -/
def sessions : Machine (AudioCapture Unit) (Input Unit) :=
  machine toEightBytes addWords ⟨{}, 0, 0, 0, 0, 0, 0, 0, none⟩

/-- A packet of a whole block becomes a frame, which is there to be taken. -/
theorem stereoSession_run {s₁ : AudioCapture Unit} {packet : List UInt8}
    (hpacket : packet.length = 2048) (hfirst : sessions.run monoSession = some s₁) :
    ∃ s mic, sessions.run (monoSession ++ stereoSession packet) = some s ∧ s.mic = some mic ∧
      s.systemAudio.getAudioData.1.isSome = true := by
  obtain ⟨s₂, mic, hstart, hmic, hlagging⟩ : ∃ s₂ mic,
      sessions.runFrom s₁ ((stereoSession packet).take 1) = some s₂ ∧ s₂.mic = some mic ∧
        SystemAudioCapture.Lagging packet (List.replicate 8 0) () 0 0 s₂.systemAudio := by
    refine ⟨_, _, rfl, rfl, ?_⟩
    exact ⟨rfl, rfl, rfl, MemoryBuffer.represents_new, MemoryBuffer.represents_new, hpacket.symm,
      rfl, rfl⟩
  have hpacketStep : sessions.step s₂ (.packet (some packet)) =
      some { s₂ with systemAudio := s₂.systemAudio.onSystemAudio (some packet) } :=
    if_neg (by simp [hlagging.opened])
  have hconvert : toEightBytes () packet = (some (List.replicate 8 0), ()) := rfl
  have hworked := hlagging.onSystemAudio.work hconvert (by rw [hpacket]; decide) (by decide)
  refine ⟨{ s₂ with systemAudio :=
    ((s₂.systemAudio.onSystemAudio (some packet)).work toEightBytes).2 }, mic, ?_, hmic,
    hworked.getAudioData⟩
  rw [Machine.run_append, hfirst, Option.bind_some, ← List.take_append_drop 1 (stereoSession _),
    Machine.runFrom_append, hstart, Option.bind_some]
  show (sessions.step s₂ (.packet (some packet))).bind _ = _
  rw [hpacketStep]
  rfl

/-- Both devices are opened with packets of a positive size. -/
theorem positive_sessions (packet : List UInt8) :
    ∀ input ∈ monoSession ++ stereoSession packet, input.Positive := by
  simp [monoSession, stereoSession, monoOption, Input.Positive]

/-- Both sessions, one after the other. -/
theorem buffers_match_restart : ∃ s mic,
    sessions.run (monoSession ++ stereoSession (List.replicate 2048 7)) = some s ∧
      s.mic = some mic ∧ s.systemAudio.getAudioData.1.isSome = true ∧ Mixes addWords s mic := by
  obtain ⟨s, mic, hs, hmic, hframe⟩ := stereoSession_run List.length_replicate rfl
  exact ⟨s, mic, hs, hmic, hframe,
    buffers_match toEightBytes addWords _ (positive_sessions _) hs hmic⟩

end AudioCapture

end RyuLib
