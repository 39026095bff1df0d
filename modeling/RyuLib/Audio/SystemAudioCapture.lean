import RyuLib.Audio.AudioResampling
import RyuLib.Foundations.Machine
import RyuLib.Foundations.Slices
import RyuLib.Thread.Scheduler

/-!
# SystemAudioCapture

The packets of the system's audio go through a queue to a worker thread; it cuts them into
source blocks for the resampler, whose frames go through a second queue to `getAudioData`.
The packets, one iteration of the worker's loop and the calls of the client are one step
each.

* `SystemAudioCapture.keeps_stream`: the blocks and the frames are consecutive slices of
  what goes in, in order, and what is in no slice yet is still there.
* `SystemAudioCapture.delay_iff`: the queue of frames stays within its bound exactly when
  the worker completes no frame while the queue holds more than `MAX_DELAY_COUNT`.
-/

namespace RyuLib

open Foundations

structure SystemAudioCapture (ρ : Type*) where
  /-- `system_audio_` is open and calls the handler. -/
  opened : Bool := false
  buffer : MemoryBuffer := {}
  audioResampling : AudioResampling ρ
  queueOut : ThreadQueue (List UInt8) := {}
  queueIn : ThreadQueue (List UInt8) := {}

namespace SystemAudioCapture

variable {ρ : Type*}

abbrev maxDelayCount : ℕ := 2

/-- The format of the system's audio. -/
structure Format where
  channels : ℕ
  samples : ℕ
  bitsPerSample : ℕ

/-- What one iteration of the worker's loop has handed to the resampler, what came of it,
and the frame pushed to `queue_out_`. -/
structure Worked where
  block : Option (List UInt8) := none
  output : Option (List UInt8) := none
  frame : Option (List UInt8) := none

/-- The handler of `system_audio_`; `none` is null. -/
def onSystemAudio (s : SystemAudioCapture ρ) : Option (List UInt8) → SystemAudioCapture ρ
  | none => s
  | some data =>
      if s.queueOut.queue.length > maxDelayCount then s
      else { s with queueIn := s.queueIn.push data }

/-- The handler of `audio_resampling_`. -/
def onResampled (s : SystemAudioCapture ρ) : Option (List UInt8) → SystemAudioCapture ρ
  | none => s
  | some data => { s with queueOut := s.queueOut.push data }

/-- One iteration of the worker's loop. -/
def work (convert : ρ → List UInt8 → Option (List UInt8) × ρ) (s : SystemAudioCapture ρ) :
    Worked × SystemAudioCapture ρ :=
  match s.queueIn.pop with
  | (none, _) => ({}, s)
  | (some data, queueIn) =>
      let (src, buffer) := (s.buffer.write data).read s.audioResampling.getSrcBufferSize
      let s := { s with queueIn := queueIn, buffer := buffer }
      match src with
      | none => ({}, s)
      | some src =>
          let (output, dst, audioResampling) := s.audioResampling.execute convert src
          ({ block := some src, output := output, frame := dst },
            onResampled { s with audioResampling := audioResampling } dst)

/-- All three stores are emptied. -/
def doClear (s : SystemAudioCapture ρ) : SystemAudioCapture ρ :=
  { s with buffer := s.buffer.clear, queueIn := {}, queueOut := {} }

/-- `device` is the format, with `none` when `system_audio_` does not open. -/
def start (s : SystemAudioCapture ρ) (channels sampleRate sampleSize frames : ℕ)
    (device : Option Format) (r : AudioResampling.OpenResults ρ) : SystemAudioCapture ρ :=
  match device with
  | none => s.doClear
  | some format =>
      { s.doClear with
        opened := true
        audioResampling := (s.audioResampling.open_ format.channels format.samples
          (format.bitsPerSample / 8) channels sampleRate sampleSize frames r).2 }

def stop (s : SystemAudioCapture ρ) : SystemAudioCapture ρ :=
  { s with opened := false, audioResampling := s.audioResampling.close }

def getAudioData (s : SystemAudioCapture ρ) : Option (List UInt8) × SystemAudioCapture ρ :=
  let (memory, queueOut) := s.queueOut.pop
  (memory, { s with queueOut := queueOut })

/-! ## Runs -/

inductive Input (ρ : Type*)
  | start (channels sampleRate sampleSize frames : ℕ) (device : Option Format)
      (results : AudioResampling.OpenResults ρ)
  | stop
  | packet (data : Option (List UInt8))
  | work
  | getAudioData

/-- With what went through the stages since the last `start`: the packets accepted, the
blocks given to the resampler, what it made of them, the frames pushed to `queue_out_`, and
those taken from it. -/
structure Pipeline (ρ : Type*) where
  capture : SystemAudioCapture ρ
  accepted : List (List UInt8) := []
  blocks : List (List UInt8) := []
  outputs : List (List UInt8) := []
  frames : List (List UInt8) := []
  delivered : List (List UInt8) := []

/-- The handler accepts the packet. -/
def Accepts (s : SystemAudioCapture ρ) : Bool := decide (s.queueOut.queue.length ≤ maxDelayCount)

def step (convert : ρ → List UInt8 → Option (List UInt8) × ρ) (p : Pipeline ρ) :
    Input ρ → Option (Pipeline ρ)
  | .start channels sampleRate sampleSize frames device results =>
      some { capture := p.capture.start channels sampleRate sampleSize frames device results }
  | .stop => some { p with capture := p.capture.stop }
  | .packet data =>
      if p.capture.opened = false then none
      else
        some { p with
          capture := p.capture.onSystemAudio data
          accepted := p.accepted ++ if Accepts p.capture = true then data.toList else [] }
  | .work =>
      let (worked, capture) := p.capture.work convert
      some { p with
        capture := capture
        blocks := p.blocks ++ worked.block.toList
        outputs := p.outputs ++ worked.output.toList
        frames := p.frames ++ worked.frame.toList }
  | .getAudioData =>
      let (memory, capture) := p.capture.getAudioData
      some { p with capture := capture, delivered := p.delivered ++ memory.toList }

def machine (convert : ρ → List UInt8 → Option (List UInt8) × ρ) (s : SystemAudioCapture ρ) :
    Machine (Pipeline ρ) (Input ρ) :=
  ⟨{ capture := s }, step convert⟩

section

variable {convert : ρ → List UInt8 → Option (List UInt8) × ρ} {s : SystemAudioCapture ρ}

/-! ## One iteration of the worker -/

theorem work_of_nil (h : s.queueIn.queue = []) : s.work convert = ({}, s) := by
  unfold work ThreadQueue.pop
  rw [h]

/-- There are not enough bytes for a block. -/
theorem work_of_short {data : List UInt8} {rest : List (List UInt8)}
    (h : s.queueIn.queue = data :: rest)
    (hread : ((s.buffer.write data).read s.audioResampling.getSrcBufferSize).1 = none) :
    s.work convert =
      ({}, { s with
        queueIn := ⟨rest⟩
        buffer := ((s.buffer.write data).read s.audioResampling.getSrcBufferSize).2 }) := by
  unfold work ThreadQueue.pop
  rw [h]
  dsimp only
  rw [hread]

theorem work_of_block {data src : List UInt8} {rest : List (List UInt8)}
    (h : s.queueIn.queue = data :: rest)
    (hread : ((s.buffer.write data).read s.audioResampling.getSrcBufferSize).1 = some src) :
    let executed := s.audioResampling.execute convert src
    s.work convert =
      ({ block := some src, output := executed.1, frame := executed.2.1 },
        onResampled { s with
          queueIn := ⟨rest⟩
          buffer := ((s.buffer.write data).read s.audioResampling.getSrcBufferSize).2
          audioResampling := executed.2.2 } executed.2.1) := by
  unfold work ThreadQueue.pop
  rw [h]
  dsimp only
  rw [hread]

@[simp] theorem queueOut_onResampled (frame : Option (List UInt8)) :
    (s.onResampled frame).queueOut.queue = s.queueOut.queue ++ frame.toList := by
  cases frame with
  | none => exact (List.append_nil _).symm
  | some data => rfl

/-- A frame goes to `queue_out_` and nowhere else. -/
theorem onResampled_frame (frame : Option (List UInt8)) :
    (s.onResampled frame).opened = s.opened ∧ (s.onResampled frame).buffer = s.buffer ∧
      (s.onResampled frame).audioResampling = s.audioResampling ∧
      (s.onResampled frame).queueIn = s.queueIn := by
  cases frame with
  | none => exact ⟨rfl, rfl, rfl, rfl⟩
  | some data => exact ⟨rfl, rfl, rfl, rfl⟩

variable (convert) in
/-- The worker changes no sizes, and opens and closes nothing. -/
theorem audioResampling_work (s : SystemAudioCapture ρ) :
    (s.work convert).2.audioResampling.getSrcBufferSize = s.audioResampling.getSrcBufferSize ∧
      ((s.work convert).2.audioResampling.swrCtx = none ↔ s.audioResampling.swrCtx = none) := by
  cases hqueue : s.queueIn.queue with
  | nil =>
      rw [work_of_nil hqueue]
      exact ⟨rfl, Iff.rfl⟩
  | cons data rest =>
      cases hread : ((s.buffer.write data).read s.audioResampling.getSrcBufferSize).1 with
      | none =>
          rw [work_of_short hqueue hread]
          exact ⟨rfl, Iff.rfl⟩
      | some block =>
          obtain ⟨hsize, -, hctx⟩ :=
            AudioResampling.execute_keeps convert (a := s.audioResampling) block
          rw [work_of_block hqueue hread, (onResampled_frame _).2.2.1]
          exact ⟨hsize, hctx⟩

/-- A new object, with any values in the members that have no initializer. -/
def fresh (a : AudioResampling ρ) : SystemAudioCapture ρ :=
  { audioResampling := { a with memoryBuffer := {}, swrCtx := none } }

/-! ## Packets of a whole block -/

/-- `waiting` packets, each of a whole block, are in the queue, and `done` frames wait for
the client; both buffers are empty, and what comes of a block is a frame. -/
structure Lagging (block output : List UInt8) (ctx : ρ) (waiting done : ℕ)
    (s : SystemAudioCapture ρ) : Prop where
  opened : s.opened = true
  queueIn : s.queueIn.queue = List.replicate waiting block
  queueOut : s.queueOut.queue.length = done
  buffer : MemoryBuffer.Represents s.buffer []
  memoryBuffer : MemoryBuffer.Represents s.audioResampling.memoryBuffer []
  srcSize : s.audioResampling.getSrcBufferSize = block.length
  dstSize : s.audioResampling.dstDataSize = output.length
  swrCtx : s.audioResampling.swrCtx = some ctx

section

variable {block output : List UInt8} {ctx : ρ} {waiting done : ℕ} {p : Pipeline ρ}

/-- While no frame waits, all packets are accepted. -/
theorem Lagging.onSystemAudio (h : Lagging block output ctx waiting 0 s) :
    Lagging block output ctx (waiting + 1) 0 (s.onSystemAudio (some block)) := by
  have hroom : ¬ s.queueOut.queue.length > maxDelayCount := by
    rw [h.queueOut]
    exact Nat.not_lt_zero _
  rw [SystemAudioCapture.onSystemAudio, if_neg hroom]
  refine ⟨h.opened, ?_, h.queueOut, h.buffer, h.memoryBuffer, h.srcSize, h.dstSize, h.swrCtx⟩
  show s.queueIn.queue ++ [block] = _
  rw [h.queueIn, ← List.replicate_succ']

/-- Every packet that waits becomes a frame, however many are there already. -/
theorem Lagging.work (hconvert : convert ctx block = (some output, ctx))
    (hblock : 0 < block.length ∧ block.length < 2 ^ 31)
    (houtput : 0 < output.length ∧ output.length < 2 ^ 31)
    (h : Lagging block output ctx (waiting + 1) done s) :
    Lagging block output ctx waiting (done + 1) (s.work convert).2 := by
  have hqueue := h.queueIn
  rw [List.replicate_succ] at hqueue
  obtain ⟨hread, hbuffer⟩ := h.buffer.read_chunk hblock.1 hblock.2
  obtain ⟨hframe, hmemory⟩ := h.memoryBuffer.read_chunk houtput.1 houtput.2
  rw [work_of_block hqueue (by rw [h.srcSize]; exact hread),
    AudioResampling.execute_of_converts h.swrCtx hconvert, h.dstSize, hframe]
  refine ⟨h.opened, rfl, ?_, ?_, hmemory, h.srcSize, rfl, rfl⟩
  · show (s.queueOut.queue ++ [output]).length = done + 1
    rw [List.length_append, h.queueOut]
    rfl
  · show MemoryBuffer.Represents ((s.buffer.write block).read _).2 []
    rw [h.srcSize]
    exact hbuffer

/-- A frame that waits is there to be taken. -/
theorem Lagging.getAudioData (h : Lagging block output ctx waiting (done + 1) s) :
    s.getAudioData.1.isSome = true := by
  have hframe := h.queueOut
  rw [SystemAudioCapture.getAudioData]
  cases hqueue : s.queueOut.queue with
  | nil =>
      rw [hqueue] at hframe
      cases hframe
  | cons frame frames =>
      rw [ThreadQueue.pop, hqueue]
      rfl

/-- Any number of packets that the worker has not got to become as many frames. -/
theorem frames_unbounded (s : SystemAudioCapture ρ) (first : List (Input ρ))
    (hconvert : convert ctx block = (some output, ctx))
    (hblock : 0 < block.length ∧ block.length < 2 ^ 31)
    (houtput : 0 < output.length ∧ output.length < 2 ^ 31)
    (hfirst : (machine convert s).run first = some p)
    (h : Lagging block output ctx 0 0 p.capture) (n : ℕ) :
    ∃ p', (machine convert s).run
        (first ++ List.replicate n (.packet (some block)) ++ List.replicate n .work) = some p' ∧
      p'.capture.queueOut.queue.length = n := by
  have hpackets : ∀ n, ∃ p', (machine convert s).run
      (first ++ List.replicate n (.packet (some block))) = some p' ∧
      Lagging block output ctx n 0 p'.capture := by
    intro n
    induction n with
    | zero => exact ⟨p, by simpa using hfirst, h⟩
    | succ n ih =>
        obtain ⟨p', hp', hlagging⟩ := ih
        obtain ⟨p'', hstep, hcapture⟩ : ∃ p'', step convert p' (.packet (some block)) = some p'' ∧
            p''.capture = p'.capture.onSystemAudio (some block) :=
          ⟨_, by rw [step, hlagging.opened, if_neg (by decide)], rfl⟩
        refine ⟨p'', ?_, hcapture ▸ hlagging.onSystemAudio⟩
        rw [List.replicate_succ', ← List.append_assoc]
        exact Machine.run_concat_eq_some.mpr ⟨p', hp', hstep⟩
  have hworks : ∀ k, k ≤ n → ∃ p', (machine convert s).run
      (first ++ List.replicate n (.packet (some block)) ++ List.replicate k .work) = some p' ∧
      Lagging block output ctx (n - k) k p'.capture := by
    intro k
    induction k with
    | zero =>
        intro _
        obtain ⟨p', hp', hlagging⟩ := hpackets n
        exact ⟨p', by simpa using hp', hlagging⟩
    | succ k ih =>
        intro hk
        obtain ⟨p', hp', hlagging⟩ := ih (by omega)
        rw [show n - k = n - (k + 1) + 1 by omega] at hlagging
        obtain ⟨p'', hstep, hcapture⟩ : ∃ p'', step convert p' .work = some p'' ∧
            p''.capture = (p'.capture.work convert).2 := ⟨_, rfl, rfl⟩
        refine ⟨p'', ?_, hcapture ▸ hlagging.work hconvert hblock houtput⟩
        rw [List.replicate_succ', ← List.append_assoc]
        exact Machine.run_concat_eq_some.mpr ⟨p', hp', hstep⟩
  obtain ⟨p', hp', hlagging⟩ := hworks n le_rfl
  exact ⟨p', hp', hlagging.queueOut⟩

/-- One channel of 16 bits makes blocks of 2048 bytes. -/
theorem frames_unbounded_blocks (convert : Unit → List UInt8 → Option (List UInt8) × Unit)
    (hconvert : ∀ {block}, convert () block = (some [0, 0], ())) (byte : UInt8) (n : ℕ) :
    ∃ p', (machine convert (fresh ⟨{}, 0, 0, 0, 0, 0, 0, 0, none⟩)).run
        (.start 1 44100 2 1 (some ⟨1, 48000, 16⟩) ⟨some (), true, true, true⟩ ::
          (List.replicate n (.packet (some (List.replicate 2048 byte))) ++
            List.replicate n .work)) = some p' ∧
      p'.capture.queueOut.queue.length = n := by
  have hlength : (List.replicate 2048 byte).length = 2048 := List.length_replicate
  rw [← List.singleton_append, ← List.append_assoc]
  refine frames_unbounded _ [.start 1 44100 2 1 (some ⟨1, 48000, 16⟩)
    ⟨some (), true, true, true⟩] hconvert ?_ (by decide) rfl ?_ n
  · rw [hlength]
    decide
  · exact ⟨rfl, rfl, rfl, MemoryBuffer.represents_new, MemoryBuffer.represents_new,
      hlength.symm, rfl, rfl⟩

end

/-! ## The stream -/

/-- The resampler on one block after the other: what it makes of them, and its context
afterwards. -/
def feed (convert : ρ → List UInt8 → Option (List UInt8) × ρ) (ctx : ρ)
    (blocks : List (List UInt8)) : List (List UInt8) × ρ :=
  blocks.foldl (fun fed block =>
    (fed.1 ++ (convert fed.2 block).1.toList, (convert fed.2 block).2)) ([], ctx)

theorem feed_concat (convert : ρ → List UInt8 → Option (List UInt8) × ρ) (ctx : ρ)
    (blocks : List (List UInt8)) (block : List UInt8) :
    feed convert ctx (blocks ++ [block]) =
      ((feed convert ctx blocks).1 ++ (convert (feed convert ctx blocks).2 block).1.toList,
        (convert (feed convert ctx blocks).2 block).2) := by
  unfold feed
  rw [List.foldl_append]
  rfl

/-- Both stages cut what they were given into slices of `src` and of `dst` bytes. -/
structure Streaming (convert : ρ → List UInt8 → Option (List UInt8) × ρ) (ctx : ρ) (src dst : ℕ)
    (p : Pipeline ρ) : Prop where
  srcSize : p.capture.audioResampling.getSrcBufferSize = src
  dstSize : p.capture.audioResampling.dstDataSize = dst
  fed : (feed convert ctx p.blocks).1 = p.outputs ∧
    p.capture.audioResampling.swrCtx = some (feed convert ctx p.blocks).2
  source : ∃ popped rest, popped ++ p.capture.queueIn.queue.flatten = p.accepted.flatten ∧
    MemoryBuffer.Represents p.capture.buffer rest ∧ Sliced src popped p.blocks rest
  target : ∃ rest, MemoryBuffer.Represents p.capture.audioResampling.memoryBuffer rest ∧
    Sliced dst p.outputs.flatten p.frames rest
  queue : p.delivered ++ p.capture.queueOut.queue = p.frames

variable {ctx : ρ} {src dst : ℕ} {p p' : Pipeline ρ}

theorem Streaming.packet (h : Streaming convert ctx src dst p) {data : Option (List UInt8)}
    (hstep : step convert p (.packet data) = some p') : Streaming convert ctx src dst p' := by
  unfold step at hstep
  dsimp only at hstep
  split at hstep
  · cases hstep
  · obtain rfl := Option.some.inj hstep
    obtain ⟨popped, rest, hpopped, hbuffer, hsliced⟩ := h.source
    cases data with
    | none =>
        refine ⟨h.srcSize, h.dstSize, h.fed, ⟨popped, rest, ?_, hbuffer, hsliced⟩, h.target,
          h.queue⟩
        simpa [onSystemAudio] using hpopped
    | some data =>
        by_cases hfull : p.capture.queueOut.queue.length > maxDelayCount
        · have hrefused : Accepts p.capture = false := by simpa [Accepts] using hfull
          rw [onSystemAudio, if_pos hfull, hrefused]
          refine ⟨h.srcSize, h.dstSize, h.fed, ⟨popped, rest, ?_, hbuffer, hsliced⟩, h.target,
            h.queue⟩
          simpa using hpopped
        · have haccepted : Accepts p.capture = true := by simpa [Accepts] using hfull
          rw [onSystemAudio, if_neg hfull, haccepted]
          refine ⟨h.srcSize, h.dstSize, h.fed, ⟨popped, rest, ?_, hbuffer, hsliced⟩, h.target,
            h.queue⟩
          calc popped ++ (p.capture.queueIn.queue ++ [data]).flatten
              = popped ++ p.capture.queueIn.queue.flatten ++ [data].flatten := by
                rw [List.flatten_append, List.append_assoc]
            _ = p.accepted.flatten ++ [data].flatten := by rw [hpopped]
            _ = (p.accepted ++ [data]).flatten := List.flatten_append.symm

theorem Streaming.work (h : Streaming convert ctx src dst p) (hsrc : 0 < src) (hdst : 0 < dst)
    (hstep : step convert p .work = some p') : Streaming convert ctx src dst p' := by
  obtain ⟨popped, rest, hpopped, hbuffer, hsliced⟩ := h.source
  obtain ⟨left, hmemory, htarget⟩ := h.target
  unfold step at hstep
  dsimp only at hstep
  cases hqueue : p.capture.queueIn.queue with
  | nil =>
      rw [work_of_nil hqueue] at hstep
      obtain rfl := Option.some.inj hstep
      dsimp only [Option.toList]
      simpa only [List.append_nil] using h
  | cons data queued =>
      rw [hqueue, List.flatten_cons, ← List.append_assoc] at hpopped
      -- the packet joins what is left of the earlier ones
      obtain ⟨rest', hbuffer', hsliced'⟩ :=
        (hbuffer.write data).read_sliced hsrc (hsliced.write data)
      rw [← h.srcSize] at hbuffer' hsliced' hsrc
      cases hread : ((p.capture.buffer.write data).read
          p.capture.audioResampling.getSrcBufferSize).1 with
      | none =>
          rw [work_of_short hqueue hread] at hstep
          obtain rfl := Option.some.inj hstep
          rw [hread, h.srcSize] at hsliced'
          dsimp only [Option.toList] at hsliced' ⊢
          simp only [List.append_nil] at hsliced' ⊢
          exact ⟨h.srcSize, h.dstSize, h.fed, ⟨_, rest', hpopped, hbuffer', hsliced'⟩,
            ⟨left, hmemory, htarget⟩, h.queue⟩
      | some block =>
          rw [work_of_block hqueue hread] at hstep
          obtain rfl := Option.some.inj hstep
          rw [hread, h.srcSize] at hsliced'
          obtain ⟨hsrcKept, hdstKept, -⟩ := AudioResampling.execute_keeps convert
            (a := p.capture.audioResampling) block
          rw [← h.dstSize] at htarget hdst
          obtain ⟨hctx, houtput, hexecuted⟩ :=
            AudioResampling.execute_sliced convert h.fed.2 hdst hmemory htarget block
          generalize p.capture.audioResampling.execute convert block = executed at *
          obtain ⟨output, frame, resampling⟩ := executed
          obtain ⟨left', hmemory', htarget'⟩ := hexecuted
          dsimp only at hsrcKept hdstKept hctx houtput hmemory' htarget'
          obtain ⟨-, hkeptBuffer, hkeptResampling, hkeptQueue⟩ := onResampled_frame
            (s := { p.capture with
              queueIn := ⟨queued⟩
              buffer := ((p.capture.buffer.write data).read
                p.capture.audioResampling.getSrcBufferSize).2
              audioResampling := resampling }) frame
          refine ⟨?_, ?_, ?_, ⟨_, rest', ?_, ?_, hsliced'⟩, ⟨left', ?_, ?_⟩, ?_⟩
          · rw [hkeptResampling, ← h.srcSize, ← hsrcKept]
          · rw [hkeptResampling, ← h.dstSize, ← hdstKept]
          · rw [hkeptResampling, Option.toList, feed_concat]
            exact ⟨by rw [h.fed.1, houtput], hctx⟩
          · rw [hkeptQueue]
            exact hpopped
          · rw [hkeptBuffer]
            exact hbuffer'
          · rw [hkeptResampling]
            exact hmemory'
          · rw [← h.dstSize]
            exact htarget'
          · calc p.delivered ++ (onResampled _ frame).queueOut.queue
                = p.delivered ++ (p.capture.queueOut.queue ++ frame.toList) := by
                  rw [queueOut_onResampled]
              _ = p.frames ++ frame.toList := by rw [← List.append_assoc, h.queue]

theorem Streaming.getAudioData (h : Streaming convert ctx src dst p)
    (hstep : step convert p .getAudioData = some p') : Streaming convert ctx src dst p' := by
  obtain rfl := Option.some.inj hstep
  refine ⟨h.srcSize, h.dstSize, h.fed, h.source, h.target, ?_⟩
  calc p.delivered ++ p.capture.queueOut.pop.1.toList ++ p.capture.queueOut.pop.2.queue
      = p.delivered ++ p.capture.queueOut.queue := by
        rw [List.append_assoc, ThreadQueue.pop_queue]
    _ = p.frames := h.queue

/-- An input between a `start` and the next `start` or `stop`. -/
def Input.Inside : Input ρ → Prop
  | .packet _ => True
  | .work => True
  | .getAudioData => True
  | _ => False

/-- Every input of a session keeps it. -/
theorem Streaming.step (h : Streaming convert ctx src dst p) (hsrc : 0 < src) (hdst : 0 < dst)
    {input : Input ρ} (hinput : input.Inside)
    (hstep : SystemAudioCapture.step convert p input = some p') :
    Streaming convert ctx src dst p' := by
  cases input with
  | start => exact hinput.elim
  | stop => exact hinput.elim
  | packet data => exact h.packet hstep
  | work => exact h.work hsrc hdst hstep
  | getAudioData => exact h.getAudioData hstep

/-- The blocks and the frames are the first slices of what was put into their stages, and
nothing is lost: the bytes in no block and in no frame are in the queue and the buffers. -/
structure InSlices (convert : ρ → List UInt8 → Option (List UInt8) × ρ) (swrAlloc : Option ρ)
    (src dst : ℕ) (p : Pipeline ρ) : Prop where
  blocks : p.blocks = (slices src p.accepted.flatten).take p.blocks.length
  source : p.blocks.flatten ++ (p.capture.buffer.unread ++ p.capture.queueIn.queue.flatten) =
    p.accepted.flatten
  outputs : ∃ ctx, swrAlloc = some ctx ∧ p.outputs = (feed convert ctx p.blocks).1
  frames : p.frames = (slices dst p.outputs.flatten).take p.frames.length
  target : p.frames.flatten ++ p.capture.audioResampling.memoryBuffer.unread = p.outputs.flatten
  queue : p.delivered ++ p.capture.queueOut.queue = p.frames

/-- After a `start` that opens the device and the resampler, whatever came before it, the
blocks given to the resampler and the frames pushed to the queue are in slices. -/
theorem keeps_stream (convert : ρ → List UInt8 → Option (List UInt8) × ρ)
    (s : SystemAudioCapture ρ) (channels sampleRate sampleSize frames : ℕ) (format : Format)
    (results : AudioResampling.OpenResults ρ)
    (hopen : (s.audioResampling.open_ format.channels format.samples (format.bitsPerSample / 8)
      channels sampleRate sampleSize frames results).1 = true)
    (hdst : 0 < frames * channels * sampleSize)
    {inputs : List (Input ρ)} (hinputs : ∀ input ∈ inputs, input.Inside) {p : Pipeline ρ}
    (hrun : (machine convert s).run
      (.start channels sampleRate sampleSize frames (some format) results :: inputs) = some p) :
    InSlices convert results.swrAlloc
      (AudioResampling.srcNbSamples * format.channels * (format.bitsPerSample / 8))
      (frames * channels * sampleSize) p := by
  obtain ⟨⟨ctx, halloc, hctx⟩, hsrc⟩ := AudioResampling.open_eq_true hopen
  have hstreaming : Streaming convert ctx
      (AudioResampling.srcNbSamples * format.channels * (format.bitsPerSample / 8))
      (frames * channels * sampleSize) p := by
    induction inputs using List.reverseRecOn generalizing p with
    | nil =>
        obtain ⟨hdstSize, hsrcSize, hmemory⟩ := AudioResampling.open_spec s.audioResampling
          format.channels format.samples (format.bitsPerSample / 8) channels sampleRate sampleSize
          frames results
        have hempty := MemoryBuffer.represents_clear s.audioResampling.memoryBuffer
        rw [← hmemory] at hempty
        obtain rfl := Option.some.inj hrun
        exact ⟨hsrcSize, hdstSize, ⟨rfl, hctx⟩,
          ⟨[], [], rfl, MemoryBuffer.represents_clear s.buffer, Sliced.start _ _⟩,
          ⟨[], hempty, Sliced.start _ _⟩, rfl⟩
    | append_singleton inputs input ih =>
        rw [← List.cons_append, Machine.run_concat_eq_some] at hrun
        obtain ⟨before, hbefore, hstep⟩ := hrun
        have hstreaming := ih (fun i hi => hinputs i (List.mem_append_left _ hi)) hbefore
        have hinput := hinputs input (List.mem_append_right _ (List.mem_singleton_self input))
        exact hstreaming.step hsrc hdst hinput hstep
  obtain ⟨popped, rest, hpopped, hbuffer, hsource⟩ := hstreaming.source
  obtain ⟨left, hmemory, htarget⟩ := hstreaming.target
  have hwhole := hsource.write p.capture.queueIn.queue.flatten
  rw [hpopped, ← hbuffer.unread] at hwhole
  rw [← hmemory.unread] at htarget
  exact ⟨hwhole.eq_take hsrc, hwhole.whole, ⟨ctx, halloc, hstreaming.fed.1.symm⟩,
    htarget.eq_take hdst, htarget.whole, hstreaming.queue⟩

/-- Two packets of a block each become two frames. -/
theorem keeps_stream_block :
    let convert : Unit → List UInt8 → Option (List UInt8) × Unit := fun _ _ => (some [0, 0], ())
    ∃ p, (machine convert (fresh ⟨{}, 0, 0, 0, 0, 0, 0, 0, none⟩)).run
        (.start 1 44100 2 1 (some ⟨1, 48000, 16⟩) ⟨some (), true, true, true⟩ ::
          (List.replicate 2 (.packet (some (List.replicate 2048 7))) ++
            List.replicate 2 .work)) = some p ∧
      p.capture.queueOut.queue.length = 2 ∧
      InSlices convert (some ()) (1024 * 1 * (16 / 8)) (1 * 1 * 2) p := by
  intro convert
  obtain ⟨p, hp, hlength⟩ := frames_unbounded_blocks convert rfl 7 2
  refine ⟨p, hp, hlength, ?_⟩
  refine keeps_stream convert (fresh ⟨{}, 0, 0, 0, 0, 0, 0, 0, none⟩) 1 44100 2 1 ⟨1, 48000, 16⟩
    ⟨some (), true, true, true⟩ rfl (by norm_num) ?_ hp
  intro input hinput
  rcases List.mem_append.mp hinput with hpacket | hwork
  · rw [List.eq_of_mem_replicate hpacket]
    trivial
  · rw [List.eq_of_mem_replicate hwork]
    trivial

/-! ## The delay -/

/-- The queue of frames is within its bound. -/
def Bounded (p : Pipeline ρ) : Prop := p.capture.queueOut.queue.length ≤ maxDelayCount + 1

/-- The next iteration of the worker completes a frame: there is a packet, it completes a
block, and what the resampler makes of the block completes a frame. -/
def Completes (convert : ρ → List UInt8 → Option (List UInt8) × ρ) (s : SystemAudioCapture ρ) :
    Prop :=
  ∃ data rest block ctx output, s.queueIn.queue = data :: rest ∧
    ((s.buffer.write data).read s.audioResampling.getSrcBufferSize).1 = some block ∧
    s.audioResampling.swrCtx = some ctx ∧ (convert ctx block).1 = some output ∧
    s.audioResampling.dstDataSize ≤ (s.audioResampling.memoryBuffer.write output).size

/-- The worker completes no frame while the queue holds more than `MAX_DELAY_COUNT`. -/
def KeepsUp (convert : ρ → List UInt8 → Option (List UInt8) × ρ) (p : Pipeline ρ) :
    Input ρ → Prop
  | .work => Completes convert p.capture → p.capture.queueOut.queue.length ≤ maxDelayCount
  | _ => True

theorem queueOut_work (s : SystemAudioCapture ρ) :
    (s.work convert).2.queueOut.queue = s.queueOut.queue ++ (s.work convert).1.frame.toList := by
  cases hqueue : s.queueIn.queue with
  | nil =>
      rw [work_of_nil hqueue]
      exact (List.append_nil _).symm
  | cons data rest =>
      cases hread : ((s.buffer.write data).read s.audioResampling.getSrcBufferSize).1 with
      | none =>
          rw [work_of_short hqueue hread]
          exact (List.append_nil _).symm
      | some block =>
          rw [work_of_block hqueue hread]
          exact queueOut_onResampled _

theorem isSome_frame_iff (s : SystemAudioCapture ρ) :
    (s.work convert).1.frame.isSome = true ↔ Completes convert s := by
  unfold Completes
  cases hqueue : s.queueIn.queue with
  | nil =>
      rw [work_of_nil hqueue]
      simp
  | cons data rest =>
      cases hread : ((s.buffer.write data).read s.audioResampling.getSrcBufferSize).1 with
      | none =>
          rw [work_of_short hqueue hread]
          simp [hread]
      | some block =>
          rw [work_of_block hqueue hread]
          cases hctx : s.audioResampling.swrCtx with
          | none =>
              rw [AudioResampling.execute_of_none hctx]
              simp
          | some ctx =>
              cases hconvert : convert ctx block with
              | mk output ctx' =>
                  cases output with
                  | none =>
                      rw [AudioResampling.execute_of_fails hctx hconvert]
                      simp [hread, hconvert]
                  | some output =>
                      rw [AudioResampling.execute_of_converts hctx hconvert]
                      dsimp only
                      rw [MemoryBuffer.isSome_read]
                      simp [hread, hconvert]

/-- Only the worker adds to the queue. -/
theorem bounded_step {p p' : Pipeline ρ} {input : Input ρ} (h : Bounded p)
    (hstep : step convert p input = some p') : Bounded p' ↔ KeepsUp convert p input := by
  cases input with
  | start channels sampleRate sampleSize frames device results =>
      obtain rfl := Option.some.inj hstep
      refine iff_of_true ?_ trivial
      cases device with
      | none => exact Nat.zero_le _
      | some format => exact Nat.zero_le _
  | stop =>
      obtain rfl := Option.some.inj hstep
      exact iff_of_true h trivial
  | packet data =>
      unfold step at hstep
      dsimp only at hstep
      split at hstep
      · cases hstep
      · obtain rfl := Option.some.inj hstep
        refine iff_of_true ?_ trivial
        unfold Bounded onSystemAudio
        dsimp only
        split
        · exact h
        · split
          · exact h
          · exact h
  | work =>
      obtain rfl := Option.some.inj hstep
      show (p.capture.work convert).2.queueOut.queue.length ≤ maxDelayCount + 1 ↔
        (Completes convert p.capture → p.capture.queueOut.queue.length ≤ maxDelayCount)
      unfold Bounded at h
      rw [queueOut_work, List.length_append, ← isSome_frame_iff]
      cases (p.capture.work convert).1.frame with
      | none => simpa using h
      | some frame =>
          simp only [Option.toList_some, List.length_singleton, Option.isSome_some, true_imp_iff]
          omega
  | getAudioData =>
      obtain rfl := Option.some.inj hstep
      refine iff_of_true ?_ trivial
      show p.capture.queueOut.pop.2.queue.length ≤ maxDelayCount + 1
      have hpop := congrArg List.length (ThreadQueue.pop_queue p.capture.queueOut)
      rw [List.length_append] at hpop
      unfold Bounded at h
      omega

/-- In every run the queue of frames is within its bound throughout if and only if the
worker never completes a frame while the queue holds more than `MAX_DELAY_COUNT`. -/
theorem delay_iff (convert : ρ → List UInt8 → Option (List UInt8) × ρ) (a : AudioResampling ρ)
    {inputs : List (Input ρ)} {p : Pipeline ρ}
    (hrun : (machine convert (fresh a)).run inputs = some p) :
    (machine convert (fresh a)).Throughout Bounded inputs ↔
      (machine convert (fresh a)).Always (KeepsUp convert) inputs := by
  refine Machine.throughout_iff_always (M := machine convert (fresh a)) (Nat.zero_le _) ?_ hrun
  intro inputs p input p' hp hthroughout _ hstep
  exact bounded_step (hthroughout.last hp) hstep

/-- Four packets of a block each are in the queue before the worker's first iteration, and
four frames after its fourth. -/
theorem not_bounded_lagging :
    let convert : Unit → List UInt8 → Option (List UInt8) × Unit := fun _ _ => (some [0, 0], ())
    let s : SystemAudioCapture Unit := fresh ⟨{}, 0, 0, 0, 0, 0, 0, 0, none⟩
    ∃ p, (machine convert s).run
        (.start 1 44100 2 1 (some ⟨1, 48000, 16⟩) ⟨some (), true, true, true⟩ ::
          (List.replicate 4 (.packet (some (List.replicate 2048 0))) ++
            List.replicate 4 .work)) = some p ∧
      ¬ Bounded p := by
  intro convert s
  obtain ⟨p, hp, hlength⟩ := frames_unbounded_blocks convert rfl 0 4
  refine ⟨p, hp, ?_⟩
  unfold Bounded
  rw [hlength]
  norm_num

/-- A packet of a block becomes a frame. -/
theorem delay_iff_frame :
    let convert : Unit → List UInt8 → Option (List UInt8) × Unit := fun _ _ => (some [0, 0], ())
    let a : AudioResampling Unit := ⟨{}, 0, 0, 0, 0, 0, 0, 0, none⟩
    let inputs : List (Input Unit) :=
      .start 1 44100 2 1 (some ⟨1, 48000, 16⟩) ⟨some (), true, true, true⟩ ::
        (List.replicate 1 (.packet (some (List.replicate 2048 7))) ++ List.replicate 1 .work)
    ∃ p, (machine convert (fresh a)).run inputs = some p ∧
      p.capture.queueOut.queue.length = 1 ∧
      ((machine convert (fresh a)).Throughout Bounded inputs ↔
        (machine convert (fresh a)).Always (KeepsUp convert) inputs) := by
  intro convert a inputs
  obtain ⟨p, hp, hlength⟩ := frames_unbounded_blocks convert rfl 7 1
  exact ⟨p, hp, hlength, delay_iff convert a hp⟩

end

end SystemAudioCapture

end RyuLib
