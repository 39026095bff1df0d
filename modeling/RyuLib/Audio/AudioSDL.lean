import RyuLib.Foundations.Machine
import RyuLib.Foundations.Memory
import RyuLib.Foundations.Slices
import RyuLib.Socket.Packet
import RyuLib.Thread.Scheduler

/-!
# AudioSDL

`play` collects what it is given in a `PacketReader` (the one of PacketReader.hpp) and
pushes it to a queue in frames of `frame_size_` bytes; the audio callback takes the frames
from the queue.  A byte is of an arbitrary type here: nothing looks into it.

* `AudioSDL.play_slices`: the frames pushed are the consecutive slices of what was played.

A `play` that does not fit into the reader's memory, or that finds no positive frame size
and so never leaves its loop, has no next state.
-/

namespace RyuLib

open Foundations

namespace AudioSDL

abbrev packetReaderBufferSize : ℕ := 1024 * 1024

/-- `buffer_` is `malloc`ed: what it holds at first is not specified. -/
structure PacketReader (α : Type*) where
  buffer : Block α
  size : ℕ := 0

namespace PacketReader

variable {α : Type*}

def write (r : PacketReader α) (data : List α) : PacketReader α :=
  { buffer := r.buffer.store r.size data, size := r.size + data.length }

def canRead (r : PacketReader α) (size : ℕ) : Bool := decide (r.size ≥ size)

/-- `none` is `nullptr`, otherwise the bytes copied into `data_`.  The copy that closes the
gap runs within `buffer_`, towards its front. -/
def read (r : PacketReader α) (size : ℕ) : Option (List α) × PacketReader α :=
  if r.canRead size = false then (none, r)
  else
    let rest := r.size - size
    (some (r.buffer.load 0 size),
      { buffer := if rest > 0 then r.buffer.copyWithin 0 size rest else r.buffer
        size := rest })

/-- The bytes written and not yet read. -/
def held (r : PacketReader α) : List α := r.buffer.load 0 r.size

@[simp] theorem length_held (r : PacketReader α) : r.held.length = r.size :=
  Block.length_load _ _ _

@[simp] theorem held_write (r : PacketReader α) (data : List α) :
    (r.write data).held = r.held ++ data := by
  have happend := Block.load_store_append r.buffer 0 r.size data
  rwa [Nat.zero_add] at happend

/-- A read takes the oldest bytes and closes the gap. -/
theorem read_eq {r : PacketReader α} {size : ℕ} (hle : size ≤ r.size) :
    (r.read size).1 = some (r.held.take size) ∧ (r.read size).2.size = r.size - size ∧
      (r.read size).2.held = r.held.drop size := by
  have hcan : ¬ r.canRead size = false := by simp [canRead, hle]
  rw [read, if_neg hcan]
  refine ⟨?_, rfl, ?_⟩
  · rw [held, Block.take_load, min_eq_left hle]
  · simp only [held]
    rw [Block.drop_load, Nat.zero_add]
    split
    · rw [Block.copyWithin_eq_store _ (Nat.zero_le size)]
      have hself := Block.load_store_self r.buffer 0 (r.buffer.load size (r.size - size))
      rwa [Block.length_load] at hself
    · rename_i hnone
      rw [Nat.eq_zero_of_not_pos hnone, Block.load_zero, Block.load_zero]

end PacketReader

end AudioSDL

/-- A `Memory` is the list of its bytes. -/
structure AudioSDL (α : Type*) where
  channels : ℤ := 0
  sampleRate : ℤ := 0
  fpb : ℤ := 0
  frameSize : ℤ := 0
  packetReader : AudioSDL.PacketReader α
  queue : ThreadQueue (List α) := {}

namespace AudioSDL

variable {α : Type*}

/-- All frames are popped and deleted. -/
def clearAudioBuffer (s : AudioSDL α) : AudioSDL α := { s with queue := {} }

/-- `opened` is whether `SDL_OpenAudio` succeeds; the fields are set in any case. -/
def open_ (s : AudioSDL α) (channels sampleRate fpb : ℤ) (opened : Bool) : Bool × AudioSDL α :=
  (opened,
    { s.clearAudioBuffer with
      channels := channels
      sampleRate := sampleRate
      fpb := fpb
      frameSize := toInt (fpb * channels * 4) })

def close (s : AudioSDL α) : AudioSDL α := s.clearAudioBuffer

/-- The body of the loop of `play`, and the frame it pushes. -/
def pushFrame (s : AudioSDL α) : List (List α) × AudioSDL α :=
  match s.packetReader.read s.frameSize.toNat with
  | (some data, reader) =>
      ([data], { s with packetReader := reader, queue := s.queue.push data })
  | (none, _) => ([], s)

/-- The loop of `play`, at most `passes` times round, with the frames it pushes. -/
def pushFrames : ℕ → AudioSDL α → List (List α) × AudioSDL α
  | 0, s => ([], s)
  | passes + 1, s =>
      if s.packetReader.canRead s.frameSize.toNat = true then
        let (frame, s') := s.pushFrame
        let (frames, s'') := pushFrames passes s'
        (frame ++ frames, s'')
      else ([], s)

/-- A pass takes at least a byte, so the loop ends within as many passes as there are
bytes. -/
def play (s : AudioSDL α) (data : List α) : Option (List (List α) × AudioSDL α) :=
  if 0 < s.frameSize ∧ s.packetReader.size + data.length ≤ packetReaderBufferSize then
    let reader := s.packetReader.write data
    some (pushFrames reader.size { s with packetReader := reader })
  else none

/-- The frame that is copied to the stream, or `none` for silence. -/
def audioCallback (s : AudioSDL α) : Option (List α) × AudioSDL α :=
  let (memory, queue) := s.queue.pop
  (memory, { s with queue := queue })

/-- The loop has cut the held bytes into frames, and less than a frame is left. -/
theorem pushFrames_spec {s : AudioSDL α} (hsize : 0 < s.frameSize) {passes : ℕ}
    (hpasses : s.packetReader.size ≤ passes) :
    let frames := (pushFrames passes s).1
    let s' := (pushFrames passes s).2
    Sliced s.frameSize.toNat s.packetReader.held frames s'.packetReader.held ∧
      s'.packetReader.size < s.frameSize.toNat ∧
      s'.queue.queue = s.queue.queue ++ frames ∧ s'.frameSize = s.frameSize := by
  have hpos : 0 < s.frameSize.toNat := by omega
  induction passes generalizing s with
  | zero =>
      refine ⟨Sliced.start _ _, ?_, ?_, rfl⟩
      · show s.packetReader.size < _
        omega
      · exact (List.append_nil _).symm
  | succ passes ih =>
      by_cases hcan : s.frameSize.toNat ≤ s.packetReader.size
      · obtain ⟨hdata, hrest, hheld⟩ := PacketReader.read_eq hcan
        -- one frame, and the rest by induction
        have hframe : s.pushFrame =
            ([s.packetReader.held.take s.frameSize.toNat],
              { s with
                packetReader := (s.packetReader.read s.frameSize.toNat).2
                queue := s.queue.push (s.packetReader.held.take s.frameSize.toNat) }) := by
          unfold pushFrame
          generalize s.packetReader.read s.frameSize.toNat = r at hdata
          obtain ⟨data, reader⟩ := r
          subst hdata
          rfl
        have hloop : pushFrames (passes + 1) s =
            (s.pushFrame.1 ++ (pushFrames passes s.pushFrame.2).1,
              (pushFrames passes s.pushFrame.2).2) := by
          rw [pushFrames, if_pos (by simp [PacketReader.canRead, hcan])]
        rw [hloop, hframe]
        dsimp only
        obtain ⟨hsliced, hshort, hqueue, hsame⟩ := ih (s := { s with
            packetReader := (s.packetReader.read s.frameSize.toNat).2
            queue := s.queue.push (s.packetReader.held.take s.frameSize.toNat) }) hsize
          (by dsimp only; omega) hpos
        dsimp only at hsliced hshort hqueue hsame
        rw [hheld] at hsliced
        refine ⟨⟨?_, ?_⟩, hshort, ?_, hsame⟩
        · rw [List.singleton_append, List.flatten_cons, List.append_assoc, hsliced.whole,
            List.take_append_drop]
        · intro frame hframe
          rcases List.mem_cons.mp hframe with rfl | hlater
          · rw [List.length_take, PacketReader.length_held, min_eq_left hcan]
          · exact hsliced.each frame hlater
        · rw [hqueue]
          exact List.append_assoc _ _ _
      · have hstop : pushFrames (passes + 1) s = ([], s) := by
          rw [pushFrames, if_neg (by simp [PacketReader.canRead]; omega)]
        rw [hstop]
        refine ⟨Sliced.start _ _, by dsimp only; omega, ?_, rfl⟩
        exact (List.append_nil _).symm

/-- What a `play` that returns has done. -/
theorem play_spec {s s' : AudioSDL α} {data : List α} {frames : List (List α)}
    (h : s.play data = some (frames, s')) :
    0 < s.frameSize ∧
      Sliced s.frameSize.toNat (s.packetReader.held ++ data) frames s'.packetReader.held ∧
      s'.packetReader.size < s.frameSize.toNat ∧
      s'.queue.queue = s.queue.queue ++ frames ∧ s'.frameSize = s.frameSize := by
  unfold play at h
  split at h
  · rename_i hguard
    rw [Option.some.injEq, Prod.mk.injEq] at h
    obtain ⟨rfl, rfl⟩ := h
    refine ⟨hguard.1, ?_⟩
    have hspec := pushFrames_spec (s := { s with packetReader := s.packetReader.write data })
      hguard.1 (le_refl _)
    dsimp only at hspec
    rwa [PacketReader.held_write] at hspec
  · cases h

/-! ## Runs -/

inductive Call (α : Type*)
  | open_ (channels sampleRate fpb : ℤ) (opened : Bool)
  | play (data : List α)
  | close
  | callback

/-- With the frames pushed to the queue, and those taken from it by the callback, since the
last `open`. -/
structure Session (α : Type*) where
  audio : AudioSDL α
  pushed : List (List α) := []
  delivered : List (List α) := []

def step (s : Session α) : Call α → Option (Session α)
  | .open_ channels sampleRate fpb opened =>
      some { audio := (s.audio.open_ channels sampleRate fpb opened).2 }
  | .play data =>
      (s.audio.play data).map fun (frames, audio) =>
        { s with audio := audio, pushed := s.pushed ++ frames }
  | .close => some { s with audio := s.audio.close }
  | .callback =>
      some { s with
        audio := s.audio.audioCallback.2
        delivered := s.delivered ++ s.audio.audioCallback.1.toList }

/-- A fresh object. -/
def machine (buffer : Block α) : Machine (Session α) (Call α) :=
  ⟨{ audio := { packetReader := { buffer := buffer } } }, step⟩

/-- The data of a `play` fits into what is left of the reader's memory. -/
def Fits (s : Session α) : Call α → Prop
  | .play data => s.audio.packetReader.size + data.length ≤ packetReaderBufferSize
  | _ => True

instance (s : Session α) : (call : Call α) → Decidable (Fits s call)
  | .play _ => inferInstanceAs (Decidable (_ ≤ _))
  | .open_ .. => inferInstanceAs (Decidable True)
  | .close => inferInstanceAs (Decidable True)
  | .callback => inferInstanceAs (Decidable True)

/-- What a call adds to the data played. -/
def Call.data : Call α → List α
  | .play data => data
  | _ => []

/-- A call between an `open` and the next one. -/
def Call.Inside : Call α → Prop
  | .play _ => True
  | .callback => True
  | _ => False

/-- The frames are the slices of what was played, and less than a frame is left. -/
structure Slicing (n : ℕ) (played : List α) (s : Session α) : Prop where
  frameSize : s.audio.frameSize = n
  sliced : Sliced n played s.pushed s.audio.packetReader.held
  short : s.audio.packetReader.size < n
  queue : s.delivered ++ s.audio.queue.queue = s.pushed

theorem Slicing.play {n : ℕ} {played data : List α} {s : Session α} (h : Slicing n played s)
    (hfits : Fits s (.play data)) :
    ∃ s', step s (.play data) = some s' ∧ Slicing n (played ++ data) s' := by
  have hframe := h.frameSize
  have hshort := h.short
  have hguard : 0 < s.audio.frameSize ∧
      s.audio.packetReader.size + data.length ≤ packetReaderBufferSize := ⟨by omega, hfits⟩
  obtain ⟨frames, audio, hplay⟩ : ∃ frames audio, s.audio.play data = some (frames, audio) :=
    ⟨_, _, if_pos hguard⟩
  obtain ⟨_, hsliced, hrest, hqueue, hsame⟩ := play_spec hplay
  rw [hframe, Int.toNat_natCast] at hsliced hrest
  refine ⟨{ s with audio := audio, pushed := s.pushed ++ frames }, ?_, ?_⟩
  · rw [step, hplay]
    rfl
  · refine ⟨hsame.trans hframe, (h.sliced.write data).trans hsliced, hrest, ?_⟩
    rw [hqueue, ← List.append_assoc, h.queue]

theorem Slicing.callback {n : ℕ} {played : List α} {s : Session α} (h : Slicing n played s) :
    ∃ s', step s .callback = some s' ∧ Slicing n played s' := by
  refine ⟨_, rfl, h.frameSize, h.sliced, h.short, ?_⟩
  show s.delivered ++ s.audio.queue.pop.1.toList ++ s.audio.queue.pop.2.queue = s.pushed
  rw [List.append_assoc, ThreadQueue.pop_queue, h.queue]

/-- `play` re-chunks without loss.  After an `open` with a positive frame size, and any
calls of `play` that fit and any callbacks, the frames pushed to the queue are the
consecutive slices of what was played, the callback has taken the first of them, and what
is in no slice, less than a frame, is in the reader. -/
theorem play_slices (buffer : Block α) (channels sampleRate fpb : ℤ) (opened : Bool)
    {calls : List (Call α)} (hcalls : ∀ call ∈ calls, call.Inside)
    (hsize : 0 < toInt (fpb * channels * 4))
    (hfits : (machine buffer).Always Fits (.open_ channels sampleRate fpb opened :: calls)) :
    let frameSize := (toInt (fpb * channels * 4)).toNat
    let played := (calls.map Call.data).flatten
    ∃ s, (machine buffer).run (.open_ channels sampleRate fpb opened :: calls) = some s ∧
      s.pushed = slices frameSize played ∧
      (∀ frame ∈ s.pushed, frame.length = frameSize) ∧
      s.delivered ++ s.audio.queue.queue = s.pushed ∧
      s.audio.packetReader.held = unsliced frameSize played ∧
      s.audio.packetReader.size < frameSize := by
  intro frameSize played
  suffices hrun : ∃ s,
      (machine buffer).run (.open_ channels sampleRate fpb opened :: calls) = some s ∧
        Slicing frameSize played s by
    obtain ⟨s, hs, hslicing⟩ := hrun
    obtain ⟨hpushed, hheld⟩ := hslicing.sliced.eq_slices
      (by rw [PacketReader.length_held]; exact hslicing.short)
    exact ⟨s, hs, hpushed, hslicing.sliced.each, hslicing.queue, hheld, hslicing.short⟩
  induction calls using List.reverseRecOn with
  | nil =>
      refine ⟨_, rfl, ?_, Sliced.start _ _, ?_, rfl⟩
      · exact (Int.toNat_of_nonneg hsize.le).symm
      · show 0 < (toInt (fpb * channels * 4)).toNat
        omega
  | append_singleton calls call ih =>
      rw [← List.cons_append] at hfits ⊢
      obtain ⟨hfront, hlast⟩ := (Machine.always_concat _ _).mp hfits
      obtain ⟨s, hs, hslicing⟩ := ih
        (fun c hc => hcalls c (List.mem_append_left _ hc)) hfront
      have hplayed : played = (calls.map Call.data).flatten ++ call.data := by
        simp [played]
      rw [hplayed]
      have hcall := hcalls call (List.mem_append_right _ (List.mem_singleton_self call))
      cases call with
      | open_ channels sampleRate fpb opened => exact hcall.elim
      | close => exact hcall.elim
      | play data =>
          obtain ⟨s', hstep, hslicing'⟩ := hslicing.play (hlast s hs)
          exact ⟨s', Machine.run_concat_eq_some.mpr ⟨s, hs, hstep⟩, hslicing'⟩
      | callback =>
          obtain ⟨s', hstep, hslicing'⟩ := hslicing.callback
          refine ⟨s', Machine.run_concat_eq_some.mpr ⟨s, hs, hstep⟩, ?_⟩
          show Slicing frameSize (_ ++ []) s'
          rwa [List.append_nil]

/-- Frames of four bytes: three are too few, five more make two. -/
theorem play_slices_two :
    let calls : List (Call UInt8) := [.play [1, 2, 3], .callback, .play [4, 5, 6, 7, 8]]
    let frameSize := (toInt (1 * 1 * 4)).toNat
    let played := (calls.map Call.data).flatten
    ∃ s, (machine fun _ => 0).run (.open_ 1 48000 1 true :: calls) = some s ∧
      s.pushed = slices frameSize played ∧
      (∀ frame ∈ s.pushed, frame.length = frameSize) ∧
      s.delivered ++ s.audio.queue.queue = s.pushed ∧
      s.audio.packetReader.held = unsliced frameSize played ∧
      s.audio.packetReader.size < frameSize := by
  apply play_slices
  · simp [Call.Inside]
  · decide
  · refine Machine.Always.cons trivial fun s hs => ?_
    obtain rfl := Option.some.inj hs
    refine Machine.Always.cons (by decide) fun s hs => ?_
    obtain rfl := Option.some.inj hs
    refine Machine.Always.cons trivial fun s hs => ?_
    obtain rfl := Option.some.inj hs
    exact Machine.Always.cons (by decide) fun _ _ => Machine.always_nil _

end AudioSDL

end RyuLib
