import RyuLib.Foundations.Machine
import RyuLib.Foundations.Memory
import RyuLib.Thread.Scheduler

/-!
# AudioOutput

`play` queues a copy of its data as one packet, whatever its size, and `playCallback`
copies the next packet to the output buffer, which has room for `buffer_size_` bytes; when
there is none it copies as many bytes of silence.  The callback does not compare the two
sizes.

* `AudioOutput.plays_iff`: the callbacks of a run fill their buffers exactly, with the data
  in its order, if and only if every packet they take has `buffer_size_` bytes.

The sizes given to the constructor are natural numbers, and the volume is 1.0, as it is
until `setVolume`: the loop that scales the samples is not entered.
-/

namespace RyuLib

open Foundations

/-- `new Memory(data, size)`, as the list of its bytes; `none` is `nullptr`. -/
def newMemory (data : Option (Block UInt8)) (size : ℤ) : List UInt8 :=
  match data with
  | none => []
  | some data => if size ≤ 0 then [] else data.load 0 size.toNat

structure AudioOutput where
  bufferSize : ℕ
  mute : List UInt8
  queue : ThreadQueue (List UInt8) := {}

namespace AudioOutput

/-- The constructor. -/
def new (channels smapleSize fpb : ℕ) : AudioOutput :=
  { bufferSize := smapleSize * fpb * channels
    mute := List.replicate (smapleSize * fpb * channels) 0 }

def play (s : AudioOutput) (data : Option (Block UInt8)) (size : ℤ) : AudioOutput :=
  { s with queue := s.queue.push (newMemory data size) }

/-- The bytes copied to the output buffer, and whether they are a packet. -/
def playCallback (s : AudioOutput) : List UInt8 × Bool × AudioOutput :=
  match s.queue.pop with
  | (some memory, queue) => (memory, true, { s with queue := queue })
  | (none, queue) => (s.mute, false, { s with queue := queue })

/-! ## Runs -/

/-- The callback is called with a buffer of unspecified content. -/
inductive Call
  | play (data : Option (Block UInt8)) (size : ℤ)
  | playCallback (outputBuffer : Block UInt8)

/-- With the data played, and what the buffers of the callbacks that took a packet held
afterwards. -/
structure Playback where
  output : AudioOutput
  played : List UInt8 := []
  heard : List UInt8 := []

def step (s : Playback) : Call → Option Playback
  | .play data size =>
      some { s with output := s.output.play data size, played := s.played ++ newMemory data size }
  | .playCallback outputBuffer =>
      let (copied, sound, output) := s.output.playCallback
      let buffer := (outputBuffer.store 0 copied).load 0 s.output.bufferSize
      some { s with output := output, heard := s.heard ++ if sound = true then buffer else [] }

def machine (channels smapleSize fpb : ℕ) : Machine Playback Call :=
  ⟨{ output := new channels smapleSize fpb }, step⟩

/-- A callback copies exactly as many bytes as its buffer has room for. -/
def FillsBuffer (s : Playback) : Call → Prop
  | .play _ _ => True
  | .playCallback _ => s.output.playCallback.1.length = s.output.bufferSize

/-- What is heard is what was played, in order. -/
def InOrder (s : Playback) : Prop := s.heard <+: s.played

/-- The packet that a callback takes, if there is one, has the size of the buffer. -/
def RightSize (s : Playback) : Call → Prop
  | .play _ _ => True
  | .playCallback _ => ∀ memory ∈ s.output.queue.queue.head?, memory.length = s.output.bufferSize

/-- The silence fills a buffer, and what was heard and what is queued was played. -/
structure Queued (s : Playback) : Prop where
  mute : s.output.mute.length = s.output.bufferSize
  whole : s.heard ++ s.output.queue.queue.flatten = s.played

theorem playCallback_of_nil {s : AudioOutput} (h : s.queue.queue = []) :
    s.playCallback = (s.mute, false, s) := by
  unfold playCallback ThreadQueue.pop
  rw [h]

theorem playCallback_of_cons {s : AudioOutput} {memory : List UInt8} {rest : List (List UInt8)}
    (h : s.queue.queue = memory :: rest) :
    s.playCallback = (memory, true, { s with queue := ⟨rest⟩ }) := by
  unfold playCallback ThreadQueue.pop
  rw [h]

theorem fillsBuffer_iff {s : Playback} (h : Queued s) (call : Call) :
    FillsBuffer s call ↔ RightSize s call := by
  cases call with
  | play data size => exact Iff.rfl
  | playCallback outputBuffer =>
      unfold FillsBuffer RightSize
      cases hqueue : s.output.queue.queue with
      | nil =>
          rw [playCallback_of_nil hqueue]
          exact iff_of_true h.mute (by simp)
      | cons memory rest =>
          rw [playCallback_of_cons hqueue]
          simp

theorem queued_step {s s' : Playback} {call : Call} (h : Queued s) (hright : RightSize s call)
    (hstep : step s call = some s') : Queued s' := by
  obtain ⟨hmute, hwhole⟩ := h
  cases call with
  | play data size =>
      obtain rfl := Option.some.inj hstep
      refine ⟨hmute, ?_⟩
      calc s.heard ++ (s.output.queue.queue ++ [newMemory data size]).flatten
          = s.heard ++ s.output.queue.queue.flatten ++ newMemory data size := by
            rw [List.flatten_append, List.flatten_singleton, List.append_assoc]
        _ = s.played ++ newMemory data size := by rw [hwhole]
  | playCallback outputBuffer =>
      cases hqueue : s.output.queue.queue with
      | nil =>
          rw [step, playCallback_of_nil hqueue] at hstep
          obtain rfl := Option.some.inj hstep
          refine ⟨hmute, ?_⟩
          show s.heard ++ [] ++ s.output.queue.queue.flatten = s.played
          rw [List.append_nil, hwhole]
      | cons memory rest =>
          have hlength : memory.length = s.output.bufferSize := hright memory (by simp [hqueue])
          rw [hqueue] at hwhole
          rw [step, playCallback_of_cons hqueue] at hstep
          obtain rfl := Option.some.inj hstep
          refine ⟨hmute, ?_⟩
          -- the packet fills the buffer, so that the buffer holds it and nothing else
          calc s.heard ++ (outputBuffer.store 0 memory).load 0 s.output.bufferSize ++ rest.flatten
              = s.heard ++ memory ++ rest.flatten := by
                rw [← hlength, Block.load_store_self]
            _ = s.heard ++ (memory :: rest).flatten := by
                rw [List.flatten_cons, List.append_assoc]
            _ = s.played := hwhole

/-- In every run all callbacks fill their buffers exactly, and what is heard without the
silence is at any time a prefix of what was played, if and only if every packet that a
callback takes has the size of the buffer. -/
theorem plays_iff (channels smapleSize fpb : ℕ) {calls : List Call} {s : Playback}
    (hrun : (machine channels smapleSize fpb).run calls = some s) :
    (machine channels smapleSize fpb).Throughout InOrder calls ∧
        (machine channels smapleSize fpb).Always FillsBuffer calls ↔
      (machine channels smapleSize fpb).Always RightSize calls := by
  have hqueued : ∀ calls s, (machine channels smapleSize fpb).run calls = some s →
      (machine channels smapleSize fpb).Always RightSize calls → Queued s := by
    refine Machine.run_induction ?_ ?_
    · intro _
      exact ⟨List.length_replicate, rfl⟩
    · intro calls s call s' hs ih hstep hright
      obtain ⟨hbefore, hlast⟩ := (Machine.always_concat _ _).mp hright
      exact queued_step (ih hbefore) (hlast s hs) hstep
  refine Machine.throughout_and_always_iff (M := machine channels smapleSize fpb)
    List.nil_prefix ?_ hrun
  intro calls s call s' hs _ hright hstep
  have hbefore := hqueued calls s hs hright
  constructor
  · rintro ⟨_, hfills⟩
    exact (fillsBuffer_iff hbefore call).mp hfills
  · intro hsize
    have hafter := queued_step hbefore hsize hstep
    exact ⟨⟨_, hafter.whole⟩, (fillsBuffer_iff hbefore call).mpr hsize⟩

/-- Two packets of the buffer's size, and an underrun. -/
theorem plays_iff_equal :
    let calls : List Call :=
      [.play (some fun _ => 7) 8, .playCallback fun _ => 0, .playCallback fun _ => 0]
    (machine 1 4 2).Throughout InOrder calls ∧ (machine 1 4 2).Always FillsBuffer calls ↔
      (machine 1 4 2).Always RightSize calls :=
  plays_iff 1 4 2 rfl

/-- A packet of four bytes for a buffer of eight, and one of twelve. -/
theorem not_plays_short_and_long :
    (∃ s, (machine 1 4 2).run [.play (some fun _ => 7) 4] = some s ∧
        ¬ FillsBuffer s (.playCallback fun _ => 0)) ∧
      ∃ s, (machine 1 4 2).run [.play (some fun _ => 7) 12] = some s ∧
        ¬ FillsBuffer s (.playCallback fun _ => 0) := by
  refine ⟨⟨_, rfl, ?_⟩, _, rfl, ?_⟩
  · show ¬ 4 = 8
    decide
  · show ¬ 12 = 8
    decide

end AudioOutput

end RyuLib
