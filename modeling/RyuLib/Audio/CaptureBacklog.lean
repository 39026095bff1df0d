import RyuLib.Audio.SystemAudioCapture

/-!
# What is left in the buffers of SystemAudioCapture

An iteration of the worker writes one packet to `buffer_` and reads at most one source block
from it; an execution of the resampler writes what came of the block to `memory_buffer_` and
reads at most one frame.  What a packet has beyond one block, or an output beyond one frame,
stays behind, and nothing ever takes it out again.

Each stage ends an iteration with less than a block exactly when it began it with less and
the two together are less than two blocks (`SystemAudioCapture.noBacklog_iff`).
-/

namespace RyuLib

open Foundations

/-- What is stored is less than two blocks, and less than an `int` counts if it is a block. -/
def UnderTwo (n stored : ℕ) : Prop := stored < 2 * n ∧ (n ≤ stored → stored < 2 ^ 31)

/-- What a read leaves that returns a block. -/
theorem underTwo_of_counted {n stored : ℕ} (hle : n ≤ stored) (hcounted : n ≤ toInt stored) :
    UnderTwo n stored ↔ stored - n < n := by
  have hint := toInt_lt stored
  constructor
  · rintro ⟨htwo, -⟩
    omega
  · intro hleft
    refine ⟨by omega, fun _ => ?_⟩
    by_contra hmore
    have hwraps := toInt_le_sub (n := stored) (by omega)
    omega

/-- What a read leaves that returns none. -/
theorem underTwo_of_not_counted {n stored : ℕ} (hn : 0 < n) (hnot : toInt stored < n) :
    UnderTwo n stored ↔ stored < n := by
  constructor
  · rintro ⟨-, hfits⟩
    by_contra hmore
    have hint := toInt_of_lt (n := stored) (by omega) (by have := hfits (by omega); omega)
    omega
  · intro hshort
    exact ⟨by omega, fun hle => by omega⟩

/-- A write and one read leave less than a block exactly when less than two were stored. -/
theorem MemoryBuffer.Represents.write_read {m : MemoryBuffer} {rest : List UInt8}
    (h : MemoryBuffer.Represents m rest) {n : ℕ} (hn : 0 < n) (data : List UInt8) :
    ∃ rest', MemoryBuffer.Represents ((m.write data).read n).2 rest' ∧
      (rest'.length < n ↔ UnderTwo n (rest ++ data).length) := by
  have hwritten := h.write data
  have hsize := hwritten.size
  rcases hwritten.read_cases hn with ⟨hnot, hnull⟩ | ⟨hcounted, hle, -, hafter⟩
  · rw [hnull]
    rw [hsize] at hnot
    exact ⟨rest ++ data, hwritten, (underTwo_of_not_counted hn hnot).symm⟩
  · rw [hsize] at hcounted
    refine ⟨_, hafter, ?_⟩
    rw [List.length_drop, underTwo_of_counted hle hcounted]

namespace SystemAudioCapture

variable {ρ : Type*}

/-- The iteration leaves less than a source block in `buffer_`, and an execution of the
resampler less than a frame in `memory_buffer_`. -/
def NoBacklog (convert : ρ → List UInt8 → Option (List UInt8) × ρ) (p : Pipeline ρ) :
    Input ρ → Prop
  | .work =>
      let (worked, s) := p.capture.work convert
      s.buffer.unread.length < s.audioResampling.getSrcBufferSize ∧
        (worked.block.isSome = true →
          s.audioResampling.memoryBuffer.unread.length < s.audioResampling.dstDataSize)
  | _ => True

/-- The sizes are positive, and neither what is in `buffer_` with the next packet, nor what is
in `memory_buffer_` with what the resampler makes of the next block, reaches two blocks, or a
block and more than an `int` counts. -/
def Fits (convert : ρ → List UInt8 → Option (List UInt8) × ρ) (p : Pipeline ρ) :
    Input ρ → Prop
  | .work =>
      let a := p.capture.audioResampling
      0 < a.getSrcBufferSize ∧
        ∀ data ∈ p.capture.queueIn.queue.head?,
          let stored := p.capture.buffer.unread ++ data
          UnderTwo a.getSrcBufferSize stored.length ∧
            (a.getSrcBufferSize ≤ stored.length →
              0 < a.dstDataSize ∧
                ∀ ctx ∈ a.swrCtx, ∀ output ∈ (convert ctx (stored.take a.getSrcBufferSize)).1,
                  UnderTwo a.dstDataSize (a.memoryBuffer.unread ++ output).length)
  | _ => True

/-- The buffer holds less than `n` unread bytes, or none. -/
def Slack (m : MemoryBuffer) (n : ℕ) : Prop :=
  ∃ rest, MemoryBuffer.Represents m rest ∧ (rest = [] ∨ rest.length < n)

/-- Both stages have slack. -/
structure Slacks (s : SystemAudioCapture ρ) : Prop where
  source : Slack s.buffer s.audioResampling.getSrcBufferSize
  target : Slack s.audioResampling.memoryBuffer s.audioResampling.dstDataSize

theorem slack_clear (m : MemoryBuffer) (n : ℕ) : Slack m.clear n :=
  ⟨[], MemoryBuffer.represents_clear m, Or.inl rfl⟩

section

variable {convert : ρ → List UInt8 → Option (List UInt8) × ρ}

/-! ## One execution of the resampler -/

variable (convert) in
/-- What an execution leaves in `memory_buffer_`. -/
theorem execute_backlog {a : AudioResampling ρ} {rest : List UInt8}
    (hrest : MemoryBuffer.Represents a.memoryBuffer rest)
    (hslack : rest = [] ∨ rest.length < a.dstDataSize) (hpos : 0 < a.dstDataSize)
    (data : List UInt8) :
    ∃ rest', MemoryBuffer.Represents (a.execute convert data).2.2.memoryBuffer rest' ∧
      (rest'.length < a.dstDataSize ↔
        ∀ ctx ∈ a.swrCtx, ∀ output ∈ (convert ctx data).1,
          UnderTwo a.dstDataSize (rest ++ output).length) := by
  have hlength : rest.length < a.dstDataSize := by
    rcases hslack with rfl | hlength
    · exact hpos
    · exact hlength
  cases hctx : a.swrCtx with
  | none =>
      rw [AudioResampling.execute_of_none hctx]
      exact ⟨rest, hrest, iff_of_true hlength (by simp)⟩
  | some ctx =>
      cases hconvert : convert ctx data with
      | mk output ctx' =>
          cases output with
          | none =>
              rw [AudioResampling.execute_of_fails hctx hconvert]
              exact ⟨rest, hrest, iff_of_true hlength (by simp [hconvert])⟩
          | some output =>
              rw [AudioResampling.execute_of_converts hctx hconvert]
              obtain ⟨rest', hrest', hiff⟩ := hrest.write_read hpos output
              refine ⟨rest', hrest', hiff.trans ?_⟩
              simp [hconvert]

variable (convert) in
/-- What an execution of the resampler leaves, and what it needs to leave less than a frame. -/
theorem execute_fits {a : AudioResampling ρ} (htarget : Slack a.memoryBuffer a.dstDataSize)
    (block : List UInt8) :
    let a' := (a.execute convert block).2.2
    (a'.memoryBuffer.unread.length < a'.dstDataSize ↔
        0 < a.dstDataSize ∧ ∀ ctx ∈ a.swrCtx, ∀ output ∈ (convert ctx block).1,
          UnderTwo a.dstDataSize (a.memoryBuffer.unread ++ output).length) ∧
      (a'.memoryBuffer.unread.length < a'.dstDataSize → Slack a'.memoryBuffer a'.dstDataSize) := by
  intro a'
  have hsize : a'.dstDataSize = a.dstDataSize := (AudioResampling.execute_keeps convert block).2.1
  rw [hsize]
  rcases Nat.eq_zero_or_pos a.dstDataSize with hzero | hpos
  · rw [hzero]
    exact ⟨iff_of_false (Nat.not_lt_zero _) fun h => Nat.not_lt_zero 0 h.1,
      fun h => absurd h (Nat.not_lt_zero _)⟩
  · obtain ⟨rest, hrest, hslack⟩ := htarget
    obtain ⟨rest', hrest', hiff⟩ := execute_backlog convert hrest hslack hpos block
    rw [hrest.unread, hrest'.unread, hiff]
    refine ⟨⟨fun h => ⟨hpos, h⟩, fun h => h.2⟩, fun h => ?_⟩
    exact ⟨rest', hrest', Or.inr (hiff.mpr h)⟩

/-! ## One iteration of the worker -/

/-- The packet does not complete a block. -/
theorem work_short {s : SystemAudioCapture ρ} {data : List UInt8} {queued : List (List UInt8)}
    (hqueue : s.queueIn.queue = data :: queued)
    (hread : (s.buffer.write data).read s.audioResampling.getSrcBufferSize =
      (none, s.buffer.write data)) :
    s.work convert = ({}, { s with queueIn := ⟨queued⟩, buffer := s.buffer.write data }) := by
  rw [work_of_short hqueue (congrArg Prod.fst hread), hread]

variable (convert) in
/-- The packet completes a block. -/
theorem work_block {s : SystemAudioCapture ρ} {data block : List UInt8}
    {queued : List (List UInt8)} (hqueue : s.queueIn.queue = data :: queued)
    (hread : ((s.buffer.write data).read s.audioResampling.getSrcBufferSize).1 = some block) :
    let w := s.work convert
    w.2.buffer = ((s.buffer.write data).read s.audioResampling.getSrcBufferSize).2 ∧
      w.1.block = some block ∧
      w.2.audioResampling = (s.audioResampling.execute convert block).2.2 := by
  rw [work_of_block hqueue hread]
  obtain ⟨-, hbuffer, hresampling, -⟩ := onResampled_frame (s := { s with
    queueIn := ⟨queued⟩
    buffer := ((s.buffer.write data).read s.audioResampling.getSrcBufferSize).2
    audioResampling := (s.audioResampling.execute convert block).2.2 })
    (s.audioResampling.execute convert block).2.1
  exact ⟨hbuffer, rfl, hresampling⟩

/-- What an iteration of the worker leaves, and what it needs to leave less than a block. -/
theorem noBacklog_work_iff {p : Pipeline ρ} (h : Slacks p.capture)
    (hpos : 0 < p.capture.audioResampling.getSrcBufferSize) :
    (NoBacklog convert p .work ↔ Fits convert p .work) ∧
      (NoBacklog convert p .work → Slacks (p.capture.work convert).2) := by
  obtain ⟨⟨rest, hrest, hslack⟩, htarget⟩ := h
  have hlength : rest.length < p.capture.audioResampling.getSrcBufferSize := by
    rcases hslack with rfl | hlength
    · exact hpos
    · exact hlength
  unfold NoBacklog Fits
  dsimp only
  rw [hrest.unread]
  cases hqueue : p.capture.queueIn.queue with
  | nil =>
      rw [work_of_nil hqueue, hrest.unread]
      refine ⟨iff_of_true ⟨hlength, by simp⟩ ⟨hpos, by simp⟩, fun _ => ?_⟩
      exact ⟨⟨rest, hrest, hslack⟩, htarget⟩
  | cons data queued =>
      simp only [List.head?_cons, Option.mem_some_iff, forall_eq']
      have hstored := hrest.write data
      have hsize := hstored.size
      rcases hstored.read_cases hpos with ⟨hnot, hnull⟩ | ⟨hcounted, hle, hread, hafter⟩
      · rw [hsize] at hnot
        rw [work_short hqueue hnull, hstored.unread, underTwo_of_not_counted hpos hnot]
        have hnone : (rest ++ data).length < p.capture.audioResampling.getSrcBufferSize →
            ¬ p.capture.audioResampling.getSrcBufferSize ≤ (rest ++ data).length := Nat.not_le.mpr
        constructor
        · constructor
          · rintro ⟨hshort, -⟩
            exact ⟨hpos, hshort, fun hle => absurd hle (hnone hshort)⟩
          · rintro ⟨-, hshort, -⟩
            exact ⟨hshort, by simp⟩
        · rintro ⟨hshort, -⟩
          exact ⟨⟨_, hstored, Or.inr hshort⟩, htarget⟩
      · rw [hsize] at hcounted
        obtain ⟨hbuffer, hblock, hresampling⟩ := work_block convert hqueue hread
        rw [← hbuffer] at hafter
        obtain ⟨hexecuted, hslack'⟩ := execute_fits convert htarget
          ((rest ++ data).take p.capture.audioResampling.getSrcBufferSize)
        have hkept := (AudioResampling.execute_keeps convert (a := p.capture.audioResampling)
          ((rest ++ data).take p.capture.audioResampling.getSrcBufferSize)).1
        rw [hblock, hafter.unread, hresampling, hexecuted, hkept, List.length_drop,
          underTwo_of_counted hle hcounted]
        constructor
        · simp only [Option.isSome_some, forall_const, hpos, hle, true_and]
        · rintro ⟨hsource, hframe⟩
          refine ⟨?_, ?_⟩
          · rw [hresampling, hkept]
            exact ⟨_, hafter, Or.inr (by rwa [List.length_drop])⟩
          · rw [hresampling]
            exact hslack' (hexecuted.mpr (hframe rfl))

/-! ## Whole runs -/

/-- A packet goes to `queue_in_` and nowhere else. -/
theorem onSystemAudio_keeps (s : SystemAudioCapture ρ) (data : Option (List UInt8)) :
    (s.onSystemAudio data).buffer = s.buffer ∧
      (s.onSystemAudio data).audioResampling = s.audioResampling := by
  cases data with
  | none => exact ⟨rfl, rfl⟩
  | some data =>
      unfold onSystemAudio
      dsimp only
      split
      · exact ⟨rfl, rfl⟩
      · exact ⟨rfl, rfl⟩

theorem noBacklog_iff_fits {p : Pipeline ρ} (h : Slacks p.capture) (input : Input ρ) :
    NoBacklog convert p input ↔ Fits convert p input := by
  cases input with
  | work =>
      rcases Nat.eq_zero_or_pos p.capture.audioResampling.getSrcBufferSize with hzero | hpos
      · -- without a block size there is nothing less than a block
        refine iff_of_false (fun hless => ?_) fun hfits => ?_
        · have hnone : (p.capture.work convert).2.buffer.unread.length <
              (p.capture.work convert).2.audioResampling.getSrcBufferSize := hless.1
          rw [(audioResampling_work convert _).1, hzero] at hnone
          exact Nat.not_lt_zero _ hnone
        · exact absurd hfits.1 (by rw [hzero]; exact Nat.lt_irrefl 0)
      · exact (noBacklog_work_iff h hpos).1
  | _ => exact Iff.rfl

theorem Slacks.step {p p' : Pipeline ρ} {input : Input ρ} (h : Slacks p.capture)
    (hfits : Fits convert p input) (hstep : SystemAudioCapture.step convert p input = some p') :
    Slacks p'.capture := by
  cases input with
  | start channels sampleRate sampleSize frames device results =>
      cases hstep
      cases device with
      | none => exact ⟨slack_clear p.capture.buffer _, h.target⟩
      | some format =>
          obtain ⟨-, -, hmemory⟩ := AudioResampling.open_spec p.capture.audioResampling
            format.channels format.samples (format.bitsPerSample / 8) channels sampleRate
            sampleSize frames results
          have htarget := slack_clear p.capture.audioResampling.memoryBuffer
            (p.capture.audioResampling.open_ format.channels format.samples
              (format.bitsPerSample / 8) channels sampleRate sampleSize frames
              results).2.dstDataSize
          rw [← hmemory] at htarget
          exact ⟨slack_clear p.capture.buffer _, htarget⟩
  | stop =>
      cases hstep
      exact ⟨h.source, h.target⟩
  | packet data =>
      rw [SystemAudioCapture.step] at hstep
      split at hstep
      · cases hstep
      · cases hstep
        obtain ⟨hbuffer, hresampling⟩ := onSystemAudio_keeps p.capture data
        exact ⟨by rw [hbuffer, hresampling]; exact h.source, by rw [hresampling]; exact h.target⟩
  | work =>
      cases hstep
      exact (noBacklog_work_iff h hfits.1).2 ((noBacklog_iff_fits h .work).mpr hfits)
  | getAudioData =>
      cases hstep
      exact ⟨h.source, h.target⟩

end

/-- In every run each iteration leaves less than a source block in `buffer_` and each execution
less than a frame in `memory_buffer_`, if and only if at every iteration the sizes are positive,
what is stored with the packet is less than two blocks, and what is stored with what the
resampler makes of the block is less than two frames, and where a block or a frame is stored an
`int` counts it. -/
theorem noBacklog_iff (convert : ρ → List UInt8 → Option (List UInt8) × ρ) (a : AudioResampling ρ)
    {inputs : List (Input ρ)} {p : Pipeline ρ}
    (hrun : (machine convert (fresh a)).run inputs = some p) :
    (machine convert (fresh a)).Always (NoBacklog convert) inputs ↔
      (machine convert (fresh a)).Always (Fits convert) inputs := by
  refine Machine.always_iff_always (M := machine convert (fresh a))
    (I := fun p => Slacks p.capture) ?_ ?_ ?_ hrun
  · exact ⟨⟨[], MemoryBuffer.represents_new, Or.inl rfl⟩,
      ⟨[], MemoryBuffer.represents_new, Or.inl rfl⟩⟩
  · intro p input h
    exact noBacklog_iff_fits h input
  · intro p input p' h hfits hstep
    exact h.step hfits hstep

/-- A packet completes a block, and its output a frame. -/
theorem noBacklog_iff_frame :
    let convert : Unit → List UInt8 → Option (List UInt8) × Unit := fun _ _ => (some [0, 0], ())
    let a : AudioResampling Unit := ⟨{}, 0, 0, 0, 0, 0, 0, 0, none⟩
    let inputs : List (Input Unit) :=
      .start 1 44100 2 1 (some ⟨1, 48000, 16⟩) ⟨some (), true, true, true⟩ ::
        (List.replicate 1 (.packet (some (List.replicate 2048 7))) ++ List.replicate 1 .work)
    ∃ p, (machine convert (fresh a)).run inputs = some p ∧
      p.capture.queueOut.queue.length = 1 ∧
      ((machine convert (fresh a)).Always (NoBacklog convert) inputs ↔
        (machine convert (fresh a)).Always (Fits convert) inputs) := by
  intro convert a inputs
  obtain ⟨p, hp, hlength⟩ := frames_unbounded_blocks convert rfl 7 1
  exact ⟨p, hp, hlength, noBacklog_iff convert a hp⟩

/-- One channel of 16 bits makes source blocks of 2048 bytes, and the first packet has three of
them: two are left in `buffer_`. -/
theorem leaves_two_blocks :
    let convert : ℕ → List UInt8 → Option (List UInt8) × ℕ := fun n block => (some block, n)
    let inputs : List (Input ℕ) :=
      [.start 1 44100 2 1 (some ⟨1, 48000, 16⟩) ⟨some 0, true, true, true⟩,
        .packet (some (List.replicate 6144 0)), .work]
    ¬ (machine convert (fresh ⟨{}, 0, 0, 0, 0, 0, 0, 0, none⟩)).Always (NoBacklog convert)
      inputs := by
  intro convert inputs hless
  obtain ⟨p, hp, hqueue, hbuffer, hsize⟩ :
      ∃ p, (machine convert (fresh ⟨{}, 0, 0, 0, 0, 0, 0, 0, none⟩)).run (inputs.take 2) = some p ∧
        p.capture.queueIn.queue = [List.replicate 6144 0] ∧ p.capture.buffer = {} ∧
        p.capture.audioResampling.getSrcBufferSize = 1024 * 1 * 2 := ⟨_, rfl, rfl, rfl, rfl⟩
  have hempty : MemoryBuffer.Represents p.capture.buffer [] := hbuffer ▸ MemoryBuffer.represents_new
  obtain ⟨hread, hafter⟩ := (hempty.write (List.replicate 6144 0)).read_enough
    (by rw [List.nil_append, List.length_replicate]; decide)
    (by decide : 0 < 1024 * 1 * 2) (by rw [List.nil_append, List.length_replicate]; decide)
  rw [← hsize] at hread hafter
  obtain ⟨hleft, -, -⟩ := work_block convert hqueue hread
  have hsmall : (p.capture.work convert).2.buffer.unread.length <
      (p.capture.work convert).2.audioResampling.getSrcBufferSize :=
    (hless (inputs.take 2) .work [] rfl p hp).1
  rw [hleft, hafter.unread, (audioResampling_work convert _).1, hsize, List.nil_append,
    List.length_drop, List.length_replicate] at hsmall
  exact absurd hsmall (by decide)

end SystemAudioCapture

end RyuLib
