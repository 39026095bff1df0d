import RyuLib.Foundations.Stages
import RyuLib.Audio.AudioCapture
import RyuLib.Audio.AudioDecoder

/-!
# From AudioZip to AudioUnZip

The microphone's callback queues what it captures for a thread that encodes it, the application
takes the packets to the other side, where `play` queues them for a thread that decodes them and
queues the sound for the callback of the speaker.  Each of them works when it gets to it, the
network may lose packets, and `play` and `skip` discard what has come too late.

* `AudioZip.heard_of_run`: what is heard is decoded, in order, of packets that were encoded in
  order of what was captured.
* `AudioZip.heard_prefix_of_run`: where nothing is lost, it does not depend on who works when.

What Opus makes of the samples is a parameter.
-/

namespace RyuLib

open Foundations

namespace AudioZip

abbrev sampleRate : ℕ := 48000

abbrev sampleSize : ℕ := 4

abbrev framesPerBuffer : ℕ := 5760

/-- `opus_encode_float` on the bytes that it reads, and `opus_decode_float`, with the bytes of
the samples that it makes.  A packet or sound is empty where they fail, as `Memory` makes it of a
negative size. -/
structure Opus (ε δ : Type*) where
  encoder : Stage ε (List UInt8) (List UInt8)
  decoder : Stage δ (List UInt8) (List UInt8)

/-- The option that `AudioZip::start` makes; it does not say how many channels. -/
def option (deviceId : ℤ) : AudioCaptureOption :=
  { micDeviceId := deviceId, sampleRate := sampleRate, frames := framesPerBuffer }

/-- How many bytes `opus_encode_float` reads, with the channels of the constructor. -/
def readSize (channels : ℕ) : ℕ := framesPerBuffer * channels * sampleSize

variable {ε δ : Type*}

/-- The thread of `AudioEncoder` on a memory that is long enough. -/
def encoderStage (opus : Opus ε δ) (channels : ℕ) : Stage ε (List UInt8) (List UInt8) where
  init := opus.encoder.init
  step state memory := opus.encoder.step state (memory.take (readSize channels))

/-- `AudioOutput::skip` on the queue: what is deleted, and the queue after it. -/
def skip : ℕ → ThreadQueue (List UInt8) → List (List UInt8) × ThreadQueue (List UInt8)
  | 0, queue => ([], queue)
  | count + 1, queue =>
      match queue.pop with
      | (some memory, queue) =>
          let (deleted, queue) := skip count queue
          (memory :: deleted, queue)
      | (none, queue) => ([], queue)

/-- An `AudioZip`, the link to an `AudioUnZip`, and that one.  `gone` are the sounds that have left
the queue of the speaker, with `true` those that were played. -/
structure Voice (ε δ : Type*) where
  captured : List (List UInt8) := []
  encoder : Worker ε (List UInt8) (List UInt8)
  link : Backlog (List UInt8) := {}
  decoder : Worker δ (List UInt8) (List UInt8)
  output : AudioOutput
  gone : List (List UInt8 × Bool) := []
  heard : List (List UInt8) := []

inductive Call
  | capture (buffer : Block UInt8)
  | encode
  | transmit
  | lose (n : ℕ)
  | decode
  | playCallback
  | skip (count : ℤ)

/-- The samples are read behind the end of a memory that is too short. -/
def encode (opus : Opus ε δ) (channels : ℕ) (s : Voice ε δ) : Option (Voice ε δ) :=
  match s.encoder.backlog.queue with
  | [] => none
  | memory :: _ =>
      if readSize channels ≤ memory.length then
        (s.encoder.work (encoderStage opus channels)).map fun (encoder, packet) =>
          { s with encoder := encoder, link := s.link.add packet }
      else none

/-- `AudioUnZip::play`. -/
def play (s : Voice ε δ) (data : Block UInt8) (size : ℤ) : Option (Voice ε δ) :=
  (AudioDecoder.step s.decoder.backlog (.add (some data) size)).map fun backlog =>
    { s with decoder := { s.decoder with backlog := backlog } }

def step (opus : Opus ε δ) (channels : ℕ) (s : Voice ε δ) : Call → Option (Voice ε δ)
  | .capture buffer =>
      let memory := newMemory (some buffer) (option (-1)).getFrameSize
      some { s with captured := s.captured ++ [memory], encoder := s.encoder.put memory }
  | .encode => encode opus channels s
  | .transmit =>
      match s.link.queue with
      | [] => none
      | packet :: _ =>
          play { s with link := s.link.leave 1 true } (Block.ofList 0 packet) packet.length
  | .lose n => some { s with link := s.link.leave n false }
  | .decode =>
      (s.decoder.work opus.decoder).map fun (decoder, sound) =>
        { s with
          decoder := decoder
          output := s.output.play (some (Block.ofList 0 sound)) sound.length }
  | .playCallback =>
      let (copied, sound, output) := s.output.playCallback
      some { s with
        output := output
        gone := s.gone ++ if sound then [(copied, true)] else []
        heard := s.heard ++ if sound then [copied] else [] }
  | .skip count =>
      let (deleted, queue) := skip count.toNat s.output.queue
      some { s with
        output := { s.output with queue := queue }
        gone := s.gone ++ deleted.map (·, false) }

def machine (opus : Opus ε δ) (channels : ℕ) : Machine (Voice ε δ) Call where
  init :=
    { encoder := { state := opus.encoder.init }
      decoder := { state := opus.decoder.init }
      output := AudioOutput.new channels sampleSize framesPerBuffer }
  step := step opus channels

/-- The queue of the speaker. -/
def outlet (s : Voice ε δ) : Backlog (List UInt8) :=
  { queue := s.output.queue.queue, added := s.decoder.out, gone := s.gone }

variable {opus : Opus ε δ} {channels : ℕ} {s s' : Voice ε δ} {calls : List Call}

/-! ## Who has what -/

/-- Every queue holds what was put into it and has not left it. -/
structure Sound (opus : Opus ε δ) (channels : ℕ) (s : Voice ε δ) : Prop where
  encoder : s.encoder.Sound (encoderStage opus channels)
  everything : s.encoder.backlog.Lossless
  captured : s.encoder.backlog.added = s.captured
  link : s.link.Accounted
  encoded : s.link.added = s.encoder.out
  decoder : s.decoder.Sound opus.decoder
  transmitted : s.decoder.backlog.added = s.link.received
  bounded : s.decoder.backlog.queue.length ≤ AudioDecoder.maxDelayLimitCount + 1
  outlet : (outlet s).Accounted
  heard : s.heard = (AudioZip.outlet s).received

theorem newMemory_ofList (bytes : List UInt8) :
    newMemory (some (Block.ofList 0 bytes)) bytes.length = bytes := by
  cases bytes with
  | nil => rfl
  | cons byte bytes =>
      have hpos : ¬ ((byte :: bytes).length : ℤ) ≤ 0 := by
        rw [List.length_cons]
        omega
      rw [newMemory, if_neg hpos, Int.toNat_natCast, Block.load_ofList]

theorem skip_eq (count : ℕ) (queue : ThreadQueue (List UInt8)) :
    skip count queue = (queue.queue.take count, ⟨queue.queue.drop count⟩) := by
  induction count generalizing queue with
  | zero => rfl
  | succ count ih =>
      rcases queue with ⟨_ | ⟨memory, rest⟩⟩
      · rfl
      · simp [skip, ThreadQueue.pop, ih]

theorem encode_eq_some (h : encode opus channels s = some s') :
    ∃ encoder packet, s.encoder.work (encoderStage opus channels) = some (encoder, packet) ∧
      s' = { s with encoder := encoder, link := s.link.add packet } := by
  rw [encode] at h
  split at h
  · cases h
  · split_ifs at h
    obtain ⟨⟨encoder, packet⟩, hwork, rfl⟩ := Option.map_eq_some_iff.mp h
    exact ⟨encoder, packet, hwork, rfl⟩

theorem encode_of_le {memory : List UInt8} {rest : List (List UInt8)}
    (hqueue : s.encoder.backlog.queue = memory :: rest)
    (hfits : readSize channels ≤ memory.length) :
    encode opus channels s = (s.encoder.work (encoderStage opus channels)).map
      fun (encoder, packet) => { s with encoder := encoder, link := s.link.add packet } := by
  rw [encode, hqueue]
  exact if_pos hfits

/-- A packet goes over to the decoder's queue, which loses its oldest when it is long. -/
theorem transmit_eq_some (h : step opus channels s .transmit = some s') :
    ∃ packet rest, s.link.queue = packet :: rest ∧
      s' = { s with
        link := s.link.leave 1 true
        decoder := (s.decoder.drop (AudioDecoder.excess s.decoder.backlog.queue)).put packet } := by
  rw [step] at h
  split at h
  · cases h
  · next packet rest hqueue =>
      obtain ⟨backlog, hbacklog, rfl⟩ := Option.map_eq_some_iff.mp h
      rcases AudioDecoder.step_cases hbacklog with ⟨data, size, hcall, rfl⟩ | ⟨hcall, _⟩
      · obtain ⟨rfl, rfl⟩ := AudioDecoder.Call.add.inj hcall
        exact ⟨packet, rest, hqueue, by rw [newMemory_ofList]; rfl⟩
      · cases hcall

theorem sound_init (opus : Opus ε δ) (channels : ℕ) :
    Sound opus channels (machine opus channels).init where
  encoder := Worker.sound_start (encoderStage opus channels)
  everything := nofun
  captured := rfl
  link := Backlog.accounted_empty
  encoded := rfl
  decoder := Worker.sound_start opus.decoder
  transmitted := rfl
  bounded := Nat.zero_le _
  outlet := Backlog.accounted_empty
  heard := rfl

theorem Sound.step (h : Sound opus channels s) {call : Call}
    (hstep : step opus channels s call = some s') : Sound opus channels s' := by
  cases call with
  | capture buffer =>
      obtain rfl := Option.some.inj hstep
      exact { h with
        encoder := h.encoder.put _
        everything := h.everything
        captured := by simp [Worker.put, Backlog.add, h.captured] }
  | encode =>
      obtain ⟨encoder, packet, hwork, rfl⟩ := encode_eq_some hstep
      have hsound := h.encoder.work hwork
      obtain ⟨memory, rest, -, -, rfl⟩ := Worker.work_cases hwork
      exact { h with
        encoder := hsound
        everything := h.everything.take 1
        captured := h.captured
        link := h.link.add packet
        encoded := by simp [Backlog.add, h.encoded] }
  | transmit =>
      obtain ⟨packet, rest, hqueue, rfl⟩ := transmit_eq_some hstep
      have hlength := AudioDecoder.length_add_queue s.decoder.backlog.queue
        (some (Block.ofList 0 packet)) packet.length h.bounded
      rw [AudioDecoder.add_eq, newMemory_ofList] at hlength
      exact { h with
        link := h.link.leave 1 true
        encoded := h.encoded
        decoder := (h.decoder.drop _).put packet
        transmitted := by
          rw [Backlog.received_take _ hqueue, ← h.transmitted]
          rfl
        bounded := hlength }
  | lose n =>
      obtain rfl := Option.some.inj hstep
      exact { h with
        link := h.link.leave n false
        encoded := h.encoded
        transmitted := h.transmitted.trans (Backlog.received_discard _ n).symm }
  | decode =>
      obtain ⟨⟨decoder, sound⟩, hwork, rfl⟩ := Option.map_eq_some_iff.mp hstep
      have hsound := h.decoder.work hwork
      obtain ⟨packet, rest, hqueue, -, rfl⟩ := Worker.work_cases hwork
      exact { h with
        decoder := hsound
        transmitted := h.transmitted
        bounded := (List.drop_sublist 1 _).length_le.trans h.bounded
        outlet := by
          have hpushed : (s.output.play (some (Block.ofList 0 sound)) sound.length).queue.queue =
              s.output.queue.queue ++ [sound] := by
            simp [AudioOutput.play, ThreadQueue.push, newMemory_ofList]
          rw [AudioZip.outlet, hpushed]
          exact h.outlet.add sound
        heard := h.heard }
  | playCallback =>
      cases hqueue : s.output.queue.queue with
      | nil =>
          rw [AudioZip.step, AudioOutput.playCallback_of_nil hqueue] at hstep
          obtain rfl := Option.some.inj hstep
          simpa using h
      | cons sound rest =>
          rw [AudioZip.step, AudioOutput.playCallback_of_cons hqueue] at hstep
          obtain rfl := Option.some.inj hstep
          have hleave := h.outlet.leave 1 true
          have htake := Backlog.received_take (AudioZip.outlet s) hqueue
          have houtlet : (AudioZip.outlet s).leave 1 true =
              { queue := rest, added := s.decoder.out, gone := s.gone ++ [(sound, true)] } := by
            simp [AudioZip.outlet, Backlog.leave, hqueue]
          rw [houtlet] at hleave htake
          exact { h with
            outlet := hleave
            heard := by
              rw [AudioZip.outlet, h.heard]
              exact htake.symm }
  | skip count =>
      rw [AudioZip.step, skip_eq] at hstep
      obtain rfl := Option.some.inj hstep
      exact { h with
        outlet := h.outlet.leave count.toNat false
        heard := h.heard.trans (Backlog.received_discard (AudioZip.outlet s) count.toNat).symm }

theorem sound_of_run (hrun : (machine opus channels).run calls = some s) :
    Sound opus channels s :=
  Machine.invariant (sound_init opus channels) (fun _ _ _ h hstep => h.step hstep) hrun

/-- Whoever works when: what was encoded is made of what was captured first, what is heard was
decoded of packets that are some of these, in the same order, and of what was decoded only some
whole pieces are left out.  The decoder is never more than five packets behind. -/
theorem heard_of_run (opus : Opus ε δ) (channels : ℕ) (calls : List Call) (s : Voice ε δ)
    (hrun : (machine opus channels).run calls = some s) :
    (∃ first, first <+: s.captured ∧
        s.encoder.out = (encoderStage opus channels).outputs first) ∧
      (∃ packets, List.Sublist packets s.encoder.out ∧
        List.Sublist s.heard (opus.decoder.outputs packets)) ∧
      s.decoder.backlog.queue.length ≤ AudioDecoder.maxDelayLimitCount + 1 := by
  have h := sound_of_run hrun
  refine ⟨⟨s.encoder.backlog.received, ?_, h.encoder.out_eq⟩,
    ⟨s.decoder.backlog.received, ?_, ?_⟩, h.bounded⟩
  · rw [← h.captured]
    exact h.everything.received_prefix h.encoder.accounted
  · rw [← h.encoded]
    have hreceived := h.decoder.accounted.received
    rw [h.transmitted] at hreceived
    exact hreceived.trans h.link.received
  · rw [h.heard, ← h.decoder.out_eq]
    exact h.outlet.received

/-- Where neither the network nor `play` nor `skip` has discarded anything, what is heard is the
beginning of what the encoder and the decoder make of the capture together, whoever works when. -/
theorem heard_prefix_of_run (opus : Opus ε δ) (channels : ℕ) (calls : List Call) (s : Voice ε δ)
    (hrun : (machine opus channels).run calls = some s) (hlink : s.link.Lossless)
    (hdecoder : s.decoder.backlog.Lossless) (houtlet : (outlet s).Lossless) :
    s.heard <+: ((encoderStage opus channels).comp opus.decoder).outputs s.captured := by
  have h := sound_of_run hrun
  have hcaptured := h.everything.received_prefix h.encoder.accounted
  have htransmitted := hlink.received_prefix h.link
  have hreceived := hdecoder.received_prefix h.decoder.accounted
  rw [h.captured] at hcaptured
  rw [h.encoded] at htransmitted
  rw [h.transmitted] at hreceived
  rw [Stage.comp_outputs]
  calc s.heard <+: s.decoder.out := h.heard ▸ houtlet.received_prefix h.outlet
    _ = opus.decoder.outputs s.decoder.backlog.received := h.decoder.out_eq
    _ <+: opus.decoder.outputs s.encoder.out :=
        opus.decoder.outputs_mono (hreceived.trans htransmitted)
    _ <+: opus.decoder.outputs ((encoderStage opus channels).outputs s.captured) := by
        rw [h.encoder.out_eq]
        exact opus.decoder.outputs_mono
          ((encoderStage opus channels).outputs_mono hcaptured)

theorem length_captured (buffer : Block UInt8) (deviceId : ℤ) :
    (newMemory (some buffer) (option deviceId).getFrameSize).length = readSize 1 := by
  have hsize : (option deviceId).getFrameSize = readSize 1 := by
    simp [option, AudioCaptureOption.getFrameSize, readSize, Nat.mul_comm]
  have hpos : ¬ ((readSize 1 : ℕ) : ℤ) ≤ 0 := by decide
  rw [hsize, newMemory, if_neg hpos, Int.toNat_natCast, Block.length_load]

/-- A codec that counts the packets. -/
def counting : Opus ℕ Unit where
  encoder := ⟨0, fun n _ => (n + 1, [UInt8.ofNat n])⟩
  decoder := ⟨(), fun _ packet => ((), packet)⟩

/-- A block that is captured while no other waits is encoded whole. -/
theorem run_encode (opus : Opus ε δ) {first : List Call} {s : Voice ε δ}
    (hrun : (machine opus 1).run first = some s) (hqueue : s.encoder.backlog.queue = [])
    (buffer : Block UInt8) :
    ∃ memory, memory.length = readSize 1 ∧
      (machine opus 1).run (first ++ [.capture buffer, .encode]) =
        some { s with
          captured := s.captured ++ [memory]
          encoder :=
            { backlog := (s.encoder.backlog.add memory).leave 1 true
              state := (opus.encoder.step s.encoder.state (memory.take (readSize 1))).1
              out := s.encoder.out ++
                [(opus.encoder.step s.encoder.state (memory.take (readSize 1))).2] }
          link :=
            s.link.add (opus.encoder.step s.encoder.state (memory.take (readSize 1))).2 } := by
  have hlength := length_captured buffer (-1)
  refine ⟨_, hlength, ?_⟩
  rw [Machine.run_append, hrun, Option.bind_some]
  simp only [Machine.runFrom, machine, step, Option.bind_some]
  generalize newMemory (some buffer) (option (-1)).getFrameSize = memory at hlength ⊢
  have hwaits : (s.encoder.put memory).backlog.queue = [memory] := by
    rw [Worker.put, Backlog.add, hqueue, List.nil_append]
  rw [encode_of_le hwaits hlength.ge, Worker.work, hwaits]
  rfl

/-- Of three packets the network loses the second, and the third is skipped. -/
theorem heard_skipped :
    let calls : List Call :=
      [.capture fun _ => 1, .encode, .capture fun _ => 2, .encode, .capture fun _ => 3, .encode,
        .transmit, .lose 1, .transmit, .decode, .decode, .playCallback, .skip 1]
    ∃ s, (machine counting 1).run calls = some s ∧ s.encoder.out = [[0], [1], [2]] ∧
      s.gone = [([0], true), ([2], false)] ∧ s.heard = [[0]] ∧
      (∃ first, first <+: s.captured ∧
        s.encoder.out = (encoderStage counting 1).outputs first) ∧
      (∃ packets, List.Sublist packets s.encoder.out ∧
        List.Sublist s.heard (counting.decoder.outputs packets)) ∧
      s.decoder.backlog.queue.length ≤ AudioDecoder.maxDelayLimitCount + 1 := by
  intro calls
  obtain ⟨memory₁, -, hrun₁⟩ := run_encode counting Machine.run_nil rfl fun _ => 1
  obtain ⟨memory₂, -, hrun₂⟩ := run_encode counting hrun₁ rfl fun _ => 2
  obtain ⟨memory₃, -, hrun₃⟩ := run_encode counting hrun₂ rfl fun _ => 3
  obtain ⟨s, hs, hout, hgone, hheard⟩ : ∃ s, (machine counting 1).run calls = some s ∧
      s.encoder.out = [[0], [1], [2]] ∧ s.gone = [([0], true), ([2], false)] ∧
      s.heard = [[0]] := by
    rw [← List.take_append_drop 6 calls, Machine.run_append]
    refine ⟨_, (congrArg (Option.bind · _) hrun₃).trans rfl, rfl, rfl, rfl⟩
  exact ⟨s, hs, hout, hgone, hheard, heard_of_run counting 1 calls s hs⟩

theorem heard_prefix_late :
    let calls : List Call :=
      [.capture fun _ => 1, .encode, .playCallback, .transmit, .capture fun _ => 2, .decode,
        .playCallback]
    ∃ s, (machine counting 1).run calls = some s ∧ s.heard = [[0]] ∧
      s.heard <+: ((encoderStage counting 1).comp counting.decoder).outputs s.captured := by
  intro calls
  obtain ⟨memory, -, hrun₁⟩ := run_encode counting Machine.run_nil rfl fun _ => 1
  have hlossless : ∀ p ∈ [(([0] : List UInt8), true)], p.2 = true :=
    List.forall_mem_singleton.mpr rfl
  obtain ⟨s, hs, hheard, hlink, hdecoder, houtlet⟩ : ∃ s, (machine counting 1).run calls = some s ∧
      s.heard = [[0]] ∧ s.link.Lossless ∧ s.decoder.backlog.Lossless ∧ (outlet s).Lossless := by
    rw [← List.take_append_drop 2 calls, Machine.run_append]
    exact ⟨_, (congrArg (Option.bind · _) hrun₁).trans rfl, rfl, hlossless, hlossless, hlossless⟩
  exact ⟨s, hs, hheard, heard_prefix_of_run counting 1 calls s hs hlink hdecoder houtlet⟩

/-! ## Sizes -/

/-- The sizes that are set once. -/
structure Sized (channels : ℕ) (s : Voice ε δ) : Prop where
  captured : ∀ memory ∈ s.captured, memory.length = readSize 1
  bufferSize : s.output.bufferSize = readSize channels
  mute : s.output.mute.length = readSize channels

theorem sized_init (opus : Opus ε δ) (channels : ℕ) :
    Sized channels (machine opus channels).init := by
  have hsize : sampleSize * framesPerBuffer * channels = readSize channels := by
    rw [readSize]
    ring
  exact ⟨nofun, hsize, (List.length_replicate ..).trans hsize⟩

theorem Sized.step (h : Sized channels s) {call : Call}
    (hstep : step opus channels s call = some s') : Sized channels s' := by
  cases call with
  | capture buffer =>
      obtain rfl := Option.some.inj hstep
      refine ⟨fun memory hmemory => ?_, h.bufferSize, h.mute⟩
      rcases List.mem_append.mp hmemory with hmemory | hmemory
      · exact h.captured memory hmemory
      · rw [List.mem_singleton.mp hmemory]
        exact length_captured buffer (-1)
  | encode =>
      obtain ⟨encoder, packet, -, rfl⟩ := encode_eq_some hstep
      exact ⟨h.captured, h.bufferSize, h.mute⟩
  | transmit =>
      obtain ⟨packet, rest, -, rfl⟩ := transmit_eq_some hstep
      exact ⟨h.captured, h.bufferSize, h.mute⟩
  | lose n =>
      obtain rfl := Option.some.inj hstep
      exact ⟨h.captured, h.bufferSize, h.mute⟩
  | decode =>
      obtain ⟨⟨decoder, sound⟩, -, rfl⟩ := Option.map_eq_some_iff.mp hstep
      exact ⟨h.captured, h.bufferSize, h.mute⟩
  | playCallback =>
      cases hqueue : s.output.queue.queue with
      | nil =>
          rw [AudioZip.step, AudioOutput.playCallback_of_nil hqueue] at hstep
          obtain rfl := Option.some.inj hstep
          exact ⟨h.captured, h.bufferSize, h.mute⟩
      | cons sound rest =>
          rw [AudioZip.step, AudioOutput.playCallback_of_cons hqueue] at hstep
          obtain rfl := Option.some.inj hstep
          exact ⟨h.captured, h.bufferSize, h.mute⟩
  | skip count =>
      obtain rfl := Option.some.inj hstep
      exact ⟨h.captured, h.bufferSize, h.mute⟩

theorem sized_of_run (hrun : (machine opus channels).run calls = some s) : Sized channels s :=
  Machine.invariant (sized_init opus channels) (fun _ _ _ h hstep => h.step hstep) hrun

/-- `start` captures one channel whatever the constructor was told: the thread of the encoder
stays inside the memory that it has taken exactly if it encodes no more than one. -/
theorem encodes_iff (opus : Opus ε δ) (channels : ℕ) (calls : List Call) (s : Voice ε δ)
    (hrun : (machine opus channels).run calls = some s) (hqueue : s.encoder.backlog.queue ≠ []) :
    (∃ s', step opus channels s .encode = some s') ↔ channels ≤ 1 := by
  obtain ⟨memory, rest, hmemory⟩ := List.exists_cons_of_ne_nil hqueue
  have h := sound_of_run hrun
  have hlength : memory.length = readSize 1 := by
    apply (sized_of_run hrun).captured
    rw [← h.captured]
    exact h.encoder.accounted.suffix.subset (by simp [hmemory])
  have hfits : readSize channels ≤ memory.length ↔ channels ≤ 1 := by
    simp only [hlength, readSize, framesPerBuffer, sampleSize]
    omega
  rw [← hfits]
  constructor
  · rintro ⟨s', hs'⟩
    by_contra hno
    simp [step, encode, hmemory, hno] at hs'
  · intro hyes
    rw [step, encode_of_le hmemory hyes]
    simp [Worker.work, hmemory]

/-- Where Opus decodes as many samples as it has encoded, every callback of the speaker fills its
buffer, be it with sound or with silence. -/
theorem fills_of_run (opus : Opus ε δ)
    (hopus : ∀ state state' samples, samples.length = readSize 1 →
      (opus.decoder.step state' (opus.encoder.step state samples).2).2.length = samples.length)
    (calls : List Call) (s : Voice ε δ) (hrun : (machine opus 1).run calls = some s) :
    s.output.playCallback.1.length = s.output.bufferSize := by
  have h := sound_of_run hrun
  have hsized := sized_of_run hrun
  rw [hsized.bufferSize]
  cases hqueue : s.output.queue.queue with
  | nil =>
      rw [AudioOutput.playCallback_of_nil hqueue]
      exact hsized.mute
  | cons sound rest =>
      rw [AudioOutput.playCallback_of_cons hqueue]
      -- follow the sound back to what was captured
      have hout : sound ∈ s.decoder.out :=
        h.outlet.suffix.subset (by simp [outlet, hqueue])
      rw [h.decoder.out_eq] at hout
      obtain ⟨state', packet, hpacket, rfl⟩ := opus.decoder.exists_of_mem_outputs hout
      have hencoded : packet ∈ s.encoder.out := by
        rw [← h.encoded]
        have hreceived := h.decoder.accounted.received
        rw [h.transmitted] at hreceived
        exact (hreceived.trans h.link.received).subset hpacket
      rw [h.encoder.out_eq] at hencoded
      obtain ⟨state, memory, hmemory, rfl⟩ :=
        (encoderStage opus 1).exists_of_mem_outputs hencoded
      have hcaptured : memory ∈ s.captured := by
        rw [← h.captured]
        exact h.encoder.accounted.received.subset hmemory
      have hlength := hsized.captured memory hcaptured
      have htake : (memory.take (readSize 1)).length = readSize 1 := by
        rw [List.length_take, hlength, Nat.min_self]
      exact (hopus state state' _ htake).trans htake

theorem encodes_stereo :
    ∃ s, (machine counting 2).run [.capture fun _ => 1] = some s ∧
      ((∃ s', step counting 2 s .encode = some s') ↔ 2 ≤ 1) :=
  ⟨_, rfl, encodes_iff counting 2 [.capture fun _ => 1] _ rfl (List.cons_ne_nil _ _)⟩

/-- Every packet decodes to the same sound. -/
def constant (sound : List UInt8) : Opus Unit Unit where
  encoder := ⟨(), fun _ _ => ((), [7])⟩
  decoder := ⟨(), fun _ _ => ((), sound)⟩

/-- A block on its way to the speaker. -/
theorem run_constant (sound : List UInt8) :
    ∃ s, (machine (constant sound) 1).run [.capture fun _ => 1, .encode, .transmit, .decode] =
      some s ∧ s.output.playCallback.1 = sound := by
  obtain ⟨memory, -, hrun₁⟩ := run_encode (constant sound) Machine.run_nil rfl fun _ => 1
  have hrun : ∃ s, (machine (constant sound) 1).run
      ([.capture fun _ => 1, .encode] ++ [.transmit, .decode]) = some s ∧
      s.output.playCallback.1 = newMemory (some (Block.ofList 0 sound)) sound.length := by
    rw [Machine.run_append]
    exact ⟨_, (congrArg (Option.bind · _) hrun₁).trans rfl, rfl⟩
  rwa [newMemory_ofList] at hrun

/-- A sound is played. -/
theorem fills_sound :
    let sound := List.replicate (readSize 1) 7
    ∃ s, (machine (constant sound) 1).run
        [.capture fun _ => 1, .encode, .transmit, .decode] = some s ∧
      s.output.playCallback.1 = sound ∧
      s.output.playCallback.1.length = s.output.bufferSize := by
  intro sound
  obtain ⟨s, hs, hplayed⟩ := run_constant sound
  refine ⟨s, hs, hplayed, fills_of_run (constant sound) (fun _ _ samples hsamples => ?_) _ s hs⟩
  exact List.length_replicate.trans hsamples.symm

end AudioZip

end RyuLib
