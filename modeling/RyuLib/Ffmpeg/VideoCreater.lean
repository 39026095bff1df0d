import RyuLib.Video.VideoCreater

/-!
# The VideoCreater of ffmpeg/

The recorder of ffmpeg/VideoCreater.hpp: one object that is opened and closed again and
again.  `open` and `close` replace what the streams point to; the counters `next_pts` and
`samples_count` and the bytes in `audio_buffer` are not theirs to touch (`open_carries`,
`close_carries`), and of the counters not even the first value is set.

Of the calls of FFmpeg only the results are modelled, and of a pointer whether it can be
used.  A call that would use one that is null, or an encoder that is not open, is `none`.
-/

namespace RyuLib

open Foundations

namespace Ffmpeg

abbrev audioSampleSize : ℤ := 4

structure VideoCreaterOption where
  useNvenc : Bool := true
  channel : ℤ := 1

/-- The three numbers have no first value in the source. -/
structure OutputStream where
  st : Bool := false
  nextPts : ℤ
  samplesCount : ℤ
  nbSamples : ℤ
  swsCtx : Bool := false
  swrCtx : Bool := false

inductive VideoContext
  | null
  | allocated
  | opened
  deriving DecidableEq

/-- With the sample rate, which `avcodec_open2` refuses to be 0.  It sets the time base of an
audio encoder to a sample. -/
inductive AudioContext
  | null
  | allocated (sampleRate : ℕ)
  | opened (sampleRate : ℕ) (positive : 0 < sampleRate)
  deriving DecidableEq

/-- `close` leaves the two contexts as they are, dangling; without a `sws_ctx` or `swr_ctx`
they are of no use. -/
structure VideoCreater where
  option : VideoCreaterOption := {}
  isOpened : Bool := false
  oc : Bool := false
  codecCtxVideo : VideoContext := .null
  videoSt : OutputStream
  codecCtxAudio : AudioContext := .null
  audioSt : OutputStream
  audioBuffer : MemoryBuffer := {}

namespace VideoCreater

/-! ## Opening and closing -/

/-- Whether the calls in `open_video` succeed. -/
structure OpenVideoResults where
  allocContext : Bool := true
  codecOpen : Bool := true
  swsContext : Bool := true

/-- What the calls in `open` find, and whether they succeed. -/
structure OpenResults where
  allocOutput : Bool := true
  videoCodec : Bool := true
  findNvenc : Bool := true
  openNvenc : OpenVideoResults := {}
  findVideoEncoder : Bool := true
  openVideo : OpenVideoResults := {}
  newVideoStream : Bool := true
  videoParameters : Bool := true
  audioCodec : Bool := true
  findAudioEncoder : Bool := true
  newAudioStream : Bool := true
  allocAudioContext : Bool := true
  supportedSamplerates : Option (List ℕ) := none
  audioCodecOpen : Bool := true
  variableFrameSize : Bool := false
  frameSize : ℤ := 1024
  audioParameters : Bool := true
  swrAlloc : Bool := true
  swrInit : Bool := true
  noFile : Bool := false
  avioOpen : Bool := true
  writeHeader : Bool := true

/-- `if (step == false) return false;`, and on with what follows. -/
def andThen (step : Bool × VideoCreater) (follow : VideoCreater → Bool × VideoCreater) :
    Bool × VideoCreater :=
  if step.1 = false then (false, step.2) else follow step.2

def openVideo (s : VideoCreater) (r : OpenVideoResults) : Bool × VideoCreater :=
  if r.allocContext = false then (false, { s with codecCtxVideo := .null })
  else if r.codecOpen = false then (false, { s with codecCtxVideo := .allocated })
  else (r.swsContext, { s with codecCtxVideo := .opened, videoSt.swsCtx := r.swsContext })

/-- The choice of the encoder in `open`: the hardware one, and when it is not wanted, not
there or does not open, the default one. -/
def openEncoder (s : VideoCreater) (r : OpenResults) : Bool × VideoCreater :=
  let hardware :=
    if s.option.useNvenc = false ∨ r.findNvenc = false then (false, s)
    else s.openVideo r.openNvenc
  if hardware.1 = true then hardware
  else andThen (r.findVideoEncoder, hardware.2) fun s => s.openVideo r.openVideo

def addVideoStream (s : VideoCreater) (r : OpenResults) : Bool × VideoCreater :=
  if r.newVideoStream = false then (false, { s with videoSt.st := false })
  else (r.videoParameters, { s with videoSt.st := true })

def addAudioStream (s : VideoCreater) (r : OpenResults) : Bool × VideoCreater :=
  if r.findAudioEncoder = false then (false, s)
  else if r.newAudioStream = false then (false, { s with audioSt.st := false })
  else if r.allocAudioContext = false then
    (false, { s with audioSt.st := true, codecCtxAudio := .null })
  else
    (true, { s with
      audioSt.st := true
      codecCtxAudio := .allocated (RyuLib.VideoCreater.chooseRate r.supportedSamplerates) })

def openAudio (s : VideoCreater) (r : OpenResults) : Bool × VideoCreater :=
  match s.codecCtxAudio with
  | .allocated sampleRate =>
      if h : r.audioCodecOpen = true ∧ 0 < sampleRate then
        let s := { s with
          codecCtxAudio := .opened sampleRate h.2
          audioSt.nbSamples := if r.variableFrameSize = true then 10000 else r.frameSize }
        if r.audioParameters = false then (false, s)
        else if r.swrAlloc = false then (false, { s with audioSt.swrCtx := false })
        else (r.swrInit, { s with audioSt.swrCtx := true })
      else (false, s)
  -- not reached: `add_audio_stream` has just allocated it
  | _ => (false, s)

def open_ (s : VideoCreater) (option : VideoCreaterOption) (r : OpenResults) :
    Bool × VideoCreater :=
  let s := { s with isOpened := false, option := option, oc := r.allocOutput }
  andThen (r.allocOutput && r.videoCodec, s) fun s =>
  andThen (s.openEncoder r) fun s =>
  andThen (s.addVideoStream r) fun s =>
  andThen (r.audioCodec, s) fun s =>
  andThen (s.addAudioStream r) fun s =>
  andThen (s.openAudio r) fun s =>
  andThen ((r.noFile || r.avioOpen) && r.writeHeader, s) fun s =>
  (true, { s with isOpened := true })

def close (s : VideoCreater) : VideoCreater :=
  { s with
    isOpened := false
    oc := false
    videoSt := { s.videoSt with swsCtx := false, swrCtx := false }
    audioSt := { s.audioSt with swsCtx := false, swrCtx := false } }

/-! ## Writing -/

/-- Whether the calls in `writeBitmap` succeed, and whether the encoder has a packet ready. -/
structure BitmapResults where
  allocPictures : Bool := true
  makeWritable : Bool := true
  encode : Bool := true
  gotPacket : Bool := true
  writeFrame : Bool := true

/-- Whether the calls in `do_writeAudioPacket` succeed. -/
structure AudioResults where
  allocFrames : Bool := true
  makeWritable : Bool := true
  convert : Bool := true
  encode : Bool := true
  gotPacket : Bool := true
  writeFrame : Bool := true

/-- The results with which a picture gets to the encoder. -/
def BitmapResults.Encodes (r : BitmapResults) : Prop :=
  r.allocPictures = true ∧ r.makeWritable = true

/-- The results with which a block gets to the encoder. -/
def AudioResults.Encodes (r : AudioResults) : Prop :=
  r.allocFrames = true ∧ r.makeWritable = true ∧ r.convert = true

instance (r : BitmapResults) : Decidable r.Encodes := inferInstanceAs (Decidable (_ ∧ _))

instance (r : AudioResults) : Decidable r.Encodes := inferInstanceAs (Decidable (_ ∧ _))

/-- With the `pts` of the frame that the encoder is given, if it gets to that. -/
def writeBitmap (s : VideoCreater) (r : BitmapResults) :
    Option (Option ℤ × Bool × VideoCreater) :=
  if s.codecCtxVideo = .null then none
  else if ¬ r.Encodes then some (none, false, s)
  else if s.codecCtxVideo ≠ .opened ∨ s.videoSt.swsCtx = false then none
  else
    let pts := s.videoSt.nextPts
    let s := { s with videoSt.nextPts := pts + 1 }
    if r.encode = false then some (some pts, false, s)
    else if r.gotPacket = false then some (some pts, true, s)
    else if s.videoSt.st = false ∨ s.oc = false then none
    else some (some pts, r.writeFrame, s)

/-- What `do_writeAudioPacket` does after `swr_convert`. -/
def encodeAudio (s : VideoCreater) (sampleRate : ℕ) (r : AudioResults) :
    Option (Option ℤ × Bool × VideoCreater) :=
  let pts := avRescaleQ s.audioSt.samplesCount ⟨1, sampleRate⟩ ⟨1, sampleRate⟩
  let s := { s with audioSt.samplesCount := toInt (s.audioSt.samplesCount + s.audioSt.nbSamples) }
  if r.encode = false then some (some pts, false, s)
  else if r.gotPacket = false then some (some pts, true, s)
  else if s.audioSt.st = false ∨ s.oc = false then none
  else some (some pts, r.writeFrame, s)

/-- With the `pts` of the frame that the encoder is given, if it gets to that. -/
def doWriteAudioPacket (s : VideoCreater) (r : AudioResults) :
    Option (Option ℤ × Bool × VideoCreater) :=
  if s.codecCtxAudio = .null then none
  else if r.allocFrames = false then some (none, false, s)
  -- a frame has two channels at most, and the copy would run past its end
  else if 2 < s.option.channel ∨ s.audioSt.swrCtx = false then none
  else
    let s := { s with audioSt.nextPts := s.audioSt.nextPts + s.audioSt.nbSamples }
    if ¬ r.Encodes then some (none, false, s)
    else
      match s.codecCtxAudio with
      | .opened sampleRate _ => s.encodeAudio sampleRate r
      | _ => none

def dataSize (s : VideoCreater) : ℤ :=
  toInt (s.audioSt.nbSamples * audioSampleSize * s.option.channel)

/-- A block taken from the buffer, and the `pts` it is given to the encoder with. -/
structure Written where
  data : List UInt8
  pts : Option ℤ

/-- The loop of `writeAudioPacket`, at most `passes` times round. -/
def writeBlocks (dataSize : ℕ) (results : ℕ → AudioResults) :
    ℕ → ℕ → VideoCreater → Option (List Written × Bool × VideoCreater)
  | 0, _, s => some ([], true, s)
  | passes + 1, k, s =>
      match s.audioBuffer.read dataSize with
      | (none, _) => some ([], true, s)
      | (some data, audioBuffer) =>
          ({ s with audioBuffer := audioBuffer }.doWriteAudioPacket (results k)).bind
            fun (pts, written, s) =>
              if written = false then some ([⟨data, pts⟩], false, s)
              else
                (writeBlocks dataSize results passes (k + 1) s).map fun (blocks, returned, s) =>
                  (⟨data, pts⟩ :: blocks, returned, s)

/-- There are at most as many passes as bytes, and one that finds nothing; blocks of no bytes
would never come to an end. -/
def writeAudioPacket (s : VideoCreater) (packet : List UInt8) (results : ℕ → AudioResults) :
    Option (List Written × Bool × VideoCreater) :=
  if s.dataSize ≤ 0 then none
  else
    writeBlocks s.dataSize.toNat results (s.audioBuffer.unread.length + packet.length + 1) 0
      { s with audioBuffer := s.audioBuffer.write packet }

/-! ## What the calls change -/

/-- What no `open` and no `close` touches. -/
structure Carried (s t : VideoCreater) : Prop where
  videoPts : t.videoSt.nextPts = s.videoSt.nextPts
  audioPts : t.audioSt.nextPts = s.audioSt.nextPts
  samplesCount : t.audioSt.samplesCount = s.audioSt.samplesCount
  audioBuffer : t.audioBuffer = s.audioBuffer

theorem Carried.refl (s : VideoCreater) : Carried s s := ⟨rfl, rfl, rfl, rfl⟩

theorem Carried.trans {s t u : VideoCreater} (h : Carried s t) (h' : Carried t u) :
    Carried s u :=
  ⟨h'.videoPts.trans h.videoPts, h'.audioPts.trans h.audioPts,
    h'.samplesCount.trans h.samplesCount, h'.audioBuffer.trans h.audioBuffer⟩

theorem carried_andThen {s : VideoCreater} {step : Bool × VideoCreater}
    {follow : VideoCreater → Bool × VideoCreater} (hstep : Carried s step.2)
    (hfollow : ∀ t, Carried t (follow t).2) : Carried s (andThen step follow).2 := by
  unfold andThen
  split
  · exact hstep
  · exact hstep.trans (hfollow step.2)

theorem openVideo_carries (s : VideoCreater) (r : OpenVideoResults) :
    Carried s (s.openVideo r).2 := by
  unfold openVideo
  repeat' split
  all_goals exact ⟨rfl, rfl, rfl, rfl⟩

theorem openEncoder_carries (s : VideoCreater) (r : OpenResults) :
    Carried s (s.openEncoder r).2 := by
  have hhardware : Carried s (if s.option.useNvenc = false ∨ r.findNvenc = false then (false, s)
      else s.openVideo r.openNvenc).2 := by
    split
    · exact Carried.refl s
    · exact openVideo_carries s r.openNvenc
  unfold openEncoder
  generalize (if s.option.useNvenc = false ∨ r.findNvenc = false then (false, s)
    else s.openVideo r.openNvenc) = hardware at hhardware ⊢
  dsimp only
  split
  · exact hhardware
  · exact carried_andThen hhardware fun t => openVideo_carries t r.openVideo

theorem addVideoStream_carries (s : VideoCreater) (r : OpenResults) :
    Carried s (s.addVideoStream r).2 := by
  unfold addVideoStream
  repeat' split
  all_goals exact ⟨rfl, rfl, rfl, rfl⟩

theorem addAudioStream_carries (s : VideoCreater) (r : OpenResults) :
    Carried s (s.addAudioStream r).2 := by
  unfold addAudioStream
  repeat' split
  all_goals exact ⟨rfl, rfl, rfl, rfl⟩

theorem openAudio_carries (s : VideoCreater) (r : OpenResults) :
    Carried s (s.openAudio r).2 := by
  unfold openAudio
  dsimp only
  repeat' split
  all_goals exact ⟨rfl, rfl, rfl, rfl⟩

/-- An `open`, successful or not, goes on with the counters and bytes that it finds. -/
theorem open_carries (s : VideoCreater) (option : VideoCreaterOption) (r : OpenResults) :
    Carried s (s.open_ option r).2 := by
  unfold open_
  refine carried_andThen ⟨rfl, rfl, rfl, rfl⟩ fun s => ?_
  refine carried_andThen (openEncoder_carries s r) fun s => ?_
  refine carried_andThen (addVideoStream_carries s r) fun s => ?_
  refine carried_andThen (Carried.refl s) fun s => ?_
  refine carried_andThen (addAudioStream_carries s r) fun s => ?_
  refine carried_andThen (openAudio_carries s r) fun s => ?_
  exact carried_andThen (Carried.refl s) fun s => ⟨rfl, rfl, rfl, rfl⟩

theorem close_carries (s : VideoCreater) : Carried s s.close := ⟨rfl, rfl, rfl, rfl⟩

/-- A picture that gets to the encoder takes the next `pts`. -/
theorem writeBitmap_cases {s t : VideoCreater} {r : BitmapResults} {pts : Option ℤ}
    {returned : Bool} (h : s.writeBitmap r = some (pts, returned, t)) :
    (¬ r.Encodes ∧ pts = none ∧ t = s) ∨
      (r.Encodes ∧ pts = some s.videoSt.nextPts ∧
        t = { s with videoSt.nextPts := s.videoSt.nextPts + 1 }) := by
  unfold writeBitmap at h
  split at h
  · cases h
  split at h
  · rename_i hnot
    obtain ⟨rfl, rfl, rfl⟩ := h
    exact Or.inl ⟨hnot, rfl, rfl⟩
  split at h
  · cases h
  rename_i hencodes _
  rw [not_not] at hencodes
  right
  dsimp only at h
  split at h
  · obtain ⟨rfl, rfl, rfl⟩ := h
    exact ⟨hencodes, rfl, rfl⟩
  split at h
  · obtain ⟨rfl, rfl, rfl⟩ := h
    exact ⟨hencodes, rfl, rfl⟩
  split at h
  · cases h
  · obtain ⟨rfl, rfl, rfl⟩ := h
    exact ⟨hencodes, rfl, rfl⟩

/-- What becomes of a block: the frame's `pts` is the number of samples counted before, and
a block that does not get to the encoder is not counted and fails. -/
structure BlockWritten (s : VideoCreater) (r : AudioResults) (pts : Option ℤ) (returned : Bool)
    (t : VideoCreater) : Prop where
  videoSt : t.videoSt = s.videoSt
  audioBuffer : t.audioBuffer = s.audioBuffer
  encoded : r.Encodes → pts = some s.audioSt.samplesCount
  lost : ¬ r.Encodes →
    pts = none ∧ returned = false ∧ t.audioSt.samplesCount = s.audioSt.samplesCount

theorem encodeAudio_spec {s t : VideoCreater} {sampleRate : ℕ} (hrate : 0 < sampleRate)
    {r : AudioResults} {pts : Option ℤ} {returned : Bool}
    (h : s.encodeAudio sampleRate r = some (pts, returned, t)) :
    pts = some s.audioSt.samplesCount ∧ t.videoSt = s.videoSt ∧
      t.audioBuffer = s.audioBuffer := by
  have hbase : (⟨1, sampleRate⟩ : AVRational).value ≠ 0 := by
    unfold AVRational.value
    positivity
  unfold encodeAudio at h
  rw [avRescaleQ_self _ hbase] at h
  dsimp only at h
  split at h
  · obtain ⟨rfl, rfl, rfl⟩ := h
    exact ⟨rfl, rfl, rfl⟩
  split at h
  · obtain ⟨rfl, rfl, rfl⟩ := h
    exact ⟨rfl, rfl, rfl⟩
  split at h
  · cases h
  · obtain ⟨rfl, rfl, rfl⟩ := h
    exact ⟨rfl, rfl, rfl⟩

theorem doWriteAudioPacket_spec {s t : VideoCreater} {r : AudioResults} {pts : Option ℤ}
    {returned : Bool} (h : s.doWriteAudioPacket r = some (pts, returned, t)) :
    BlockWritten s r pts returned t := by
  unfold doWriteAudioPacket at h
  split at h
  · cases h
  split at h
  · rename_i halloc
    have hnot : ¬ r.Encodes := fun hencodes => by simp [hencodes.1] at halloc
    obtain ⟨rfl, rfl, rfl⟩ := h
    exact ⟨rfl, rfl, fun hencodes => (hnot hencodes).elim, fun _ => ⟨rfl, rfl, rfl⟩⟩
  split at h
  · cases h
  dsimp only at h
  split at h
  · rename_i hnot
    obtain ⟨rfl, rfl, rfl⟩ := h
    exact ⟨rfl, rfl, fun hencodes => (hnot hencodes).elim, fun _ => ⟨rfl, rfl, rfl⟩⟩
  rename_i hencodes
  rw [not_not] at hencodes
  split at h
  · rename_i hpositive _
    obtain ⟨hpts, hvideo, hbuffer⟩ := encodeAudio_spec hpositive h
    exact ⟨hvideo, hbuffer, fun _ => hpts, fun hnot => (hnot hencodes).elim⟩
  · cases h

section

variable {n : ℕ} {results : ℕ → AudioResults} {s t : VideoCreater}

/-- The loop ends when less than a block is left, or after a block that fails. -/
theorem writeBlocks_cases {passes k : ℕ} {blocks : List Written} {returned : Bool}
    (h : writeBlocks n results (passes + 1) k s = some (blocks, returned, t)) :
    ((s.audioBuffer.read n).1 = none ∧ blocks = [] ∧ t = s) ∨
      ∃ data pts written u, (s.audioBuffer.read n).1 = some data ∧
        { s with audioBuffer := (s.audioBuffer.read n).2 }.doWriteAudioPacket (results k) =
          some (pts, written, u) ∧
        ((written = false ∧ blocks = [⟨data, pts⟩] ∧ t = u ∧ returned = false) ∨
          (written = true ∧ ∃ later, blocks = ⟨data, pts⟩ :: later ∧
            writeBlocks n results passes (k + 1) u = some (later, returned, t))) := by
  rw [writeBlocks] at h
  generalize s.audioBuffer.read n = read at h ⊢
  obtain ⟨found, buffer⟩ := read
  cases found with
  | none =>
      obtain ⟨rfl, rfl, rfl⟩ := h
      exact Or.inl ⟨rfl, rfl, rfl⟩
  | some data =>
      right
      obtain ⟨⟨pts, written, u⟩, hwritten, hloop⟩ := Option.bind_eq_some_iff.mp h
      refine ⟨data, pts, written, u, rfl, hwritten, ?_⟩
      dsimp only at hloop
      split at hloop
      · rename_i hfailed
        obtain ⟨rfl, rfl, rfl⟩ := hloop
        exact Or.inl ⟨hfailed, rfl, rfl, rfl⟩
      · rename_i hok
        obtain ⟨⟨later, returned', t'⟩, hlater, heq⟩ := Option.map_eq_some_iff.mp hloop
        obtain ⟨rfl, rfl, rfl⟩ := heq
        exact Or.inr ⟨Bool.eq_true_of_not_eq_false hok, later, rfl, hlater⟩

/-- What the loop makes of `rest`, the bytes that were in the buffer: the blocks are slices
of it, and a loop that is not broken off leaves less than a block in the counter. -/
structure BlocksWritten (n : ℕ) (s : VideoCreater) (rest : List UInt8) (blocks : List Written)
    (returned : Bool) (t : VideoCreater) : Prop where
  videoSt : t.videoSt = s.videoSt
  sliced : ∃ rest', MemoryBuffer.Represents t.audioBuffer rest' ∧
    Sliced n rest (blocks.map Written.data) rest'
  counted : returned = true → t.audioBuffer.size < n

theorem blocksWritten {passes k : ℕ} {rest : List UInt8} {blocks : List Written}
    {returned : Bool} (hpos : 0 < n) (hrest : MemoryBuffer.Represents s.audioBuffer rest)
    (hpasses : rest.length < passes)
    (h : writeBlocks n results passes k s = some (blocks, returned, t)) :
    BlocksWritten n s rest blocks returned t := by
  induction passes generalizing k s rest blocks with
  | zero => omega
  | succ passes ih =>
      have hsome := s.audioBuffer.isSome_read n
      rcases writeBlocks_cases h with
        ⟨hread, rfl, rfl⟩ | ⟨data, pts, written, u, hread, hwritten, hend⟩
      · rw [hread] at hsome
        exact ⟨rfl, ⟨rest, hrest, Sliced.start n rest⟩,
          fun _ => not_le.mp fun hcounted => Bool.false_ne_true (hsome.mpr hcounted)⟩
      · rw [hread] at hsome
        obtain ⟨hle, hdata, hleft⟩ := hrest.read_counted hpos (hsome.mp rfl)
        rw [hread] at hdata
        obtain rfl := Option.some.inj hdata
        have hblock := doWriteAudioPacket_spec hwritten
        have hbuffer : u.audioBuffer = (s.audioBuffer.read n).2 := hblock.audioBuffer
        rw [← hbuffer] at hleft
        have hfirst := (Sliced.start n rest).read hle
        rcases hend with ⟨rfl, rfl, rfl, rfl⟩ | ⟨-, later, rfl, hlater⟩
        · exact ⟨hblock.videoSt, ⟨_, hleft, hfirst⟩, fun h => absurd h Bool.false_ne_true⟩
        · have hlength : (rest.drop n).length < passes := by
            rw [List.length_drop]
            omega
          obtain ⟨hvideo, ⟨rest', hrest', hsliced⟩, hcounted⟩ := ih hleft hlength hlater
          exact ⟨hvideo.trans hblock.videoSt, ⟨rest', hrest', hfirst.trans hsliced⟩, hcounted⟩

/-- With which `pts` the first block gets to the encoder; without one, none of the others
does. -/
structure FirstBlock (n : ℕ) (s : VideoCreater) (first : AudioResults) (blocks : List Written)
    (t : VideoCreater) : Prop where
  encoded : n ≤ s.audioBuffer.size → first.Encodes →
    ∃ data later, blocks = ⟨data, some s.audioSt.samplesCount⟩ :: later
  lost : ¬ (n ≤ s.audioBuffer.size ∧ first.Encodes) →
    (∀ block ∈ blocks, block.pts = none) ∧ t.audioSt.samplesCount = s.audioSt.samplesCount

theorem firstBlock {passes k : ℕ} {blocks : List Written} {returned : Bool}
    (h : writeBlocks n results (passes + 1) k s = some (blocks, returned, t)) :
    FirstBlock n s (results k) blocks t := by
  have hsome := s.audioBuffer.isSome_read n
  rcases writeBlocks_cases h with
    ⟨hread, rfl, rfl⟩ | ⟨data, pts, written, u, hread, hwritten, hend⟩
  · rw [hread] at hsome
    constructor
    · intro hle
      exact absurd (hsome.mpr hle) Bool.false_ne_true
    · exact fun _ => ⟨fun block hblock => absurd hblock List.not_mem_nil, rfl⟩
  · rw [hread] at hsome
    have hle := hsome.mp rfl
    have hblock := doWriteAudioPacket_spec hwritten
    constructor
    · intro _ hencodes
      obtain rfl := hblock.encoded hencodes
      rcases hend with ⟨-, rfl, -⟩ | ⟨-, later, rfl, -⟩
      · exact ⟨data, [], rfl⟩
      · exact ⟨data, later, rfl⟩
    · intro hnot
      obtain ⟨rfl, rfl, hcount⟩ := hblock.lost fun hencodes => hnot ⟨hle, hencodes⟩
      rcases hend with ⟨-, rfl, rfl, -⟩ | ⟨hok, -⟩
      · refine ⟨fun block hblock => ?_, hcount⟩
        rw [List.mem_singleton.mp hblock]
      · exact absurd hok Bool.false_ne_true

/-- A call that returns. -/
theorem writeAudioPacket_spec {rest packet : List UInt8} {blocks : List Written}
    {returned : Bool} (hrest : MemoryBuffer.Represents s.audioBuffer rest)
    (h : s.writeAudioPacket packet results = some (blocks, returned, t)) :
    0 < s.dataSize ∧ BlocksWritten s.dataSize.toNat s (rest ++ packet) blocks returned t ∧
      FirstBlock s.dataSize.toNat { s with audioBuffer := s.audioBuffer.write packet }
        (results 0) blocks t := by
  unfold writeAudioPacket at h
  split at h
  · cases h
  · rename_i hsize
    obtain ⟨hvideo, hsliced, hcounted⟩ := blocksWritten (by omega) (hrest.write packet)
      (by rw [List.length_append, hrest.unread]; exact Nat.lt_succ_self _) h
    exact ⟨not_le.mp hsize, ⟨hvideo, hsliced, hcounted⟩, firstBlock h⟩

end

end VideoCreater

end Ffmpeg

end RyuLib
