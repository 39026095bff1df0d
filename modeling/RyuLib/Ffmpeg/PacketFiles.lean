import RyuLib.Ffmpeg.PacketRoutes

/-!
# Packets and the files they are of

As long as the streams of every file that is opened are found, the packets that come to a queue
are of the stream that is decoded there.  Whether they are decoded by a decoder for their own
file is another matter: what is in the queue of the audio when the player is closed stays there.

* `routed_of_run`: the queues get what belongs there, and no packet is lost unless a decoder
  fails.
* `audioFresh_iff`: the audio decodes each packet for its own file exactly when the worker has
  finished whenever a decoder for the next one is opened.
* `videoFresh_of_run`: the queue of the video holds packets of the open file alone, if each file
  is closed before the next one is opened.
-/

namespace RyuLib

open Foundations

namespace Ffmpeg

/-- There is a decoder for the first stream of the type in the file. -/
structure Codec.Decodes (c : Codec) (type : MediaType) (format : AVFormatContext) (file : ℕ) :
    Prop where
  context : c.context = true
  streamIndex : c.component.streamIndex = format.streams.findIdx? (· = type)
  file : c.file = file

theorem CodecComponent.openCodec_streamIndex {type : MediaType} {format : AVFormatContext}
    {r : CodecResults} {c c' : CodecComponent} {opened : Bool}
    (h : c.openCodec type format r = some (opened, c')) :
    c'.streamIndex = format.streams.findIdx? (· = type) := by
  unfold CodecComponent.openCodec at h
  dsimp only at h
  split_ifs at h <;> cases h <;> rfl

theorem Codec.decodes_opened {c : Codec} {type : MediaType} {format : AVFormatContext}
    {r : CodecResults} {component : CodecComponent}
    (hopened : c.component.openCodec type format r = some (true, component)) (file : ℕ) :
    (c.opened type format r file component).Decodes type format file := by
  obtain ⟨hmissing, hfound⟩ := CodecComponent.openCodec_spec hopened
  have hf : FFPlayer.Found type format r :=
    not_not.mp fun hf => Bool.false_ne_true (hmissing hf).1.symm
  rw [Codec.opened_found hf]
  exact ⟨(hfound hf).1, CodecComponent.openCodec_streamIndex hopened, rfl⟩

theorem FFAudio.openCodec_eq_true {format : AVFormatContext} {r : CodecResults}
    {c c' : CodecComponent} (h : FFAudio.openCodec format r c = some (true, c')) :
    c.openCodec .audio format r = some (true, c') := by
  obtain ⟨⟨opened, component⟩, hcodec, hresult⟩ := Option.map_eq_some_iff.mp h
  obtain ⟨hboth, rfl⟩ := Prod.mk.inj hresult
  obtain rfl : opened = true := (Bool.and_eq_true_iff.mp hboth).1
  exact hcodec

namespace Playback

/-- The streams of the file are found. -/
def Known (_ : State) : Input → Prop
  | .openTask r => r.openInput ≠ none → r.findStreamInfo = true
  | _ => True

instance decidableKnown (s : State) : ∀ input, Decidable (Known s input)
  | .openTask r => inferInstanceAs (Decidable (r.openInput ≠ none → r.findStreamInfo = true))
  | .closeTask | .playTask | .pauseTask | .moveTask | .onRepeat _ _ | .scheduler | .worker _
  | .video _ => isTrue trivial

/-- What is open fits the file that is open. -/
def Matched (s : State) : Prop :=
  match s.scheduler with
  | .idle | .route | .sync =>
      ∀ format, s.stream.context = some format →
        s.audio.Decodes .audio format s.files ∧ s.video.Decodes .video format s.files
  | .openAudio format _ => s.stream.context = some format
  | .openVideo format _ =>
      s.stream.context = some format ∧ s.audio.Decodes .audio format s.files
  | .closeAudio | .closeVideo | .drain => s.stream.context = none

/-- The packet in the hand of the scheduler is of the open file. -/
def InHand (s : State) : Prop :=
  ∀ packet ∈ s.packets.holds .scheduler,
    s.stream.context = some packet.format ∧ packet.file = s.files

variable {s s' : State} {input : Input} {r : Received}

theorem Hands.empty (h : Hands s) (hat : s.scheduler ≠ .route) :
    s.packets.holds .scheduler = [] :=
  List.length_eq_zero_iff.mp (h.scheduler.trans (if_neg hat))

theorem Matched.of_scheduler (h : Matched s) (hknown : Known s input)
    (hstep : SchedulerStep s input s') : Matched s' := by
  unfold Matched at h
  cases hstep with
  | openFailed hat hinput =>
      unfold Matched
      rw [hat]
      exact nofun
  | openUnknown hat hinput hinfo =>
      have hfound := hknown (hinput ▸ Option.some_ne_none _)
      rw [hinfo] at hfound
      cases hfound
  | openFile hat hinput hinfo => exact rfl
  | audioFailed hat hopened => exact nofun
  | audioOpened hat hopened =>
      rw [hat] at h
      exact ⟨h, Codec.decodes_opened (FFAudio.openCodec_eq_true hopened) s.files⟩
  | videoFailed hat hopened => exact nofun
  | videoOpened hat hopened =>
      rw [hat] at h
      rintro format hformat
      obtain rfl := Option.some.inj (h.1.symm.trans hformat)
      exact ⟨h.2, Codec.decodes_opened hopened s.files⟩
  | closeTask | endOfFile => exact rfl
  | closeAudio hat | closeVideo hat =>
      rw [hat] at h
      exact h
  | playTask hat | pauseTask hat | moveTask hat | skip hat | read hat | routeAudio hat
  | routeVideo hat | routeOther hat | sync _ hat =>
      rw [hat] at h
      simp only [Matched, hat]
      exact h
  | drain hat =>
      rw [hat] at h
      simp only [Matched, hat]
      exact h
  | drained hat =>
      rw [hat] at h
      rintro format hformat
      rw [h] at hformat
      cases hformat

/-- The other threads change a time stamp at most. -/
theorem Matched.congr (h : Matched s) (hscheduler : s'.scheduler = s.scheduler)
    (hstream : s'.stream = s.stream) (hfiles : s'.files = s.files)
    (haudio : s'.audio.component = s.audio.component ∧ s'.audio.file = s.audio.file)
    (hvideo : s'.video.component = s.video.component ∧ s'.video.file = s.video.file) :
    Matched s' := by
  have hcongr : ∀ {c c' : Codec} {type format file}, c'.component = c.component ∧ c'.file = c.file →
      c.Decodes type format file → c'.Decodes type format file :=
    fun {c c' type format file} hsame hc =>
      ⟨(congrArg CodecComponent.context hsame.1).trans hc.context,
        (congrArg CodecComponent.streamIndex hsame.1).trans hc.streamIndex, hsame.2.trans hc.file⟩
  unfold Matched at *
  rw [hscheduler, hstream, hfiles]
  cases hat : s.scheduler with
  | idle | route | sync =>
      rw [hat] at h
      exact fun format hformat =>
        ⟨hcongr haudio (h format hformat).1, hcongr hvideo (h format hformat).2⟩
  | openVideo format r =>
      rw [hat] at h
      exact ⟨h.1, hcongr haudio h.2⟩
  | openAudio format r | closeAudio | closeVideo | drain =>
      rw [hat] at h
      exact h

theorem Matched.step (h : Matched s) (hknown : Known s input)
    (hstep : Playback.step s input = some s') : Matched s' := by
  rcases step_cases hstep with hthread | ⟨r, -, hthread⟩ | ⟨r, -, hthread⟩
  · exact h.of_scheduler hknown hthread
  · cases hthread <;> exact h.congr rfl rfl rfl ⟨rfl, rfl⟩ ⟨rfl, rfl⟩
  · cases hthread <;> exact h.congr rfl rfl rfl ⟨rfl, rfl⟩ ⟨rfl, rfl⟩

/-- A packet comes into the hand of the scheduler from the file that is open. -/
theorem inHand_of_scheduler (hwithin : s.packets.Within) (hhands : Hands s) (hhands' : Hands s')
    (hstep : SchedulerStep s input s') : InHand s' := by
  intro packet hpacket
  have hroute : s'.scheduler = .route := by
    by_contra hat
    rw [hhands'.empty hat] at hpacket
    cases hpacket
  cases hstep with
  | read hat _ hformat =>
      have hempty := hhands.empty (by simp [hat])
      rw [Custody.holds_give_self hwithin, hempty] at hpacket
      obtain rfl := List.mem_singleton.mp hpacket
      exact ⟨hformat, rfl⟩
  | openFailed hat _ | openUnknown hat _ _ | playTask hat | pauseTask hat | moveTask hat _
  | skip hat _ | drain hat _ => exact nomatch hat.symm.trans hroute
  | openFile | audioFailed | audioOpened | videoFailed | videoOpened | closeTask | endOfFile
  | routeAudio | routeVideo | routeOther | sync | closeAudio | closeVideo | drained =>
      exact nomatch hroute

theorem InHand.step (h : InHand s) (hs : Orderly s) (hstep : Playback.step s input = some s') :
    InHand s' := by
  rcases step_cases hstep with hthread | ⟨r, -, hthread⟩ | ⟨r, -, hthread⟩
  · exact inHand_of_scheduler hs.within hs.hands (hs.hands.step hs.within hstep) hthread
  · obtain ⟨-, -, hhand, -⟩ := hthread.keeps
    intro packet hpacket
    rw [hhand] at hpacket
    cases hthread <;> exact h packet hpacket
  · obtain ⟨-, -, hhand, -⟩ := hthread.keeps
    intro packet hpacket
    rw [hhand] at hpacket
    cases hthread <;> exact h packet hpacket

/-- As long as streams are found, what is open and in hand is of the open file. -/
theorem matched_of_run : ∀ inputs s, machine.run inputs = some s →
    machine.Always Known inputs → Matched s ∧ InHand s := by
  refine Machine.run_induction (M := machine)
    (P := fun inputs s => machine.Always Known inputs → Matched s ∧ InHand s) ?_ ?_
  · exact fun _ => ⟨nofun, nofun⟩
  · intro inputs s input s' hrun ih hstep halways
    obtain ⟨hfront, hlast⟩ := (Machine.always_concat inputs input).mp halways
    obtain ⟨hmatched, hhand⟩ := ih hfront
    exact ⟨hmatched.step (hlast s hrun) hstep, hhand.step (orderly_run hrun) hstep⟩

/-! ## Routes -/

/-- No decoder fails. -/
def Decoding (s : State) : Input → Prop
  | .worker r => s.worker = .receiving → r ≠ .error
  | .video r => s.thread = .receiving → r ≠ .error
  | _ => True

instance decidableDecoding (s : State) : ∀ input, Decidable (Decoding s input)
  | .worker r => inferInstanceAs (Decidable (s.worker = .receiving → r ≠ .error))
  | .video r => inferInstanceAs (Decidable (s.thread = .receiving → r ≠ .error))
  | .openTask _ | .closeTask | .playTask | .pauseTask | .moveTask | .onRepeat _ _ | .scheduler =>
      isTrue trivial

/-- The packets that came to the queues are of the streams decoded there, and none was lost. -/
structure Routed (s : State) : Prop where
  audio : ∀ packet ∈ s.packets.had .audioQueue,
    packet.format.streams.findIdx? (· = .audio) = some packet.streamIndex
  video : ∀ packet ∈ s.packets.had .videoQueue,
    packet.format.streams.findIdx? (· = .video) = some packet.streamIndex
  lost : s.packets.had .lost = []

/-- The packet that is being routed is of a file that can be decoded. -/
theorem Matched.decodes (h : Matched s) (hhand : InHand s) (hat : s.scheduler = .route)
    {packet : AVPacket} {rest : List AVPacket}
    (hholds : s.packets.holds .scheduler = packet :: rest) :
    s.audio.Decodes .audio packet.format s.files ∧
      s.video.Decodes .video packet.format s.files := by
  unfold Matched at h
  rw [hat] at h
  exact h packet.format (hhand packet (hholds ▸ List.mem_cons_self)).1

/-- What a pass along another route leaves alone. -/
theorem Routed.pass (h : Routed s) {k l : Keeper} {packets : Custody Keeper AVPacket}
    (hpass : s.packets.pass k l = some packets) (haudio : .audioQueue ≠ l)
    (hvideo : .videoQueue ≠ l) (hlost : .lost ≠ l) (hs' : s'.packets = packets) : Routed s' := by
  subst hs'
  refine ⟨?_, ?_, ?_⟩
  · rw [Custody.had_pass_of_ne hpass haudio]
    exact h.audio
  · rw [Custody.had_pass_of_ne hpass hvideo]
    exact h.video
  · rw [Custody.had_pass_of_ne hpass hlost]
    exact h.lost

theorem Routed.of_scheduler (h : Routed s) (hmatched : Matched s) (hhand : InHand s)
    (hstep : SchedulerStep s input s') : Routed s' := by
  cases hstep with
  | @routeAudio packet rest packets hat hhold hindex hpass =>
      obtain ⟨hdecodes, -⟩ := hmatched.decodes hhand hat hhold
      rw [if_pos hdecodes.context] at hpass
      refine ⟨fun other hother => ?_, ?_, ?_⟩
      · rcases Custody.mem_had_pass hpass hother with hold | hhead
        · exact h.audio other hold
        · rw [hhold] at hhead
          obtain rfl := Option.some.inj hhead
          exact hdecodes.streamIndex.symm.trans hindex
      · rw [Custody.had_pass_of_ne hpass (by decide)]
        exact h.video
      · rw [Custody.had_pass_of_ne hpass (by decide)]
        exact h.lost
  | @routeVideo packet rest packets hat hhold hindex hpass =>
      obtain ⟨-, hdecodes⟩ := hmatched.decodes hhand hat hhold
      rw [if_pos hdecodes.context] at hpass
      refine ⟨?_, fun other hother => ?_, ?_⟩
      · rw [Custody.had_pass_of_ne hpass (by decide)]
        exact h.audio
      · rcases Custody.mem_had_pass hpass hother with hold | hhead
        · exact h.video other hold
        · rw [hhold] at hhead
          obtain rfl := Option.some.inj hhead
          exact hdecodes.streamIndex.symm.trans hindex
      · rw [Custody.had_pass_of_ne hpass (by decide)]
        exact h.lost
  | routeOther hat hpass | drain hat hpass =>
      exact h.pass hpass (by decide) (by decide) (by decide) rfl
  | read =>
      refine ⟨?_, ?_, ?_⟩
      · rw [Custody.had_give_of_ne (by decide)]
        exact h.audio
      · rw [Custody.had_give_of_ne (by decide)]
        exact h.video
      · rw [Custody.had_give_of_ne (by decide)]
        exact h.lost
  | openFailed | openUnknown | openFile | audioFailed | audioOpened | videoFailed | videoOpened
  | closeTask | endOfFile | playTask | pauseTask | moveTask | skip | sync | closeAudio
  | closeVideo | drained => exact ⟨h.audio, h.video, h.lost⟩

theorem Routed.step (h : Routed s) (hmatched : Matched s) (hhand : InHand s)
    (hdecoding : Decoding s input) (hstep : Playback.step s input = some s') : Routed s' := by
  rcases step_cases hstep with hthread | ⟨r, rfl, hthread⟩ | ⟨r, rfl, hthread⟩
  · exact h.of_scheduler hmatched hhand hthread
  · cases hthread with
    | pop _ hpass | free _ hpass => exact h.pass hpass (by decide) (by decide) (by decide) rfl
    | fail hat herror _ => exact absurd herror (hdecoding hat)
    | check | send | frame => exact ⟨h.audio, h.video, h.lost⟩
  · cases hthread with
    | take _ hpass | free _ hpass => exact h.pass hpass (by decide) (by decide) (by decide) rfl
    | fail hat herror _ => exact absurd herror (hdecoding hat)
    | wait | look | compare | miss | send | frame => exact ⟨h.audio, h.video, h.lost⟩

/-- Where the streams of all files are found and the decoders do not fail, each queue gets the
packets of its stream alone, and every packet is in a queue, in a hand or freed. -/
theorem routed_of_run (inputs : List Input) (s : State) (hrun : machine.run inputs = some s)
    (hknown : machine.Always Known inputs) (hdecoding : machine.Always Decoding inputs) :
    Routed s := by
  refine Machine.run_induction (M := machine)
    (P := fun inputs s => machine.Always Known inputs → machine.Always Decoding inputs → Routed s)
    ?_ ?_ inputs s hrun hknown hdecoding
  · exact fun _ _ => ⟨nofun, nofun, rfl⟩
  · intro inputs s input s' hrun ih hstep hknown hdecoding
    obtain ⟨hknownFront, -⟩ := (Machine.always_concat inputs input).mp hknown
    obtain ⟨hdecodingFront, hlast⟩ := (Machine.always_concat inputs input).mp hdecoding
    obtain ⟨hmatched, hhand⟩ := matched_of_run inputs s hrun hknownFront
    exact (ih hknownFront hdecodingFront).step hmatched hhand (hlast s hrun) hstep

theorem known_played : machine.Always Known played := by decide +kernel

theorem routed_played : ∃ s, machine.run played = some s ∧ Routed s := by
  obtain ⟨s, hs⟩ := Option.isSome_iff_exists.mp isSome_played
  exact ⟨s, hs, routed_of_run played s hs known_played (by decide +kernel)⟩

/-! ## Files -/

/-- A file has been opened and its decoders not yet. -/
def SchedulerAt.opening : SchedulerAt → Bool
  | .openAudio _ _ | .openVideo _ _ => true
  | _ => false

/-- The packets that were read are of files that were opened, and while one is being opened of
earlier ones. -/
def Dated (s : State) : Prop :=
  ∀ packet ∈ s.packets.had .scheduler,
    packet.file ≤ s.files ∧ (s.scheduler.opening = true → packet.file < s.files)

theorem Dated.of_scheduler (h : Dated s)
    (hsame : s'.packets.had .scheduler = s.packets.had .scheduler)
    (hstep : SchedulerStep s input s') : Dated s' := by
  intro packet hpacket
  rw [hsame] at hpacket
  obtain ⟨hle, hlt⟩ := h packet hpacket
  cases hstep with
  | openUnknown | openFile => exact ⟨Nat.le_succ_of_le hle, fun _ => Nat.lt_succ_of_le hle⟩
  | audioOpened hat _ =>
      rw [hat] at hlt
      exact ⟨hle, hlt⟩
  | openFailed | playTask | pauseTask | moveTask | skip | drain => exact ⟨hle, hlt⟩
  | audioFailed | videoFailed | videoOpened | closeTask | endOfFile | read | routeAudio
  | routeVideo | routeOther | sync | closeAudio | closeVideo | drained => exact ⟨hle, nofun⟩

theorem Dated.step (h : Dated s) (hstep : Playback.step s input = some s') : Dated s' := by
  rcases read_of_step hstep with hsame | ⟨packet, -, hfile, rfl⟩
  · rcases step_cases hstep with hthread | ⟨r, -, hthread⟩ | ⟨r, -, hthread⟩
    · exact h.of_scheduler hsame hthread
    all_goals
      intro packet hpacket
      rw [hsame] at hpacket
      cases hthread <;> exact h packet hpacket
  · intro other hother
    rw [Custody.had_give_self] at hother
    rcases List.mem_append.mp hother with hother | hother
    · exact ⟨(h other hother).1, nofun⟩
    · rw [List.mem_singleton.mp hother]
      exact ⟨hfile.le, nofun⟩

theorem dated_run {inputs : List Input} (hrun : machine.run inputs = some s) : Dated s :=
  Machine.invariant (M := machine) (I := Dated) nofun (fun _ _ _ hs h => hs.step h) hrun

/-! ## The audio -/

/-- The packets that the worker has still to decode. -/
def Ahead (s : State) (packet : AVPacket) : Prop :=
  packet ∈ s.packets.holds .audioQueue ∨ packet ∈ s.packets.holds .worker

/-- The decoder that there is is for the file of the packets that it gets. -/
def Fresh (s : State) : Prop :=
  s.audio.context = true → ∀ packet, Ahead s packet → packet.file = s.audio.file

/-- A decoder for the audio is opened only when the worker has nothing left. -/
def CaughtUp (s : State) (input : Input) : Prop :=
  ∀ format r, input = .scheduler → s.scheduler = .openAudio format r →
    FFPlayer.Found .audio format r.audio → ∀ packet, ¬ Ahead s packet

/-- A decoder for the audio is about to be opened. -/
def SchedulerAt.findsAudio : SchedulerAt → Bool
  | .openAudio format r => decide (FFPlayer.Found .audio format r.audio)
  | _ => false

theorem caughtUp_iff : CaughtUp s input ↔
    (input = .scheduler → s.scheduler.findsAudio = true →
      s.packets.holds .audioQueue = [] ∧ s.packets.holds .worker = []) := by
  have hnone : (∀ packet, ¬ Ahead s packet) ↔
      s.packets.holds .audioQueue = [] ∧ s.packets.holds .worker = [] := by
    simp only [Ahead, not_or, forall_and, ← List.eq_nil_iff_forall_not_mem]
  unfold CaughtUp SchedulerAt.findsAudio
  rw [hnone]
  cases s.scheduler <;> simp

instance decidableCaughtUp (s : State) (input : Input) : Decidable (CaughtUp s input) :=
  decidable_of_iff _ caughtUp_iff.symm

theorem Ahead.read (hs : Orderly s) {packet : AVPacket} (h : Ahead s packet) :
    packet ∈ s.packets.had .scheduler := by
  have hqueue : packet ∈ s.packets.had .audioQueue := by
    rcases h with hqueue | hworker
    · exact List.mem_of_mem_drop hqueue
    · exact hs.worker.append ▸ List.mem_append_left _ (List.mem_of_mem_drop hworker)
  exact hs.audioQueue.sublist.subset hqueue

/-- A new decoder is for a file of which nothing has been read. -/
theorem fresh_openAudio (h : Fresh s) (hs : Orderly s) (hdated : Dated s)
    {format : AVFormatContext} {r : OpenResults} {opened : Bool} {component : CodecComponent}
    (hat : s.scheduler = .openAudio format r)
    (hopened : FFAudio.openCodec format r.audio s.audio.component = some (opened, component))
    (haudio : s'.audio = s.audio.opened .audio format r.audio s.files component)
    (hpackets : s'.packets = s.packets) : Fresh s' ↔ CaughtUp s .scheduler := by
  obtain ⟨hmissing, hfound⟩ := FFAudio.openCodec_spec hopened
  have hahead : ∀ packet, Ahead s' packet ↔ Ahead s packet := by
    intro packet
    unfold Ahead
    rw [hpackets]
  unfold Fresh
  rw [haudio]
  simp only [hahead]
  by_cases hf : FFPlayer.Found .audio format r.audio
  · rw [Codec.opened_found hf]
    constructor
    · rintro hall format' r' - - - packet hpacket
      have hlt := (hdated packet (hpacket.read hs)).2 (by rw [hat]; rfl)
      exact absurd (hall (hfound hf).1 packet hpacket) hlt.ne
    · intro hcaught _ packet hpacket
      exact absurd hpacket (hcaught format r rfl hat hf packet)
  · rw [Codec.opened_missing hf]
    refine iff_of_true (fun hcontext => h ((hmissing hf).2.symm.trans hcontext)) ?_
    rintro format' r' - hat' hf'
    rw [hat] at hat'
    cases hat'
    exact absurd hf' hf

/-- A pass after which nothing new is ahead of the worker. -/
theorem Fresh.pass (h : Fresh s) (hs : Orderly s) {k l : Keeper}
    {packets : Custody Keeper AVPacket} (hpass : s.packets.pass k l = some packets) (hkl : k ≠ l)
    (hto : l = .audioQueue ∨ l = .worker → k = .audioQueue ∨ k = .worker)
    (haudio : s'.audio = s.audio) (hpackets : s'.packets = packets) : Fresh s' := by
  intro hcontext packet hpacket
  rw [haudio] at *
  apply h hcontext packet
  unfold Ahead at *
  rw [hpackets] at hpacket
  have hmoved : ∀ {m}, m = .audioQueue ∨ m = .worker → packet ∈ packets.holds m →
      packet ∈ s.packets.holds m ∨ packet ∈ s.packets.holds .audioQueue ∨
        packet ∈ s.packets.holds .worker := by
    intro m hm hmem
    rcases Custody.mem_holds_pass hs.within hpass hkl hmem with hold | ⟨rfl, hfrom⟩
    · exact Or.inl hold
    · rcases hto hm with rfl | rfl
      · exact Or.inr (Or.inl hfrom)
      · exact Or.inr (Or.inr hfrom)
  rcases hpacket with hqueue | hworker
  · exact (hmoved (Or.inl rfl) hqueue).elim Or.inl id
  · exact (hmoved (Or.inr rfl) hworker).elim Or.inr id

/-- What comes to the queue is of the open file, and so is the decoder. -/
theorem Fresh.routeAudio (h : Fresh s) (hs : Orderly s) (hmatched : Matched s) (hhand : InHand s)
    (hat : s.scheduler = .route) {packet : AVPacket} {rest : List AVPacket}
    (hholds : s.packets.holds .scheduler = packet :: rest) {packets : Custody Keeper AVPacket}
    (hpass : s.packets.pass .scheduler
      (if s.audio.context = true then .audioQueue else .lost) = some packets)
    (haudio : s'.audio = s.audio) (hpackets : s'.packets = packets) : Fresh s' := by
  obtain ⟨hdecodes, -⟩ := hmatched.decodes hhand hat hholds
  rw [if_pos hdecodes.context] at hpass
  intro hcontext other hother
  rw [haudio] at *
  unfold Ahead at hother
  rw [hpackets] at hother
  rcases hother with hqueue | hworker
  · rcases Custody.mem_holds_pass hs.within hpass (by decide) hqueue with hold | ⟨-, hfrom⟩
    · exact h hcontext other (Or.inl hold)
    · exact (hhand other hfrom).2.trans hdecodes.file.symm
  · rw [Custody.holds_pass_of_ne hpass (by decide) (by decide)] at hworker
    exact h hcontext other (Or.inr hworker)

theorem Fresh.of_scheduler (h : Fresh s) (hs : Orderly s) (hmatched : Matched s)
    (hhand : InHand s) (hdated : Dated s) (hstep : SchedulerStep s input s') :
    Fresh s' ↔ CaughtUp s input := by
  have helse : (∀ format r, s.scheduler ≠ .openAudio format r) → Fresh s' →
      (Fresh s' ↔ CaughtUp s input) :=
    fun hnot hfresh => iff_of_true hfresh fun format r _ hat => absurd hat (hnot format r)
  cases hstep with
  | audioFailed hat hopened | audioOpened hat hopened =>
      exact fresh_openAudio h hs hdated hat hopened rfl rfl
  | openFailed hat | openUnknown hat | openFile hat | videoOpened hat | closeTask hat
  | endOfFile hat | playTask hat | pauseTask hat | moveTask hat | skip hat | sync _ hat
  | closeVideo hat | drained hat => exact helse (by simp [hat]) h
  | videoFailed hat | closeAudio hat => exact helse (by simp [hat]) fun hcontext => nomatch hcontext
  | read hat =>
      refine helse (by simp [hat]) fun hcontext packet hpacket => h hcontext packet ?_
      unfold Ahead at *
      rwa [Custody.holds_give_of_ne (by decide), Custody.holds_give_of_ne (by decide)] at hpacket
  | routeAudio hat hholds _ hpass =>
      exact helse (by simp [hat]) (h.routeAudio hs hmatched hhand hat hholds hpass rfl rfl)
  | routeVideo hat _ _ hpass =>
      refine helse (by simp [hat]) ?_
      split at hpass <;> exact h.pass hs hpass (by decide) (by decide) rfl rfl
  | routeOther hat hpass | drain hat hpass =>
      exact helse (by simp [hat]) (h.pass hs hpass (by decide) (by decide) rfl rfl)

theorem Fresh.step (h : Fresh s) (hs : Orderly s) (hmatched : Matched s) (hhand : InHand s)
    (hdated : Dated s) (hstep : Playback.step s input = some s') :
    Fresh s' ↔ CaughtUp s input := by
  rcases step_cases hstep with hthread | ⟨r, rfl, hthread⟩ | ⟨r, rfl, hthread⟩
  · exact h.of_scheduler hs hmatched hhand hdated hthread
  · refine iff_of_true ?_ fun _ _ hinput => nomatch hinput
    cases hthread with
    | pop _ hpass | free _ hpass | fail _ _ hpass =>
        exact h.pass hs hpass (by decide) (by decide) rfl rfl
    | check | send | frame => exact h
  · refine iff_of_true ?_ fun _ _ hinput => nomatch hinput
    cases hthread with
    | take _ hpass | free _ hpass | fail _ _ hpass =>
        exact h.pass hs hpass (by decide) (by decide) rfl rfl
    | wait | look | compare | miss | send | frame => exact h

/-- Where the streams of all files are found, the audio decodes every packet with a decoder for
its own file if and only if, whenever such a decoder is opened, the worker has nothing left of
the files before. -/
theorem audioFresh_iff (inputs : List Input) (s : State) (hrun : machine.run inputs = some s)
    (hknown : machine.Always Known inputs) :
    machine.Throughout Fresh inputs ↔ machine.Always CaughtUp inputs := by
  refine Machine.run_induction (M := machine)
    (P := fun inputs _ => machine.Always Known inputs →
      (machine.Throughout Fresh inputs ↔ machine.Always CaughtUp inputs))
    ?_ ?_ inputs s hrun hknown
  · exact fun _ => iff_of_true (Machine.throughout_nil.mpr nofun) (Machine.always_nil _)
  · intro inputs s input s' hrun ih hstep hknown
    obtain ⟨hfront, -⟩ := (Machine.always_concat inputs input).mp hknown
    obtain ⟨hmatched, hhand⟩ := matched_of_run inputs s hrun hfront
    have hlast := Machine.run_concat_eq_some.mpr ⟨s, hrun, hstep⟩
    rw [Machine.throughout_concat, Machine.always_concat, ← ih hfront]
    refine and_congr_right fun hbefore => ?_
    have hfresh : Fresh s := hbefore.last hrun
    have hiff := hfresh.step (orderly_run hrun) hmatched hhand (dated_run hrun) hstep
    simp only [hlast, hrun, Option.some.injEq, forall_eq']
    exact hiff

theorem audioFresh_played :
    (machine.Throughout Fresh played ↔ machine.Always CaughtUp played) ∧
      machine.Always CaughtUp played ∧
      (machine.Throughout Fresh overtaken ↔ machine.Always CaughtUp overtaken) ∧
      ¬ machine.Always CaughtUp overtaken := by
  obtain ⟨s, hs⟩ := Option.isSome_iff_exists.mp isSome_played
  obtain ⟨s', hs'⟩ := Option.isSome_iff_exists.mp isSome_overtaken
  exact ⟨audioFresh_iff played s hs known_played, by decide +kernel,
    audioFresh_iff overtaken s' hs' (by decide +kernel), by decide +kernel⟩

/-! ## The video -/

/-- A file is opened only when the video is closed. -/
def Reopened (s : State) : Input → Prop
  | .openTask _ => s.video.context = false
  | _ => True

instance decidableReopened (s : State) : ∀ input, Decidable (Reopened s input)
  | .openTask _ => inferInstanceAs (Decidable (s.video.context = false))
  | .closeTask | .playTask | .pauseTask | .moveTask | .onRepeat _ _ | .scheduler | .worker _
  | .video _ => isTrue trivial

/-- The queue of the video is empty unless a file is open, or is just being closed. -/
structure Current (s : State) : Prop where
  opening : s.scheduler.opening = true → s.video.context = false
  closed : s.video.context = false → s.scheduler ≠ .drain → s.packets.holds .videoQueue = []
  fresh : s.video.context = true →
    ∀ packet ∈ s.packets.holds .videoQueue, packet.file = s.video.file

/-- A step that takes from the queue at most. -/
theorem Current.shrink (h : Current s)
    (hopening : s'.scheduler.opening = true → s.scheduler.opening = true)
    (hdrain : s'.scheduler ≠ .drain → s.scheduler ≠ .drain)
    (hvideo : s'.video.component = s.video.component ∧ s'.video.file = s.video.file)
    (hqueue : ∀ packet ∈ s'.packets.holds .videoQueue, packet ∈ s.packets.holds .videoQueue) :
    Current s' := by
  have hcontext : s'.video.context = s.video.context :=
    congrArg CodecComponent.context hvideo.1
  refine ⟨?_, ?_, ?_⟩
  · rw [hcontext]
    exact fun hat => h.opening (hopening hat)
  · rw [hcontext]
    intro hclosed hat
    have hempty := h.closed hclosed (hdrain hat)
    exact List.eq_nil_iff_forall_not_mem.mpr fun packet hpacket =>
      List.not_mem_nil (hempty ▸ hqueue packet hpacket)
  · rw [hcontext, hvideo.2]
    exact fun hopen packet hpacket => h.fresh hopen packet (hqueue packet hpacket)

/-- A decoder is opened while the queue is empty. -/
theorem Current.openVideo (h : Current s) {format : AVFormatContext} {r : OpenResults}
    (hat : s.scheduler = .openVideo format r) (hscheduler : s'.scheduler = .idle)
    (hpackets : s'.packets = s.packets) : Current s' := by
  have hempty : s'.packets.holds .videoQueue = [] := by
    rw [hpackets]
    exact h.closed (h.opening (by rw [hat]; rfl)) (by simp [hat])
  refine ⟨?_, fun _ _ => hempty, ?_⟩
  · rw [hscheduler]
    exact nofun
  · rw [hempty]
    exact fun _ => nofun

/-- What comes to the queue is of the open file, and so is the decoder. -/
theorem Current.routeVideo (h : Current s) (hs : Orderly s) (hmatched : Matched s)
    (hhand : InHand s) (hat : s.scheduler = .route) {packet : AVPacket} {rest : List AVPacket}
    (hholds : s.packets.holds .scheduler = packet :: rest) {packets : Custody Keeper AVPacket}
    (hpass : s.packets.pass .scheduler
      (if s.video.context = true then .videoQueue else .lost) = some packets)
    (hvideo : s'.video = s.video) (hscheduler : s'.scheduler = .idle)
    (hpackets : s'.packets = packets) : Current s' := by
  obtain ⟨-, hdecodes⟩ := hmatched.decodes hhand hat hholds
  rw [if_pos hdecodes.context] at hpass
  refine ⟨?_, ?_, ?_⟩
  · rw [hscheduler]
    exact nofun
  · rw [hvideo, hdecodes.context]
    exact nofun
  · rw [hvideo, hpackets]
    intro hopen other hother
    rcases Custody.mem_holds_pass hs.within hpass (by decide) hother with hold | ⟨-, hfrom⟩
    · exact h.fresh hopen other hold
    · exact (hhand other hfrom).2.trans hdecodes.file.symm

theorem Current.of_scheduler (h : Current s) (hs : Orderly s) (hmatched : Matched s)
    (hhand : InHand s) (hreopened : Reopened s input) (hstep : SchedulerStep s input s') :
    Current s' := by
  cases hstep with
  | openFile hat =>
      exact ⟨fun _ => hreopened, fun hcontext _ => h.closed hcontext (by simp [hat]), h.fresh⟩
  | audioOpened hat =>
      exact h.shrink (fun _ => by rw [hat]; rfl) (fun _ => by simp [hat]) ⟨rfl, rfl⟩ fun _ => id
  | videoFailed hat | videoOpened hat => exact h.openVideo hat rfl rfl
  | audioFailed hat | closeTask hat | endOfFile hat | closeAudio hat | sync _ hat =>
      exact h.shrink nofun (fun _ => by simp [hat]) ⟨rfl, rfl⟩ fun _ => id
  | closeVideo => exact ⟨nofun, fun _ hat => absurd rfl hat, nofun⟩
  | drain hat hpass =>
      refine h.shrink id id ⟨rfl, rfl⟩ fun packet hpacket => ?_
      rcases Custody.mem_holds_pass hs.within hpass (by decide) hpacket with hold | ⟨hne, -⟩
      · exact hold
      · cases hne
  | drained hat hempty => exact ⟨nofun, fun _ _ => hempty, fun _ => hempty ▸ nofun⟩
  | read hat =>
      refine h.shrink nofun (fun _ => by simp [hat]) ⟨rfl, rfl⟩ fun packet hpacket => ?_
      rwa [Custody.holds_give_of_ne (by decide)] at hpacket
  | routeAudio hat _ _ hpass =>
      refine h.shrink nofun (fun _ => by simp [hat]) ⟨rfl, rfl⟩ fun packet hpacket => ?_
      split at hpass <;> rwa [Custody.holds_pass_of_ne hpass (by decide) (by decide)] at hpacket
  | routeVideo hat hholds _ hpass =>
      exact h.routeVideo hs hmatched hhand hat hholds hpass rfl rfl rfl
  | routeOther hat hpass =>
      refine h.shrink nofun (fun _ => by simp [hat]) ⟨rfl, rfl⟩ fun packet hpacket => ?_
      rwa [Custody.holds_pass_of_ne hpass (by decide) (by decide)] at hpacket
  | openFailed | openUnknown | playTask | pauseTask | moveTask | skip =>
      exact h.shrink id id ⟨rfl, rfl⟩ fun _ => id

theorem Current.step (h : Current s) (hs : Orderly s) (hmatched : Matched s) (hhand : InHand s)
    (hreopened : Reopened s input) (hstep : Playback.step s input = some s') : Current s' := by
  rcases step_cases hstep with hthread | ⟨r, -, hthread⟩ | ⟨r, -, hthread⟩
  · exact h.of_scheduler hs hmatched hhand hreopened hthread
  · obtain ⟨-, -, -, hqueue, -⟩ := hthread.keeps
    cases hthread <;> exact h.shrink id id ⟨rfl, rfl⟩ fun _ hpacket => hqueue ▸ hpacket
  · cases hthread with
    | take hat hpass =>
        refine h.shrink id id ⟨rfl, rfl⟩ fun packet hpacket => ?_
        rcases Custody.mem_holds_pass hs.within hpass (by decide) hpacket with hold | ⟨hne, -⟩
        · exact hold
        · cases hne
    | free _ hpass | fail _ _ hpass =>
        refine h.shrink id id ⟨rfl, rfl⟩ fun packet hpacket => ?_
        rwa [Custody.holds_pass_of_ne hpass (by decide) (by decide)] at hpacket
    | wait | look | compare | miss | send | frame =>
        exact h.shrink id id ⟨rfl, rfl⟩ fun _ => id

/-- Where the streams of all files are found and each is opened with the video closed, the queue
of the video holds packets of the file alone that its decoder is for. -/
theorem videoFresh_of_run (inputs : List Input) (s : State) (hrun : machine.run inputs = some s)
    (hknown : machine.Always Known inputs) (hreopened : machine.Always Reopened inputs)
    (hcontext : s.video.context = true) :
    ∀ packet ∈ s.packets.holds .videoQueue, packet.file = s.video.file := by
  have hcurrent : Current s := by
    refine Machine.run_induction (M := machine)
      (P := fun inputs s => machine.Always Known inputs → machine.Always Reopened inputs →
        Current s) ?_ ?_ inputs s hrun hknown hreopened
    · exact fun _ _ => ⟨nofun, fun _ _ => rfl, nofun⟩
    · intro inputs s input s' hrun ih hstep hknown hreopened
      obtain ⟨hknownFront, -⟩ := (Machine.always_concat inputs input).mp hknown
      obtain ⟨hreopenedFront, hlast⟩ := (Machine.always_concat inputs input).mp hreopened
      obtain ⟨hmatched, hhand⟩ := matched_of_run inputs s hrun hknownFront
      exact (ih hknownFront hreopenedFront).step (orderly_run hrun) hmatched hhand
        (hlast s hrun) hstep
  exact hcurrent.fresh hcontext

theorem videoFresh_played : ∃ s, machine.run played = some s ∧
    ∀ packet ∈ s.packets.holds .videoQueue, packet.file = s.video.file := by
  obtain ⟨s, hs⟩ := Option.isSome_iff_exists.mp isSome_played
  refine ⟨s, hs, videoFresh_of_run played s hs known_played (by decide +kernel) ?_⟩
  obtain rfl := Option.some.inj hs
  rfl

end Playback

end Ffmpeg

end RyuLib
