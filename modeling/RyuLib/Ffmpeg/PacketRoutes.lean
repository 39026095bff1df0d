import RyuLib.Ffmpeg.Playback

/-!
# The way of a packet

From the thread that reads it a packet goes to the queue of its stream, or is freed if it
belongs to neither; from a queue to the thread that decodes it; and from there it is freed, or
lost if the decoder fails.

* `kept_of_run`: whatever the threads do and when, every packet is in one of these places, and
  there once; the audio is decoded in the order of the file, and so is what is decoded of the
  video.
-/

namespace RyuLib

open Foundations

namespace Ffmpeg

namespace Playback

/-- Where a packet can go from each place. -/
def next : Keeper → List Keeper
  | .scheduler => [.audioQueue, .videoQueue, .freed, .lost]
  | .audioQueue => [.worker]
  | .worker => [.freed, .lost]
  | .videoQueue => [.videoThread, .freed]
  | .videoThread => [.freed, .lost]
  | .freed | .lost => []

abbrev Route (k l : Keeper) : Prop := l ∈ next k

theorem ne_of_route {k l : Keeper} (h : Route k l) : k ≠ l ∧ l ≠ .scheduler := by
  revert h
  cases k <;> cases l <;> decide

variable {s s' : State} {input : Input} {r : Received}

/-- One packet at a time moves, and only along a route. -/
theorem moves_of_step (h : step s input = some s') :
    s.packets.Moves .scheduler Route s'.packets := by
  rcases step_cases h with hstep | ⟨r, -, hstep⟩ | ⟨r, -, hstep⟩
  · cases hstep with
    | read => exact .give _
    | routeAudio _ _ _ hpass | routeVideo _ _ _ hpass =>
        split at hpass <;> exact .pass (by decide) hpass
    | routeOther _ hpass | drain _ hpass => exact .pass (by decide) hpass
    | openFailed | openUnknown | openFile | audioFailed | audioOpened | videoFailed | videoOpened
    | closeTask | endOfFile | playTask | pauseTask | moveTask | skip | sync | closeAudio
    | closeVideo | drained => exact .stay
  · cases hstep with
    | pop _ hpass | free _ hpass | fail _ _ hpass => exact .pass (by decide) hpass
    | check | send | frame => exact .stay
  · cases hstep with
    | take _ hpass | free _ hpass | fail _ _ hpass => exact .pass (by decide) hpass
    | wait | look | compare | miss | send | frame => exact .stay

/-! ## What each thread leaves alone -/

theorem SchedulerStep.keeps (h : SchedulerStep s input s') :
    s'.worker = s.worker ∧ s'.thread = s.thread ∧
      s'.packets.holds .worker = s.packets.holds .worker ∧
        s'.packets.holds .videoThread = s.packets.holds .videoThread := by
  cases h with
  | read =>
      exact ⟨rfl, rfl, Custody.holds_give_of_ne (by decide), Custody.holds_give_of_ne (by decide)⟩
  | routeAudio _ _ _ hpass | routeVideo _ _ _ hpass =>
      split at hpass <;>
        exact ⟨rfl, rfl, Custody.holds_pass_of_ne hpass (by decide) (by decide),
          Custody.holds_pass_of_ne hpass (by decide) (by decide)⟩
  | routeOther _ hpass | drain _ hpass =>
      exact ⟨rfl, rfl, Custody.holds_pass_of_ne hpass (by decide) (by decide),
        Custody.holds_pass_of_ne hpass (by decide) (by decide)⟩
  | openFailed | openUnknown | openFile | audioFailed | audioOpened | videoFailed | videoOpened
  | closeTask | endOfFile | playTask | pauseTask | moveTask | skip | sync | closeAudio
  | closeVideo | drained => exact ⟨rfl, rfl, rfl, rfl⟩

theorem WorkerStep.keeps (h : WorkerStep s r s') :
    s'.scheduler = s.scheduler ∧ s'.thread = s.thread ∧
      s'.packets.holds .scheduler = s.packets.holds .scheduler ∧
        s'.packets.holds .videoQueue = s.packets.holds .videoQueue ∧
          s'.packets.holds .videoThread = s.packets.holds .videoThread := by
  cases h with
  | pop _ hpass | free _ hpass | fail _ _ hpass =>
      exact ⟨rfl, rfl, Custody.holds_pass_of_ne hpass (by decide) (by decide),
        Custody.holds_pass_of_ne hpass (by decide) (by decide),
        Custody.holds_pass_of_ne hpass (by decide) (by decide)⟩
  | check | send | frame => exact ⟨rfl, rfl, rfl, rfl, rfl⟩

theorem VideoStep.keeps (h : VideoStep s r s') :
    s'.scheduler = s.scheduler ∧ s'.worker = s.worker ∧
      s'.packets.holds .scheduler = s.packets.holds .scheduler ∧
        s'.packets.holds .audioQueue = s.packets.holds .audioQueue ∧
          s'.packets.holds .worker = s.packets.holds .worker := by
  cases h with
  | take _ hpass | free _ hpass | fail _ _ hpass =>
      exact ⟨rfl, rfl, Custody.holds_pass_of_ne hpass (by decide) (by decide),
        Custody.holds_pass_of_ne hpass (by decide) (by decide),
        Custody.holds_pass_of_ne hpass (by decide) (by decide)⟩
  | wait | look | compare | miss | send | frame => exact ⟨rfl, rfl, rfl, rfl, rfl⟩

/-! ## Packets in hand -/

/-- A thread has a packet in hand just while it does something with it. -/
structure Hands (s : State) : Prop where
  scheduler : (s.packets.holds .scheduler).length = if s.scheduler = .route then 1 else 0
  worker : (s.packets.holds .worker).length = if s.worker = .popping then 0 else 1
  thread : (s.packets.holds .videoThread).length =
    if s.thread = .sending ∨ s.thread = .receiving then 1 else 0

theorem SchedulerStep.hand (h : SchedulerStep s input s') (hwithin : s.packets.Within)
    (hs : (s.packets.holds .scheduler).length = if s.scheduler = .route then 1 else 0) :
    (s'.packets.holds .scheduler).length = if s'.scheduler = .route then 1 else 0 := by
  cases h with
  | read hat _ _ =>
      rw [hat] at hs
      rw [Custody.holds_give_self hwithin, List.length_append, hs]
      rfl
  | routeAudio hat _ _ hpass | routeVideo hat _ _ hpass =>
      rw [hat] at hs
      split at hpass <;>
        exact Nat.succ.inj ((Custody.length_pass_from hpass (by decide)).trans hs)
  | routeOther hat hpass =>
      rw [hat] at hs
      exact Nat.succ.inj ((Custody.length_pass_from hpass (by decide)).trans hs)
  | drain hat hpass =>
      rw [Custody.holds_pass_of_ne hpass (by decide) (by decide)]
      exact hs
  | closeTask hat | endOfFile hat _ _ => simpa [hat, State.doClose] using hs
  | openFailed hat _ | openUnknown hat _ _ | openFile hat _ _ | audioFailed hat _
  | audioOpened hat _ | videoFailed hat _ | videoOpened hat _ | playTask hat | pauseTask hat
  | moveTask hat _ | skip hat _ | sync _ hat | closeAudio hat | closeVideo hat
  | drained hat _ => simpa [hat] using hs

theorem WorkerStep.hand (h : WorkerStep s r s') (hwithin : s.packets.Within)
    (hs : (s.packets.holds .worker).length = if s.worker = .popping then 0 else 1) :
    (s'.packets.holds .worker).length = if s'.worker = .popping then 0 else 1 := by
  cases h with
  | pop hat hpass =>
      rw [hat] at hs
      rw [Custody.length_pass_to hwithin hpass (by decide), hs]
      rfl
  | free hat hpass =>
      rw [if_neg hat] at hs
      exact Nat.succ.inj ((Custody.length_pass_from hpass (by decide)).trans hs)
  | fail hat _ hpass =>
      rw [hat] at hs
      exact Nat.succ.inj ((Custody.length_pass_from hpass (by decide)).trans hs)
  | check hat _ | send hat _ | frame _ hat _ => simpa [hat] using hs

theorem VideoStep.hand (h : VideoStep s r s') (hwithin : s.packets.Within)
    (hs : (s.packets.holds .videoThread).length =
      if s.thread = .sending ∨ s.thread = .receiving then 1 else 0) :
    (s'.packets.holds .videoThread).length =
      if s'.thread = .sending ∨ s'.thread = .receiving then 1 else 0 := by
  cases h with
  | take hat hpass =>
      rw [hat] at hs
      rw [Custody.length_pass_to hwithin hpass (by decide), hs]
      rfl
  | free hat hpass | fail hat _ hpass =>
      rw [hat] at hs
      exact Nat.succ.inj ((Custody.length_pass_from hpass (by decide)).trans hs)
  | compare hat _ hnext =>
      rcases hnext with ⟨rfl, -⟩ | rfl <;> simpa [hat] using hs
  | wait => exact hs
  | look hat _ | miss hat _ | send hat _ | frame _ hat _ => simpa [hat] using hs

theorem Hands.step (hs : Hands s) (hwithin : s.packets.Within) (h : step s input = some s') :
    Hands s' := by
  rcases step_cases h with hstep | ⟨r, -, hstep⟩ | ⟨r, -, hstep⟩
  · obtain ⟨hworker, hthread, hworkerHand, hthreadHand⟩ := hstep.keeps
    refine ⟨hstep.hand hwithin hs.scheduler, ?_, ?_⟩
    · rw [hworkerHand, hworker]
      exact hs.worker
    · rw [hthreadHand, hthread]
      exact hs.thread
  · obtain ⟨hscheduler, hthread, hschedulerHand, -, hthreadHand⟩ := hstep.keeps
    refine ⟨?_, hstep.hand hwithin hs.worker, ?_⟩
    · rw [hschedulerHand, hscheduler]
      exact hs.scheduler
    · rw [hthreadHand, hthread]
      exact hs.thread
  · obtain ⟨hscheduler, hworker, hschedulerHand, -, hworkerHand⟩ := hstep.keeps
    refine ⟨?_, ?_, hstep.hand hwithin hs.thread⟩
    · rw [hschedulerHand, hscheduler]
      exact hs.scheduler
    · rw [hworkerHand, hworker]
      exact hs.worker

/-! ## Packets are numbered -/

/-- The packets that were read are those with the numbers from 0 on. -/
def Numbered (s : State) : Prop :=
  (s.packets.had .scheduler).map AVPacket.number =
    List.range (s.packets.had .scheduler).length

theorem Numbered.nodup (h : Numbered s) : (s.packets.had .scheduler).Nodup :=
  List.Nodup.of_map AVPacket.number (h ▸ List.nodup_range)

/-- What was read stays so, or the packet with the next number is read from the open file. -/
theorem read_of_step (h : step s input = some s') :
    s'.packets.had .scheduler = s.packets.had .scheduler ∨
      ∃ packet : AVPacket, packet.number = (s.packets.had .scheduler).length ∧
        packet.file = s.files ∧
          s' = { s with packets := s.packets.give .scheduler packet, scheduler := .route } := by
  have hpassed : ∀ {k l packets}, s.packets.pass k l = some packets → l ≠ .scheduler →
      packets.had .scheduler = s.packets.had .scheduler := by
    intro k l packets hpass hl
    obtain ⟨a, rest, -, rfl⟩ := Custody.pass_eq_some.mp hpass
    exact Custody.had_moved_of_ne hl.symm
  rcases step_cases h with hstep | ⟨r, -, hstep⟩ | ⟨r, -, hstep⟩
  · cases hstep with
    | read => exact Or.inr ⟨_, rfl, rfl, rfl⟩
    | routeAudio _ _ _ hpass | routeVideo _ _ _ hpass =>
        split at hpass <;> exact Or.inl (hpassed hpass (by decide))
    | routeOther _ hpass | drain _ hpass => exact Or.inl (hpassed hpass (by decide))
    | openFailed | openUnknown | openFile | audioFailed | audioOpened | videoFailed | videoOpened
    | closeTask | endOfFile | playTask | pauseTask | moveTask | skip | sync | closeAudio
    | closeVideo | drained => exact Or.inl rfl
  · cases hstep with
    | pop _ hpass | free _ hpass | fail _ _ hpass => exact Or.inl (hpassed hpass (by decide))
    | check | send | frame => exact Or.inl rfl
  · cases hstep with
    | take _ hpass | free _ hpass | fail _ _ hpass => exact Or.inl (hpassed hpass (by decide))
    | wait | look | compare | miss | send | frame => exact Or.inl rfl

theorem Numbered.step (hs : Numbered s) (h : step s input = some s') : Numbered s' := by
  unfold Numbered at *
  rcases read_of_step h with hsame | ⟨packet, hnumber, -, rfl⟩
  · rw [hsame, hs]
  · rw [Custody.had_give_self, List.map_append, hs, List.length_append,
      List.map_singleton, hnumber, List.length_singleton, List.range_succ]

/-! ## Runs -/

/-- Where the packets are and in which order they get there. -/
structure Kept (s : State) : Prop where
  /-- a packet is in one place -/
  place : ∀ packet ∈ s.packets.had .scheduler, ∃! k, packet ∈ s.packets.holds k
  /-- and there once -/
  once : ∀ k, (s.packets.holds k).Nodup
  hands : Hands s
  audio : s.packets.had .worker ++ s.packets.holds .audioQueue = s.packets.had .audioQueue
  audioOrder : List.Sublist (s.packets.had .audioQueue) (s.packets.had .scheduler)
  video : List.Sublist (s.packets.had .videoThread) (s.packets.had .videoQueue)
  videoOrder : List.Sublist (s.packets.had .videoQueue) (s.packets.had .scheduler)

/-- What carries the induction. -/
structure Orderly (s : State) : Prop where
  within : s.packets.Within
  conserved : s.packets.Conserved .scheduler
  hands : Hands s
  numbered : Numbered s
  worker : s.packets.Feeds .audioQueue .worker
  audioQueue : s.packets.FeedsSome .scheduler .audioQueue
  videoThread : s.packets.FeedsSome .videoQueue .videoThread
  videoQueue : s.packets.FeedsSome .scheduler .videoQueue

theorem Orderly.step (hs : Orderly s) (h : step s input = some s') : Orderly s' := by
  have hmoves := moves_of_step h
  have hne : ∀ {k l : Keeper}, Route k l → k ≠ l := fun hroute => (ne_of_route hroute).1
  have hworker : ∀ m, Route m .worker → m = .audioQueue := by decide
  have hall : ∀ m, Route .audioQueue m → m = .worker := by decide
  have haudio : ∀ m, Route m .audioQueue → m = .scheduler := by decide
  have hthread : ∀ m, Route m .videoThread → m = .videoQueue := by decide
  have hvideo : ∀ m, Route m .videoQueue → m = .scheduler := by decide
  exact
    { within := hs.within.moves hmoves
      conserved := hs.conserved.moves hs.within ne_of_route hmoves
      hands := hs.hands.step hs.within h
      numbered := hs.numbered.step h
      worker := hs.worker.moves hs.within (by decide) hne (hworker _) (hall _) hmoves
      audioQueue := hs.audioQueue.moves hs.within (by decide) hne (haudio _) hmoves
      videoThread := hs.videoThread.moves hs.within (by decide) hne (hthread _) hmoves
      videoQueue := hs.videoQueue.moves hs.within (by decide) hne (hvideo _) hmoves }

theorem orderly_run {inputs : List Input} (hrun : machine.run inputs = some s) : Orderly s := by
  refine Machine.invariant (M := machine) (I := Orderly) ?_ (fun _ _ _ hs h => hs.step h) hrun
  exact
    { within := Custody.within_empty
      conserved := Custody.conserved_empty _
      hands := ⟨rfl, rfl, rfl⟩
      numbered := rfl
      worker := Custody.feeds_empty _ _
      audioQueue := Custody.feedsSome_empty _ _
      videoThread := Custody.feedsSome_empty _ _
      videoQueue := Custody.feedsSome_empty _ _ }

/-- Whatever the threads do and when, each packet that was read is in one place and there once,
a thread has one in hand just while it does something with it, and the queues and the threads
that decode get them in the order of the file. -/
theorem kept_of_run (inputs : List Input) (s : State) (hrun : machine.run inputs = some s) :
    Kept s := by
  have hs := orderly_run hrun
  exact
    { place := fun packet hpacket => hs.conserved.existsUnique hs.numbered.nodup hpacket
      once := hs.conserved.nodup hs.numbered.nodup
      hands := hs.hands
      audio := hs.worker.append
      audioOrder := hs.audioQueue.sublist
      video := hs.videoThread.sublist
      videoOrder := hs.videoQueue.sublist }

theorem kept_played : ∃ s, machine.run played = some s ∧ Kept s := by
  obtain ⟨s, hs⟩ := Option.isSome_iff_exists.mp isSome_played
  exact ⟨s, hs, kept_of_run played s hs⟩

end Playback

end Ffmpeg

end RyuLib
