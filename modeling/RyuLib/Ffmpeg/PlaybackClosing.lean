import RyuLib.Ffmpeg.PacketRoutes

/-!
# Closing while the threads decode

`close` sets the contexts to null and waits for nobody, and the threads that decode read through
them.  They never read through a null pointer exactly when each close finds them between two
packets, and the thread of the video finds no packets any more while the queue is drained
(`goesOn_iff`).
-/

namespace RyuLib

open Foundations

namespace Ffmpeg

namespace Playback

/-- The next step reads through `context_`. -/
def WorkerAt.reads : WorkerAt → Bool
  | .sending | .receiving => true
  | .popping | .checking => false

def VideoAt.reads : VideoAt → Bool
  | .comparing | .sending | .receiving => true
  | .looking | .taking => false

/-- Whatever the decoders return, the thread of the video can go on, and so can the worker
unless it waits for a packet. -/
def GoesOn (s : State) : Prop :=
  ∀ r, s.videoStep r ≠ none ∧ (s.worker ≠ .popping → s.workerStep r ≠ none)

/-- A context is set to null only when the thread that reads through it does something else, and
no packet is found when it is null. -/
def Spared (s : State) : Input → Prop
  | .scheduler =>
      match s.scheduler with
      | .openVideo format r =>
          -- if the open fails, the audio is closed
          (∃ component, FFVideo.openCodec format r.video s.video.component =
            some (false, component)) → s.worker.reads = false
      | .closeAudio => s.worker.reads = false
      | .closeVideo => s.thread.reads = false
      | _ => True
  | .video _ => s.thread.reads = false → s.packets.holds .videoQueue ≠ [] → s.video.context = true
  | _ => True

/-- A context of the worker's or of the video is about to be set to null while it is read
through. -/
def disturbs (s : State) : Bool :=
  match s.scheduler with
  | .openVideo format r =>
      decide ((FFVideo.openCodec format r.video s.video.component).map Prod.fst = some false) &&
        s.worker.reads
  | .closeAudio => s.worker.reads
  | .closeVideo => s.thread.reads
  | _ => false

instance decidableSpared (s : State) : ∀ input, Decidable (Spared s input)
  | .scheduler => decidable_of_iff (disturbs s = false) (by
      unfold disturbs Spared
      cases s.scheduler <;> simp)
  | .video _ => inferInstanceAs (Decidable (s.thread.reads = false →
      s.packets.holds .videoQueue ≠ [] → s.video.context = true))
  | .openTask _ | .closeTask | .playTask | .pauseTask | .moveTask | .onRepeat _ _ | .worker _ =>
      isTrue trivial

/-- What is read through is there. -/
def Reaches (s : State) : Prop :=
  (s.worker.reads = true → s.audio.context = true) ∧
    (s.thread.reads = true → s.video.context = true)

variable {s s' : State} {input : Input} {r : Received}

/-- A keeper that holds something can pass it on. -/
theorem pass_ne_none {k l : Keeper} (h : s.packets.holds k ≠ []) : s.pass k l ≠ none := by
  unfold State.pass Custody.pass
  cases hholds : s.packets.holds k with
  | nil => exact absurd hholds h
  | cons packet rest => exact nofun

theorem workerStep_ne_none (hs : Orderly s) (hat : s.worker ≠ .popping) :
    s.workerStep r ≠ none ↔ (s.worker.reads = true → s.audio.context = true) := by
  have hhand : s.packets.holds .worker ≠ [] := by
    have hlength := hs.hands.worker
    rw [if_neg hat] at hlength
    exact List.ne_nil_of_length_eq_add_one hlength
  have hpass : ∀ l, s.pass .worker l ≠ none := fun l => pass_ne_none hhand
  unfold State.workerStep
  cases hworker : s.worker with
  | popping => exact absurd hworker hat
  | checking =>
      cases hcontext : s.audio.context <;> simp [hpass, WorkerAt.reads]
  | sending =>
      cases hcontext : s.audio.context <;> simp [WorkerAt.reads]
  | receiving =>
      cases hcontext : s.audio.context
      · simp [WorkerAt.reads]
      · cases r <;> simp [hpass]

theorem videoStep_ne_none (hs : Orderly s) :
    s.videoStep r ≠ none ↔ (s.thread.reads = true → s.video.context = true) := by
  unfold State.videoStep
  cases hthread : s.thread with
  | looking =>
      by_cases hqueue : s.packets.holds .videoQueue = [] <;> simp [hqueue, VideoAt.reads]
  | comparing =>
      cases hcontext : s.video.context
      · simp [VideoAt.reads]
      · by_cases hpts : s.video.pts ≤ s.targetPts <;> simp [hpts]
  | taking =>
      by_cases hqueue : s.packets.holds .videoQueue = []
      · simp [hqueue, VideoAt.reads]
      · simp [hqueue, pass_ne_none hqueue, VideoAt.reads]
  | sending =>
      cases hcontext : s.video.context <;> simp [VideoAt.reads]
  | receiving =>
      have hhand : s.packets.holds .videoThread ≠ [] := by
        have hlength := hs.hands.thread
        rw [if_pos (Or.inr hthread)] at hlength
        exact List.ne_nil_of_length_eq_add_one hlength
      cases hcontext : s.video.context
      · simp [VideoAt.reads]
      · cases r <;> simp [pass_ne_none hhand]

theorem goesOn_iff_reaches (hs : Orderly s) : GoesOn s ↔ Reaches s := by
  constructor
  · intro h
    refine ⟨fun hreads => ?_, (videoStep_ne_none hs).mp (h .again).1⟩
    have hat : s.worker ≠ .popping := fun hpopping => by
      rw [hpopping] at hreads
      cases hreads
    exact (workerStep_ne_none hs hat).mp ((h .again).2 hat) hreads
  · rintro ⟨hworker, hthread⟩ r
    exact ⟨(videoStep_ne_none hs).mpr hthread, fun hat => (workerStep_ne_none hs hat).mpr hworker⟩

/-- An open leaves no context null that was not. -/
theorem context_of_openCodec {type : MediaType} {format : AVFormatContext} {r : CodecResults}
    {c c' : CodecComponent} {opened : Bool} (h : c.openCodec type format r = some (opened, c'))
    (hcontext : c.context = true) : c'.context = true := by
  obtain ⟨hmissing, hfound⟩ := CodecComponent.openCodec_spec h
  by_cases hf : FFPlayer.Found type format r
  · exact (hfound hf).1
  · exact (hmissing hf).2.trans hcontext

theorem context_of_openAudio {format : AVFormatContext} {r : CodecResults} {c c' : CodecComponent}
    {opened : Bool} (h : FFAudio.openCodec format r c = some (opened, c'))
    (hcontext : c.context = true) : c'.context = true := by
  obtain ⟨⟨codecOpened, component⟩, hcodec, hresult⟩ := Option.map_eq_some_iff.mp h
  obtain ⟨-, rfl⟩ := Prod.mk.inj hresult
  exact context_of_openCodec hcodec hcontext

theorem Reaches.of_scheduler (h : Reaches s) (hstep : SchedulerStep s input s') :
    Reaches s' ↔ Spared s input := by
  obtain ⟨hworker, hthread⟩ := h
  cases hstep with
  | audioFailed hat hopened | audioOpened hat hopened =>
      refine iff_of_true ⟨fun hreads => ?_, hthread⟩ (by simp only [Spared, hat])
      exact (congrArg CodecComponent.context (Codec.component_opened ..)).trans
        (context_of_openAudio hopened (hworker hreads))
  | @videoFailed format r component hat hopened =>
      have hvideo : (s.video.opened .video format r.video s.files component).context =
          component.context := congrArg CodecComponent.context (Codec.component_opened ..)
      simp only [Spared, hat]
      constructor
      · rintro ⟨hclosed, -⟩ -
        exact Bool.eq_false_iff.mpr fun hreads => Bool.false_ne_true (hclosed hreads)
      · intro hspared
        refine ⟨fun hreads => ?_, fun hreads => ?_⟩
        · rw [hspared ⟨component, hopened⟩] at hreads
          cases hreads
        · exact hvideo.trans (context_of_openCodec hopened (hthread hreads))
  | @videoOpened format r component hat hopened =>
      have hvideo : (s.video.opened .video format r.video s.files component).context =
          component.context := congrArg CodecComponent.context (Codec.component_opened ..)
      simp only [Spared, hat]
      refine iff_of_true
        ⟨hworker, fun hreads => hvideo.trans (context_of_openCodec hopened (hthread hreads))⟩ ?_
      rintro ⟨other, hfailed⟩
      rw [hopened] at hfailed
      cases hfailed
  | closeAudio hat =>
      simp only [Spared, hat]
      constructor
      · rintro ⟨hclosed, -⟩
        exact Bool.eq_false_iff.mpr fun hreads => Bool.false_ne_true (hclosed hreads)
      · intro hspared
        refine ⟨fun hreads => ?_, hthread⟩
        rw [hspared] at hreads
        cases hreads
  | closeVideo hat =>
      simp only [Spared, hat]
      constructor
      · rintro ⟨-, hclosed⟩
        exact Bool.eq_false_iff.mpr fun hreads => Bool.false_ne_true (hclosed hreads)
      · intro hspared
        refine ⟨hworker, fun hreads => ?_⟩
        rw [hspared] at hreads
        cases hreads
  | routeAudio hat | routeVideo hat | routeOther hat | sync _ hat | drain hat | drained hat =>
      exact iff_of_true ⟨hworker, hthread⟩ (by simp only [Spared, hat])
  | openFailed | openUnknown | openFile | closeTask | endOfFile | playTask | pauseTask
  | moveTask | skip | read => exact iff_of_true ⟨hworker, hthread⟩ trivial

/-- The worker goes on to read only behind its comparison with null. -/
theorem Reaches.of_worker (h : Reaches s) (hstep : WorkerStep s r s') : Reaches s' := by
  obtain ⟨hworker, hthread⟩ := h
  cases hstep with
  | check _ hcontext | send _ hcontext | frame _ _ hcontext =>
      exact ⟨fun _ => hcontext, hthread⟩
  | pop | free | fail => exact ⟨nofun, hthread⟩

/-- The thread of the video compares nothing with null before it reads. -/
theorem Reaches.of_video (h : Reaches s) (hstep : VideoStep s r s') :
    Reaches s' ↔ Spared s (.video r) := by
  obtain ⟨hworker, hthread⟩ := h
  have hbetween : s.thread.reads = false → s.packets.holds .videoQueue ≠ [] →
      (Spared s (.video r) ↔ s.video.context = true) :=
    fun hreads hqueue => ⟨fun h => h hreads hqueue, fun h _ _ => h⟩
  have hwithin : s.thread.reads = true → Spared s (.video r) :=
    fun hreads hnot => absurd (hreads.symm.trans hnot) Bool.true_eq_false.mp
  cases hstep with
  | wait hat hempty => exact iff_of_true ⟨hworker, hthread⟩ fun _ hne => absurd hempty hne
  | look hat hqueue =>
      rw [hbetween (by rw [hat]; rfl) hqueue]
      exact ⟨fun h => h.2 rfl, fun h => ⟨hworker, fun _ => h⟩⟩
  | compare hat hcontext =>
      exact iff_of_true ⟨hworker, fun _ => hcontext⟩ (hwithin (by rw [hat]; rfl))
  | miss hat hempty => exact iff_of_true ⟨hworker, nofun⟩ fun _ hne => absurd hempty hne
  | take hat hpass =>
      have hqueue : s.packets.holds .videoQueue ≠ [] := by
        obtain ⟨packet, rest, hholds, -⟩ := Custody.pass_eq_some.mp hpass
        rw [hholds]
        exact List.cons_ne_nil packet rest
      rw [hbetween (by rw [hat]; rfl) hqueue]
      exact ⟨fun h => h.2 rfl, fun h => ⟨hworker, fun _ => h⟩⟩
  | send hat hcontext | frame _ hat hcontext =>
      exact iff_of_true ⟨hworker, fun _ => hcontext⟩ (hwithin (by rw [hat]; rfl))
  | free hat | fail hat => exact iff_of_true ⟨hworker, nofun⟩ (hwithin (by rw [hat]; rfl))

theorem Reaches.step (h : Reaches s) (hstep : Playback.step s input = some s') :
    Reaches s' ↔ Spared s input := by
  rcases step_cases hstep with hthread | ⟨r, rfl, hthread⟩ | ⟨r, rfl, hthread⟩
  · exact h.of_scheduler hthread
  · exact iff_of_true (h.of_worker hthread) trivial
  · exact h.of_video hthread

/-- The worker and the thread of the video never read through a null pointer if and only if
every close finds them between two packets, and the second finds no packet while its context is
null. -/
theorem goesOn_iff (inputs : List Input) (s : State) (hrun : machine.run inputs = some s) :
    machine.Throughout GoesOn inputs ↔ machine.Always Spared inputs := by
  have hsame : ∀ {inputs s}, machine.run inputs = some s → (GoesOn s ↔ Reaches s) :=
    fun hrun => goesOn_iff_reaches (orderly_run hrun)
  refine Machine.throughout_iff_always (M := machine) ?_ ?_ hrun
  · have hinit : machine.run [] = some machine.init := rfl
    exact (hsame hinit).mpr ⟨nofun, nofun⟩
  · intro inputs s input s' hrun hthroughout _ hstep
    have hreaches : Reaches s := (hsame hrun).mp (hthroughout.last hrun)
    rw [hsame (Machine.run_concat_eq_some.mpr ⟨s, hrun, hstep⟩)]
    exact hreaches.step hstep

theorem goesOn_played :
    (machine.Throughout GoesOn played ↔ machine.Always Spared played) ∧
      machine.Always Spared played ∧
      (machine.Throughout GoesOn overtaken ↔ machine.Always Spared overtaken) ∧
      ¬ machine.Always Spared overtaken := by
  obtain ⟨s, hs⟩ := Option.isSome_iff_exists.mp isSome_played
  obtain ⟨s', hs'⟩ := Option.isSome_iff_exists.mp isSome_overtaken
  exact ⟨goesOn_iff played s hs, by decide +kernel, goesOn_iff overtaken s' hs', by decide +kernel⟩

end Playback

end Ffmpeg

end RyuLib
