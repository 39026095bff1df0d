import RyuLib.Capture.FFmpegController
import RyuLib.Pipe.PipeTrack

/-!
# Recorder

The controller opens a pipe for the sound and a pipe for the pictures.  Whenever the microphone
has a block of sound, its callback sends the block to the one and what the buffer holds to the
other.  Each pipe is connected when somebody gets to reading it, and what comes before is
dropped.

* `Recorder.carries_of_run`: these and no others are dropped, and from then on a pipe carries
  all blocks or all pictures of the recording, each once and in order.
* `Recorder.inStep_iff`: the two pipes carry the sound and the picture of the same moments
  exactly when they have missed as many.
-/

namespace RyuLib

open Foundations

/-- What the callback came with, and the message that `send` has made of it. -/
structure Piece where
  bytes : List UInt8
  message : Option PipeSender.Message

/-- One of the two pipes.  `pipe` is the pipe of the recording, `pieces` is what the callback
came with since it began, and `connectedAt` how many of them had come when the worker
connected the pipe. -/
structure Track where
  threads : Threads (Worker.Party PipeSender.Client) (PipeSender PipeSender.Client)
    PipeSender.Point := (PipeSender.program PipeSender.Client).machine.init
  pipe : Option ℕ := none
  pieces : List Piece := []
  connectedAt : Option ℕ := none

namespace Track

open PipeSender

abbrev sender (t : Track) : PipeSender Client := t.threads.shared

/-- The first step that leaves the pipe connected has connected it. -/
def move (t : Track)
    (threads : Threads (Worker.Party Client) (PipeSender Client) Point) : Track :=
  { t with
    threads := threads
    connectedAt := t.connectedAt.or
      (if threads.shared.isConnected = true then some t.pieces.length else none) }

/-- A step that is not a call. -/
def own (t : Track) (party : Worker.Party Client) : Action → Option Track
  | .call _ => none
  | a => ((program Client).machine.step t.threads (party, a)).map t.move

def openPipe (t : Track) (name : String) (created : Option ℤ) : Option Track :=
  ((program Client).machine.step t.threads
    (.client .controller, .call (.openPipe name created))).map fun threads =>
      { t with threads := threads, pipe := created.map fun _ => t.sender.calls }

def close (t : Track) : Option Track :=
  ((program Client).machine.step t.threads (.client .controller, .call .close)).map fun threads =>
    { t with threads := threads }

def send (t : Track) (bytes : List UInt8) : Option Track :=
  ((program Client).machine.step t.threads (.client .capture, .call (.send bytes))).map
    fun threads =>
      { t with threads := threads, pieces := t.pieces ++ [⟨bytes, t.sender.message bytes⟩] }

/-- A recording begins. -/
def restart (t : Track) : Track := { t with pipe := none, pieces := [], connectedAt := none }

/-- The client is between two calls. -/
def free (t : Track) (k : Client) : Bool :=
  match t.threads.points (.client k) with
  | .client none .idle => true
  | _ => false

/-- The worker is through with all tasks, and the pipe is closed. -/
def Settled (t : Track) : Prop :=
  t.sender.queue.queue = [] ∧ (t.threads.points .worker).hand = [] ∧ t.sender.isConnected = false

instance (t : Track) : Decidable t.Settled := inferInstanceAs (Decidable (_ ∧ _ ∧ _))

def sent (t : Track) : List Message := t.pieces.filterMap Piece.message

/-- What has been written to the pipe of the recording. -/
def written (t : Track) : List Message :=
  t.pipe.toList.flatMap fun pipe => (t.sender.writes.filter (·.1 = pipe)).map Prod.snd

/-- How many pieces came before the pipe was connected. -/
def missed (t : Track) : ℕ := t.connectedAt.getD t.pieces.length

/-- The pieces from before the pipe was connected, and no others, were dropped, and the track
has the first of the others. -/
structure Carries (t : Track) : Prop where
  missed : ∀ piece ∈ t.pieces.take t.missed, piece.message = none
  whole : ∀ piece ∈ t.pieces.drop t.missed, piece.message.isSome = true
  written : t.written.map some <+: (t.pieces.drop t.missed).map Piece.message
  bytes : t.written.map Message.bytes <+: (t.pieces.drop t.missed).map Piece.bytes

/-! ## What holds of a track -/

/-- In a recording under way, the pipe has not been closed, so once it is connected it stays
so. -/
structure Orderly (t : Track) (underWay : Bool) : Prop where
  reached : ∃ inputs, (program Client).machine.run inputs = some t.threads
  take : ∃ done handle closes, Take done (t.pipe.map fun pipe => (handle, pipe)) t.sent closes
    t.sender t.threads.points ∧ (underWay = true → closes = 0 ∧
      (t.connectedAt ≠ none → Connects done (t.pipe.map fun pipe => (handle, pipe)) t.sender))
  waits : t.connectedAt = none → t.sender.isConnected = false
  within : t.missed ≤ t.pieces.length
  before : ∀ piece ∈ t.pieces.take t.missed, piece.message = none
  whole : ∀ piece ∈ t.pieces.drop t.missed, piece.message.isSome = true
  bytes : ∀ piece ∈ t.pieces, ∀ message, piece.message = some message → message.bytes = piece.bytes

section

variable {t t' : Track} {underWay : Bool} {party : Worker.Party Client} {a : Action}
  {bytes : List UInt8}

theorem orderly_init (underWay : Bool) : Orderly {} underWay where
  reached := ⟨[], rfl⟩
  take := by
    refine ⟨[], 0, 0, ⟨List.nil_prefix, rfl, rfl, ?_, Or.inl rfl, fun hne => absurd rfl hne⟩,
      fun _ => ⟨rfl, fun hne => absurd rfl hne⟩⟩
    exact fun _ hm => nomatch hm
  waits _ := rfl
  within := le_rfl
  before _ hpiece := nomatch hpiece
  whole _ hpiece := nomatch hpiece
  bytes _ hpiece := nomatch hpiece

/-- The recording is over. -/
theorem Orderly.stop (h : t.Orderly underWay) : t.Orderly false := by
  obtain ⟨done, handle, closes, htake, -⟩ := h.take
  exact ⟨h.reached, ⟨done, handle, closes, htake, nofun⟩, h.waits, h.within, h.before, h.whole,
    h.bytes⟩

theorem own_eq_some (hown : t.own party a = some t') :
    (∀ call, a ≠ .call call) ∧ ∃ g p,
      act party t.sender (t.threads.points party) a = some (g, p) ∧
        (program Client).machine.step t.threads (party, a) =
          some ⟨g, Function.update t.threads.points party p⟩ ∧
        t' = t.move ⟨g, Function.update t.threads.points party p⟩ := by
  cases a with
  | call call => cases hown
  | next | spurious | connect =>
      refine ⟨nofun, ?_⟩
      obtain ⟨threads, hstep, rfl⟩ := Option.map_eq_some_iff.mp hown
      obtain ⟨g, p, hact, rfl⟩ := Program.step_eq_some.mp hstep
      exact ⟨g, p, hact, hstep, rfl⟩

variable {threads : Threads (Worker.Party Client) (PipeSender Client) Point}

theorem missed_move : (t.move threads).missed = t.missed := by
  unfold missed move
  cases t.connectedAt with
  | some n => rfl
  | none => cases threads.shared.isConnected <;> rfl

theorem isConnected_of_move (h : (t.move threads).connectedAt = none) :
    threads.shared.isConnected = false := by
  obtain ⟨-, hnone⟩ := Option.or_eq_none_iff.mp h
  by_contra hconnected
  rw [if_pos (Bool.eq_true_of_not_eq_false hconnected)] at hnone
  cases hnone

theorem connectedAt_move (h : (t.move threads).connectedAt ≠ none) :
    t.connectedAt ≠ none ∨ threads.shared.isConnected = true := by
  by_contra hno
  rw [not_or, not_not] at hno
  refine h (Option.or_eq_none_iff.mpr ⟨hno.1, if_neg hno.2⟩)

theorem Orderly.own (h : t.Orderly underWay) (hown : t.own party a = some t') :
    t'.Orderly underWay := by
  obtain ⟨hinside, g, p, hact, hstep, rfl⟩ := own_eq_some hown
  obtain ⟨inputs, hrun⟩ := h.reached
  obtain ⟨done, handle, closes, htake, hunderWay⟩ := h.take
  have hmove := act_moves hact
  have hrun' := Machine.run_concat_eq_some.mpr ⟨_, hrun, hstep⟩
  have htake' := htake.inside (inv_run hrun).1 hmove hinside
  have hmissed : (t.move ⟨g, Function.update t.threads.points party p⟩).missed = t.missed :=
    missed_move
  refine ⟨⟨_, hrun'⟩, ⟨done, handle, closes, htake', fun hgoesOn => ?_⟩, isConnected_of_move,
    ?_, ?_, ?_, h.bytes⟩
  · obtain ⟨rfl, hconnects⟩ := hunderWay hgoesOn
    refine ⟨rfl, fun hat => ?_⟩
    rcases connectedAt_move hat with hbefore | hnow
    · exact (hconnects hbefore).mono hmove.processed_mono
    · exact htake'.connects (inv_run hrun').1 (linked_run hrun') hnow
  · rw [hmissed]
    exact h.within
  · rw [hmissed]
    exact h.before
  · rw [hmissed]
    exact h.whole

theorem Orderly.openPipe (h : t.Orderly true) (hpipe : t.pipe = none) {name : String}
    {created : Option ℤ} (hopen : t.openPipe name created = some t') : t'.Orderly true := by
  obtain ⟨threads, hstep, rfl⟩ := Option.map_eq_some_iff.mp hopen
  obtain ⟨g, p, hact, rfl⟩ := Program.step_eq_some.mp hstep
  obtain ⟨inputs, hrun⟩ := h.reached
  obtain ⟨done, handle, closes, htake, hunderWay⟩ := h.take
  obtain ⟨rfl, hconnects⟩ := hunderWay rfl
  rw [hpipe, Option.map_none] at htake hconnects
  have hat : t.connectedAt = none := by
    by_contra hat
    obtain ⟨_, _, hopened, -⟩ := hconnects hat
    cases hopened
  have htake' := htake.openPipe (inv_run hrun).1 hact
  obtain ⟨hconnected, -⟩ := enter_keeps (act_call hact).2
  refine ⟨⟨_, Machine.run_concat_eq_some.mpr ⟨_, hrun, hstep⟩⟩,
    ⟨done, created.getD 0, 0, ?_, fun _ => ⟨rfl, fun hne => absurd hat hne⟩⟩,
    fun _ => hconnected.trans (h.waits hat), h.within, h.before, h.whole, h.bytes⟩
  cases created <;> exact htake'

theorem free_iff {k : Client} :
    t.free k = true ↔ t.threads.points (.client k) = .client none .idle := by
  unfold free
  split
  · next hpoint => exact iff_of_true rfl hpoint
  · next hpoint => exact iff_of_false Bool.false_ne_true hpoint

theorem holds_of_free {k : Client} (hfree : t.free k = true) :
    (t.threads.points (.client k)).holds = [] := by
  rw [free_iff.mp hfree]
  rfl

theorem Orderly.close (h : t.Orderly false) (hfree : t.free .capture = true)
    (hclose : t.close = some t') : t'.Orderly false := by
  obtain ⟨threads, hstep, rfl⟩ := Option.map_eq_some_iff.mp hclose
  obtain ⟨g, p, hact, rfl⟩ := Program.step_eq_some.mp hstep
  obtain ⟨inputs, hrun⟩ := h.reached
  obtain ⟨done, handle, closes, htake, -⟩ := h.take
  obtain ⟨hconnected, -⟩ := enter_keeps (act_call hact).2
  exact ⟨⟨_, Machine.run_concat_eq_some.mpr ⟨_, hrun, hstep⟩⟩, ⟨done, handle, closes + 1,
    htake.close (holds_of_free hfree) hact, nofun⟩, fun hat => hconnected.trans (h.waits hat),
    h.within, h.before, h.whole, h.bytes⟩

/-- A piece is dropped exactly if the pipe has not been connected. -/
theorem Orderly.isSome_message (h : t.Orderly true) (bytes : List UInt8) :
    (t.sender.message bytes).isSome = true ↔ t.connectedAt ≠ none := by
  obtain ⟨inputs, hrun⟩ := h.reached
  obtain ⟨done, handle, closes, htake, hunderWay⟩ := h.take
  obtain ⟨rfl, hconnects⟩ := hunderWay rfl
  constructor
  · intro hsome hat
    rw [message, if_neg (by rw [h.waits hat]; exact Bool.false_ne_true)] at hsome
    cases hsome
  · intro hat
    rw [message, if_pos (htake.isConnected (inv_run hrun).1 (linked_run hrun) (hconnects hat))]
    rfl

/-- One more piece, which is dropped exactly if the pipe has not been connected. -/
theorem Orderly.parts_send (h : t.Orderly true) (t' : Track) {piece : Piece}
    (hpiece : piece.message.isSome = true ↔ t.connectedAt ≠ none)
    (hpieces : t'.pieces = t.pieces ++ [piece]) (hat : t'.connectedAt = t.connectedAt) :
    t'.missed ≤ t'.pieces.length ∧
      (∀ piece' ∈ t'.pieces.take t'.missed, piece'.message = none) ∧
      ∀ piece' ∈ t'.pieces.drop t'.missed, piece'.message.isSome = true := by
  have hwithin := h.within
  have hbefore := h.before
  have hwhole := h.whole
  unfold missed at hwithin hbefore hwhole ⊢
  rw [hpieces, hat]
  cases hconnected : t.connectedAt with
  | none =>
      rw [hconnected, Option.getD_none, List.take_length] at hbefore
      rw [Option.getD_none, List.take_length, List.drop_length]
      refine ⟨le_rfl, fun piece' hpiece' => ?_, fun _ hnil => nomatch hnil⟩
      rcases List.mem_append.mp hpiece' with hold | hnew
      · exact hbefore piece' hold
      · rw [List.mem_singleton.mp hnew]
        by_contra hmessage
        exact hpiece.mp (Option.isSome_iff_ne_none.mpr hmessage) hconnected
  | some n =>
      rw [hconnected, Option.getD_some] at hwithin hbefore hwhole
      rw [Option.getD_some, List.take_append_of_le_length hwithin,
        List.drop_append_of_le_length hwithin, List.length_append]
      refine ⟨Nat.le_add_right_of_le hwithin, hbefore, fun piece' hpiece' => ?_⟩
      rcases List.mem_append.mp hpiece' with hold | hnew
      · exact hwhole piece' hold
      · rw [List.mem_singleton.mp hnew, hpiece, hconnected]
        exact Option.some_ne_none n

theorem Orderly.send (h : t.Orderly true) (hsend : t.send bytes = some t') : t'.Orderly true := by
  obtain ⟨threads, hstep, rfl⟩ := Option.map_eq_some_iff.mp hsend
  obtain ⟨g, p, hact, rfl⟩ := Program.step_eq_some.mp hstep
  obtain ⟨inputs, hrun⟩ := h.reached
  obtain ⟨done, handle, closes, htake, hunderWay⟩ := h.take
  obtain ⟨rfl, hconnects⟩ := hunderWay rfl
  obtain ⟨hconnected, hprocessed⟩ := enter_keeps (act_call hact).2
  obtain ⟨hwithin, hbefore, hwhole⟩ := h.parts_send
    { t with
      threads := ⟨g, Function.update t.threads.points (.client .capture) p⟩
      pieces := t.pieces ++ [⟨bytes, t.sender.message bytes⟩] }
    (h.isSome_message bytes) rfl rfl
  refine ⟨⟨_, Machine.run_concat_eq_some.mpr ⟨_, hrun, hstep⟩⟩,
    ⟨done, handle, 0, ?_, fun _ => ⟨rfl, fun hat => ?_⟩⟩,
    fun hat => hconnected.trans (h.waits hat), hwithin, hbefore, hwhole, ?_⟩
  · have htake' := htake.send (inv_run hrun).1 (linked_run hrun) hact
    have hsent : t.sent ++ (t.sender.message bytes).toList =
        (t.pieces ++ [(⟨bytes, t.sender.message bytes⟩ : Piece)]).filterMap Piece.message := by
      rw [List.filterMap_append, sent]
      cases t.sender.message bytes <;> rfl
    rw [hsent] at htake'
    exact htake'
  · exact (hconnects hat).mono (hprocessed ▸ List.prefix_rfl)
  · intro piece hpiece m hm
    rcases List.mem_append.mp hpiece with hpiece | hpiece
    · exact h.bytes piece hpiece m hm
    · obtain rfl := List.mem_singleton.mp hpiece
      obtain ⟨-, hm⟩ := Option.ite_none_right_eq_some.mp hm
      obtain rfl := Option.some.inj hm
      rfl

theorem Orderly.restart (h : t.Orderly underWay) (hsettled : t.Settled)
    (hcontroller : t.free .controller = true) (hcapture : t.free .capture = true) :
    t.restart.Orderly true := by
  obtain ⟨inputs, hrun⟩ := h.reached
  obtain ⟨hqueue, hhand, hconnected⟩ := hsettled
  exact ⟨⟨inputs, hrun⟩, ⟨_, 0, 0, take_begin (inv_run hrun).1 (linked_run hrun) hqueue hhand
    hconnected (holds_of_free hcontroller) (holds_of_free hcapture),
    fun _ => ⟨rfl, fun hne => absurd rfl hne⟩⟩, fun _ => hconnected, le_rfl,
    (fun _ hpiece => nomatch hpiece), (fun _ hpiece => nomatch hpiece),
    fun _ hpiece => nomatch hpiece⟩

/-- A client between two calls stays there until it calls. -/
theorem free_own {k : Client} (hfree : t.free k = true) (hown : t.own party a = some t') :
    t'.free k = true := by
  obtain ⟨hinside, g, p, hact, -, rfl⟩ := own_eq_some hown
  have hpoint := free_iff.mp hfree
  rw [free_iff]
  by_cases hparty : party = .client k
  · subst hparty
    rw [hpoint] at hact
    cases a with
    | call call => exact absurd rfl (hinside call)
    | next | spurious | connect => cases hact
  · exact (Function.update_of_ne (Ne.symm hparty) _ _).trans hpoint

theorem free_openPipe {name : String} {created : Option ℤ} (hfree : t.free .capture = true)
    (hopen : t.openPipe name created = some t') : t'.free .capture = true := by
  obtain ⟨threads, hstep, rfl⟩ := Option.map_eq_some_iff.mp hopen
  obtain ⟨g, p, -, rfl⟩ := Program.step_eq_some.mp hstep
  have hne : Worker.Party.client Client.capture ≠ .client .controller := by decide
  exact free_iff.mpr ((Function.update_of_ne hne p t.threads.points).trans (free_iff.mp hfree))

theorem free_close (hfree : t.free .capture = true) (hclose : t.close = some t') :
    t'.free .capture = true := by
  obtain ⟨threads, hstep, rfl⟩ := Option.map_eq_some_iff.mp hclose
  obtain ⟨g, p, -, rfl⟩ := Program.step_eq_some.mp hstep
  have hne : Worker.Party.client Client.capture ≠ .client .controller := by decide
  exact free_iff.mpr ((Function.update_of_ne hne p t.threads.points).trans (free_iff.mp hfree))

/-- Only `openPipe` and `restart` change the pipe of the recording. -/
theorem pipe_own (hown : t.own party a = some t') : t'.pipe = t.pipe := by
  obtain ⟨-, g, p, -, -, rfl⟩ := own_eq_some hown
  rfl

theorem pipe_send (hsend : t.send bytes = some t') : t'.pipe = t.pipe := by
  obtain ⟨threads, -, rfl⟩ := Option.map_eq_some_iff.mp hsend
  rfl

/-! ## What a track has -/

theorem sent_of_whole {pieces : List Piece}
    (hwhole : ∀ piece ∈ pieces, piece.message.isSome = true)
    (hbytes : ∀ piece ∈ pieces, ∀ message, piece.message = some message →
      message.bytes = piece.bytes) :
    (pieces.filterMap Piece.message).map some = pieces.map Piece.message ∧
      (pieces.filterMap Piece.message).map Message.bytes = pieces.map Piece.bytes := by
  induction pieces with
  | nil => exact ⟨rfl, rfl⟩
  | cons piece pieces ih =>
      obtain ⟨hmessages, hall⟩ :=
        ih (fun piece' hmem => hwhole piece' (List.mem_cons_of_mem _ hmem))
        fun piece' hmem => hbytes piece' (List.mem_cons_of_mem _ hmem)
      obtain ⟨message, hmessage⟩ := Option.isSome_iff_exists.mp (hwhole piece List.mem_cons_self)
      rw [List.filterMap_cons_some hmessage]
      constructor
      · rw [List.map_cons, List.map_cons, hmessages, hmessage]
      · rw [List.map_cons, List.map_cons, hall, hbytes piece List.mem_cons_self message hmessage]

theorem Orderly.written_sent (h : t.Orderly underWay) : t.written <+: t.sent := by
  obtain ⟨inputs, hrun⟩ := h.reached
  obtain ⟨done, handle, closes, htake, -⟩ := h.take
  unfold written
  cases hpipe : t.pipe with
  | none => exact List.nil_prefix
  | some pipe =>
      rw [hpipe, Option.map_some] at htake
      obtain ⟨hqueued, hcarried⟩ := inv_run hrun
      rw [Option.toList_some, List.flatMap_singleton]
      exact htake.written hqueued hcarried

theorem Orderly.carries (h : t.Orderly underWay) : t.Carries := by
  have hsent : t.sent = (t.pieces.drop t.missed).filterMap Piece.message := by
    have hnone : (t.pieces.take t.missed).filterMap Piece.message = [] :=
      List.filterMap_eq_nil_iff.mpr h.before
    rw [sent, ← List.nil_append ((t.pieces.drop t.missed).filterMap _), ← hnone,
      ← List.filterMap_append, List.take_append_drop]
  obtain ⟨hmessages, hbytes⟩ := sent_of_whole h.whole
    fun piece hpiece => h.bytes piece (List.mem_of_mem_drop hpiece)
  refine ⟨h.before, h.whole, ?_, ?_⟩
  · rw [← hmessages, ← hsent]
    exact h.written_sent.map some
  · rw [← hbytes, ← hsent]
    exact h.written_sent.map Message.bytes

/-- The message of the `n`-th piece. -/
def messageAt (t : Track) (n : ℕ) : Option Message := t.pieces[n]?.bind Piece.message

theorem Carries.messageAt (h : t.Carries) {i : ℕ} {message : Message}
    (hwritten : t.written[i]? = some message) : t.messageAt (t.missed + i) = some message := by
  obtain ⟨more, hmore⟩ := h.written
  have hi : ((t.pieces.drop t.missed).map Piece.message)[i]? = some (some message) := by
    rw [← hmore, List.getElem?_append_left, List.getElem?_map, hwritten]
    · rfl
    · rw [List.length_map]
      exact (List.getElem?_eq_some_iff.mp hwritten).1
  rw [List.getElem?_map, List.getElem?_drop] at hi
  obtain ⟨piece, hpiece, hmessage⟩ := Option.map_eq_some_iff.mp hi
  rw [Track.messageAt, hpiece]
  exact hmessage

/-- No two pieces have the same message. -/
theorem Orderly.messageAt_inj (h : t.Orderly underWay) {m n : ℕ} {message : Message}
    (hm : t.messageAt m = some message) (hn : t.messageAt n = some message) : m = n := by
  obtain ⟨inputs, hrun⟩ := h.reached
  obtain ⟨done, handle, closes, htake, -⟩ := h.take
  have hnodup := htake.sent_nodup (inv_run hrun).1
  rw [sent, List.Nodup, List.pairwise_filterMap, List.pairwise_iff_getElem] at hnodup
  obtain ⟨piece, hpiece, hmessage⟩ := Option.bind_eq_some_iff.mp hm
  obtain ⟨piece', hpiece', hmessage'⟩ := Option.bind_eq_some_iff.mp hn
  obtain ⟨hlt, rfl⟩ := List.getElem?_eq_some_iff.mp hpiece
  obtain ⟨hlt', rfl⟩ := List.getElem?_eq_some_iff.mp hpiece'
  rcases lt_trichotomy m n with hless | heq | hless
  · exact absurd rfl (hnodup m n hlt hlt' hless _ hmessage _ hmessage')
  · exact heq
  · exact absurd rfl (hnodup n m hlt' hlt hless _ hmessage' _ hmessage)

end

end Track

namespace Recorder

/-- The call on a pipe that `open` or `close` comes to next. -/
inductive Pending
  | nothing
  | openAudio
  | openVideo
  | closeAudio
  | closeVideo
  deriving DecidableEq

/-- Where the callback of the microphone is: before it is called, in the call of `send` for the
sound, or in that for the picture. -/
inductive Handler
  | waiting
  | audio
  | video
  deriving DecidableEq

end Recorder

/-- `capturing` says that the microphone is open, and `buffer` is what `video_buffer` holds. -/
structure Recorder where
  controller : FFmpegController := {}
  rid : String := ""
  pending : Recorder.Pending := .nothing
  capturing : Bool := false
  handler : Recorder.Handler := .waiting
  buffer : List UInt8 := []
  audio : Track := {}
  video : Track := {}

namespace Recorder

open FFmpegController (ParsedOptions)

/-- A call, with what it makes of its text; a step further in a call, up to the calls on the
pipes, and one of these, with what `CreateNamedPipe` returns; a step of the scheduler's thread
of the capture; a step of the callback; or one of a thread of a pipe. -/
inductive Input
  | openCall (parsed : Option ParsedOptions) (rid : String)
  | closeCall
  | destruct
  | next (result : Bool)
  | call (created : Option ℤ)
  | beginRepeat
  | copyBitmap (bitmap : List UInt8)
  | endRepeat
  | capture (sound : List UInt8)
  | sendPicture
  | endBlock
  | audio (party : Worker.Party PipeSender.Client) (a : PipeSender.Action)
  | video (party : Worker.Party PipeSender.Client) (a : PipeSender.Action)

/-- The caller is in no call on a pipe. -/
def outside (s : Recorder) : Bool := s.audio.free .controller && s.video.free .controller

/-- The caller is in no call on a pipe, and none is to come. -/
def quiet (s : Recorder) : Bool := s.pending = .nothing && s.outside

/-- `audioCapture.start` stops the capture first, which waits for the callback. -/
def startAudio (s : Recorder) (result : Bool) : Option Recorder :=
  if s.handler = .waiting then
    if result = true then
      some { s with
        capturing := true, audio := s.audio.restart, video := s.video.restart }
    else some { s with capturing := false }
  else none

/-- `audioCapture.stop`, which waits for the callback, and the calls behind it. -/
def stop (s : Recorder) : Option Recorder :=
  if s.handler = .waiting then some { s with capturing := false, pending := .closeAudio } else none

/-- A step further in `open` or in the destructor. -/
def next (s : Recorder) (result : Bool) : Option Recorder :=
  (s.controller.next result).bind fun controller =>
    match s.controller.point with
    | .allocate =>
        some { s with
          controller := controller
          buffer := List.replicate s.controller.optionDesktop.bitmapSize.toNat 0 }
    | .startAudio => { s with controller := controller }.startAudio result
    | .startScheduler => some { s with controller := controller, pending := .openAudio }
    | _ => some { s with controller := controller }

/-- A call of `open` or `close` on a pipe. -/
def call (s : Recorder) (created : Option ℤ) : Option Recorder :=
  match s.pending with
  | .nothing => none
  | .openAudio =>
      (s.audio.openPipe ("\\\\.\\pipe\\audio-" ++ s.rid) created).map fun audio =>
        { s with audio := audio, pending := .openVideo }
  | .openVideo =>
      (s.video.openPipe ("\\\\.\\pipe\\video-" ++ s.rid) created).map fun video =>
        { s with video := video, pending := .nothing }
  | .closeAudio => s.audio.close.map fun audio => { s with audio := audio, pending := .closeVideo }
  | .closeVideo => s.video.close.map fun video => { s with video := video, pending := .nothing }

/-- The threads of the pipes go on by themselves, and are ended with the members. -/
def mayStep (s : Recorder) (party : Worker.Party PipeSender.Client) : Bool :=
  party ≠ .closer || (s.controller.point = .gone && s.quiet)

def step (s : Recorder) : Input → Option Recorder
  | .openCall parsed rid =>
      if s.quiet = true then
        (s.controller.step (.openCall parsed)).map fun controller =>
          { s with controller := controller, rid := if parsed.isSome = true then rid else s.rid }
      else none
  | .closeCall =>
      if s.quiet = true then
        (s.controller.step .closeCall).bind fun controller =>
          { s with controller := controller }.stop
      else none
  | .destruct =>
      if s.quiet = true then
        (s.controller.step .destruct).bind fun controller =>
          { s with controller := controller }.stop
      else none
  | .next result => if s.quiet = true then s.next result else none
  | .call created => if s.outside = true then s.call created else none
  | .beginRepeat =>
      (s.controller.step .beginRepeat).map fun controller => { s with controller := controller }
  | .copyBitmap bitmap =>
      if s.controller.capture.repeating = true ∧
          bitmap.length = s.controller.capture.option.bitmapSize ∧
          bitmap.length ≤ s.buffer.length then
        some { s with buffer := bitmap ++ s.buffer.drop bitmap.length }
      else none
  | .endRepeat =>
      (s.controller.step .endRepeat).map fun controller => { s with controller := controller }
  | .capture sound =>
      if s.capturing = true ∧ s.handler = .waiting then
        (s.audio.send sound).map fun audio => { s with audio := audio, handler := .audio }
      else none
  | .sendPicture =>
      if s.handler = .audio ∧ s.audio.free .capture = true ∧
          s.controller.optionDesktop.bitmapSize ≤ s.buffer.length then
        (s.video.send (s.buffer.take s.controller.optionDesktop.bitmapSize.toNat)).map fun video =>
          { s with video := video, handler := .video }
      else none
  | .endBlock =>
      if s.handler = .video ∧ s.video.free .capture = true then some { s with handler := .waiting }
      else none
  | .audio party a =>
      if s.mayStep party = true then
        (s.audio.own party a).map fun audio => { s with audio := audio }
      else none
  | .video party a =>
      if s.mayStep party = true then
        (s.video.own party a).map fun video => { s with video := video }
      else none

def machine : Machine Recorder Input := ⟨{}, step⟩

/-- What an input is to the controller by itself. -/
def Input.toController : Input → Option FFmpegController.Input
  | .openCall parsed _ => some (.openCall parsed)
  | .closeCall => some .closeCall
  | .destruct => some .destruct
  | .next result => some (.next result)
  | .beginRepeat => some .beginRepeat
  | .endRepeat => some .endRepeat
  | _ => none

/-- `audioCapture.start` succeeds. -/
def startsCapture (s : Recorder) : Input → Bool
  | .next true => s.controller.point = .startAudio
  | _ => false

/-- A recording begins when the pipes of the one before are closed. -/
def Settled (s : Recorder) (input : Input) : Prop :=
  s.startsCapture input = true → s.audio.Settled ∧ s.video.Settled

instance (s : Recorder) (input : Input) : Decidable (s.Settled input) :=
  inferInstanceAs (Decidable (_ → _))

/-! ## What holds in every run -/

/-- Behind the start of the capture in `open`. -/
def started : FFmpegController.Point → Bool
  | .setOption | .replaceBitmap | .startScheduler => true
  | _ => false

/-- What can be said while a call on a pipe is to come. -/
def Prepared (s : Recorder) : Prop :=
  match s.pending with
  | .nothing => True
  | .openAudio => s.capturing = true ∧ s.audio.pipe = none ∧ s.video.pipe = none
  | .openVideo => s.capturing = true ∧ s.video.pipe = none
  | .closeAudio | .closeVideo => s.capturing = false

structure Orderly (s : Recorder) : Prop where
  audio : s.audio.Orderly s.capturing
  video : s.video.Orderly s.capturing
  waiting : s.capturing = false → s.handler = .waiting
  audioFree : s.handler ≠ .audio → s.audio.free .capture = true
  videoFree : s.handler ≠ .video → s.video.free .capture = true
  prepared : s.Prepared
  started : started s.controller.point = true →
    s.pending = .nothing ∧ s.capturing = true ∧ s.audio.pipe = none ∧ s.video.pipe = none

section

variable {s s' : Recorder} {controller : FFmpegController} {result : Bool}

theorem Orderly.withController (h : s.Orderly) {rid : String} {buffer : List UInt8}
    (hstarted : Recorder.started controller.point = true →
      Recorder.started s.controller.point = true) :
    { s with controller := controller, rid := rid, buffer := buffer }.Orderly :=
  ⟨h.audio, h.video, h.waiting, h.audioFree, h.videoFree, h.prepared,
    fun hpoint => h.started (hstarted hpoint)⟩

theorem Orderly.stop (h : s.Orderly) (hstarted : Recorder.started s.controller.point = false)
    (hstop : s.stop = some s') : s'.Orderly := by
  obtain ⟨hwaiting, hsame⟩ := Option.ite_none_right_eq_some.mp hstop
  obtain rfl := Option.some.inj hsame
  refine ⟨h.audio.stop, h.video.stop, fun _ => hwaiting, h.audioFree, h.videoFree, rfl, ?_⟩
  intro hpoint
  exact absurd (hstarted.symm.trans hpoint) Bool.false_ne_true

/-- The capture starts, with the pipes of the recording before closed. -/
theorem Orderly.startAudio (h : s.Orderly) (hquiet : s.quiet = true)
    (hsettled : result = true → s.audio.Settled ∧ s.video.Settled)
    (hstart : { s with controller := controller }.startAudio result = some s')
    (hstarted : result = false → Recorder.started controller.point = false) : s'.Orderly := by
  obtain ⟨hwaiting, hsame⟩ := Option.ite_none_right_eq_some.mp hstart
  simp only [quiet, outside, Bool.and_eq_true, decide_eq_true_eq] at hquiet
  obtain ⟨hpending, haudio, hvideo⟩ := hquiet
  have hfree : s.audio.free .capture = true ∧ s.video.free .capture = true := by
    refine ⟨h.audioFree ?_, h.videoFree ?_⟩
    · rw [show s.handler = .waiting from hwaiting]
      decide
    · rw [show s.handler = .waiting from hwaiting]
      decide
  cases result with
  | true =>
      obtain rfl := Option.some.inj hsame
      obtain ⟨hsettledAudio, hsettledVideo⟩ := hsettled rfl
      refine ⟨h.audio.restart hsettledAudio haudio hfree.1,
        h.video.restart hsettledVideo hvideo hfree.2, nofun, fun _ => hfree.1, fun _ => hfree.2,
        ?_, fun _ => ⟨hpending, rfl, rfl, rfl⟩⟩
      rw [Prepared, hpending]
      trivial
  | false =>
      obtain rfl := Option.some.inj hsame
      refine ⟨h.audio.stop, h.video.stop, fun _ => hwaiting, h.audioFree, h.videoFree, ?_, ?_⟩
      · rw [Prepared, hpending]
        trivial
      · intro hne
        exact absurd ((hstarted rfl).symm.trans hne) Bool.false_ne_true

theorem Orderly.next (h : s.Orderly) (hquiet : s.quiet = true)
    (hsettled : s.Settled (.next result)) (hnext : s.next result = some s') : s'.Orderly := by
  obtain ⟨controller, hstep, hrest⟩ := Option.bind_eq_some_iff.mp hnext
  have hproceeds := FFmpegController.next_proceeds hstep
  have hstarted : ∀ {controller' : FFmpegController} {buffer : List UInt8},
      Recorder.started controller'.point = true → Recorder.started s.controller.point = true →
        { s with controller := controller', buffer := buffer }.Orderly :=
    fun _ hbefore => h.withController fun _ => hbefore
  cases hproceeds with
  | release hpoint | destroy hpoint | destroyMembers hpoint =>
      simp only [hpoint] at hrest
      obtain rfl := Option.some.inj hrest
      exact h.withController fun hne => nomatch hne
  | allocate hpoint hallocate =>
      simp only [hpoint] at hrest
      obtain rfl := Option.some.inj hrest
      have hafter : controller.point = .startAudio := by
        unfold FFmpegController.allocate at hallocate
        split at hallocate
        · split at hallocate
          · obtain rfl := Option.some.inj hallocate
            rfl
          · cases hallocate
        · obtain ⟨-, hsame⟩ := Option.ite_none_right_eq_some.mp hallocate
          obtain rfl := Option.some.inj hsame
          rfl
      refine h.withController fun hne => ?_
      rw [hafter] at hne
      cases hne
  | startFailed hpoint hfailed =>
      simp only [hpoint] at hrest
      exact h.startAudio hquiet (fun hresult => nomatch hfailed.symm.trans hresult) hrest
        fun _ => rfl
  | started hpoint hresult =>
      simp only [hpoint] at hrest
      subst hresult
      exact h.startAudio hquiet (fun _ => hsettled (decide_eq_true hpoint)) hrest
        fun hne => nomatch hne
  | setOption hpoint | replaceBitmap hpoint =>
      simp only [hpoint] at hrest
      obtain rfl := Option.some.inj hrest
      exact hstarted rfl (by rw [hpoint]; rfl)
  | startScheduler hpoint =>
      simp only [hpoint] at hrest
      obtain rfl := Option.some.inj hrest
      obtain ⟨-, hcapturing, hpipes⟩ := h.started (by rw [hpoint]; rfl)
      exact ⟨h.audio, h.video, h.waiting, h.audioFree, h.videoFree, ⟨hcapturing, hpipes⟩,
        fun hne => nomatch hne⟩

theorem Orderly.call (h : s.Orderly) {created : Option ℤ} (hcall : s.call created = some s') :
    s'.Orderly := by
  have hprepared := h.prepared
  have hidle : s.pending ≠ .nothing → Recorder.started s.controller.point ≠ true :=
    fun hne hstarted => hne (h.started hstarted).1
  unfold Prepared at hprepared
  unfold Recorder.call at hcall
  cases hpending : s.pending with
  | nothing =>
      rw [hpending] at hcall
      cases hcall
  | openAudio =>
      rw [hpending] at hcall hprepared hidle
      obtain ⟨hcapturing, hpipe, hvideo⟩ := hprepared
      obtain ⟨audio, hopen, rfl⟩ := Option.map_eq_some_iff.mp hcall
      refine ⟨?_, h.video, h.waiting, fun hne => Track.free_openPipe (h.audioFree hne) hopen,
        h.videoFree, ⟨hcapturing, hvideo⟩, fun hne => absurd hne (hidle nofun)⟩
      have haudio := h.audio
      rw [hcapturing] at haudio ⊢
      exact haudio.openPipe hpipe hopen
  | openVideo =>
      rw [hpending] at hcall hprepared hidle
      obtain ⟨hcapturing, hpipe⟩ := hprepared
      obtain ⟨video, hopen, rfl⟩ := Option.map_eq_some_iff.mp hcall
      refine ⟨h.audio, ?_, h.waiting, h.audioFree,
        fun hne => Track.free_openPipe (h.videoFree hne) hopen, trivial,
        fun hne => absurd hne (hidle nofun)⟩
      have hvideo := h.video
      rw [hcapturing] at hvideo ⊢
      exact hvideo.openPipe hpipe hopen
  | closeAudio =>
      rw [hpending] at hcall hprepared hidle
      obtain ⟨audio, hclose, rfl⟩ := Option.map_eq_some_iff.mp hcall
      have hfree : s.audio.free .capture = true := h.audioFree (by rw [h.waiting hprepared]; decide)
      refine ⟨?_, h.video, h.waiting, fun _ => Track.free_close hfree hclose, h.videoFree,
        hprepared, fun hne => absurd hne (hidle nofun)⟩
      have haudio := h.audio
      rw [show s.capturing = false from hprepared] at haudio ⊢
      exact haudio.close hfree hclose
  | closeVideo =>
      rw [hpending] at hcall hprepared hidle
      obtain ⟨video, hclose, rfl⟩ := Option.map_eq_some_iff.mp hcall
      have hfree : s.video.free .capture = true := h.videoFree (by rw [h.waiting hprepared]; decide)
      refine ⟨h.audio, ?_, h.waiting, h.audioFree, fun _ => Track.free_close hfree hclose,
        trivial, fun hne => absurd hne (hidle nofun)⟩
      have hvideo := h.video
      rw [show s.capturing = false from hprepared] at hvideo ⊢
      exact hvideo.close hfree hclose

/-- The two tracks of the recording keep their pipes. -/
theorem Prepared.congr {audio video : Track} {handler : Handler} (h : s.Prepared)
    (haudio : audio.pipe = s.audio.pipe) (hvideo : video.pipe = s.video.pipe) :
    { s with audio := audio, video := video, handler := handler }.Prepared := by
  unfold Prepared at h ⊢
  dsimp only
  rw [haudio, hvideo]
  exact h

/-- The tracks go on with the pipes that they have. -/
theorem Orderly.withTracks (h : s.Orderly) {audio video : Track} {handler : Handler}
    (haudio : audio.Orderly s.capturing) (hvideo : video.Orderly s.capturing)
    (hpipeAudio : audio.pipe = s.audio.pipe) (hpipeVideo : video.pipe = s.video.pipe)
    (hwaiting : s.capturing = false → handler = .waiting)
    (haudioFree : handler ≠ .audio → audio.free .capture = true)
    (hvideoFree : handler ≠ .video → video.free .capture = true) :
    { s with audio := audio, video := video, handler := handler }.Orderly := by
  refine ⟨haudio, hvideo, hwaiting, haudioFree, hvideoFree, h.prepared.congr hpipeAudio hpipeVideo,
    ?_⟩
  dsimp only
  rw [hpipeAudio, hpipeVideo]
  exact h.started

/-- A block of sound, while the callback waits for one. -/
theorem Orderly.capture (h : s.Orderly) {sound : List UInt8} {audio : Track}
    (hcapturing : s.capturing = true) (hwaiting : s.handler = .waiting)
    (hsend : s.audio.send sound = some audio) :
    { s with audio := audio, handler := .audio }.Orderly := by
  have haudio := h.audio
  rw [hcapturing] at haudio
  refine h.withTracks ?_ h.video (Track.pipe_send hsend) rfl
    (fun hno => nomatch hcapturing.symm.trans hno) (fun hne => absurd rfl hne)
    fun _ => h.videoFree ?_
  · rw [hcapturing]
    exact haudio.send hsend
  · rw [hwaiting]
    decide

/-- The picture for a block of sound that has been sent. -/
theorem Orderly.sendPicture (h : s.Orderly) {picture : List UInt8} {video : Track}
    (hhandler : s.handler = .audio) (hfree : s.audio.free .capture = true)
    (hsend : s.video.send picture = some video) :
    { s with video := video, handler := .video }.Orderly := by
  have hcapturing : s.capturing = true := by
    by_contra hno
    have hwaiting := h.waiting (Bool.eq_false_iff.mpr hno)
    rw [hhandler] at hwaiting
    cases hwaiting
  have hvideo := h.video
  rw [hcapturing] at hvideo
  refine h.withTracks h.audio ?_ rfl (Track.pipe_send hsend)
    (fun hno => nomatch hcapturing.symm.trans hno) (fun _ => hfree) fun hne => absurd rfl hne
  rw [hcapturing]
  exact hvideo.send hsend

theorem Orderly.step (h : s.Orderly) {input : Input} (hsettled : s.Settled input)
    (hstep : s.step input = some s') : s'.Orderly := by
  cases input with
  | openCall parsed rid =>
      obtain ⟨-, hcall⟩ := Option.ite_none_right_eq_some.mp hstep
      obtain ⟨controller, hopen, rfl⟩ := Option.map_eq_some_iff.mp hcall
      refine h.withController fun hne => ?_
      rcases FFmpegController.step_cases hopen with ⟨_, hinput, -⟩ | ⟨-, -, -, -, -, -, hpoint⟩
      · cases hinput
      · rcases hpoint with ⟨hsame, -⟩ | ⟨-, hpoint | hpoint⟩
        · exact hsame ▸ hne
        · rw [hpoint] at hne
          cases hne
        · rw [hpoint] at hne
          cases hne
  | closeCall =>
      obtain ⟨-, hcall⟩ := Option.ite_none_right_eq_some.mp hstep
      obtain ⟨controller, hclose, hstop⟩ := Option.bind_eq_some_iff.mp hcall
      obtain ⟨hidle, hsame⟩ := Option.ite_none_right_eq_some.mp hclose
      obtain rfl := Option.some.inj hsame
      have hstopped : { s with controller :=
          { s.controller with capture := s.controller.capture.stop } }.Orderly :=
        h.withController id
      refine hstopped.stop ?_ hstop
      rw [show s.controller.point = .idle from hidle]
      rfl
  | destruct =>
      obtain ⟨-, hcall⟩ := Option.ite_none_right_eq_some.mp hstep
      obtain ⟨controller, hdestruct, hstop⟩ := Option.bind_eq_some_iff.mp hcall
      obtain ⟨-, hsame⟩ := Option.ite_none_right_eq_some.mp hdestruct
      obtain rfl := Option.some.inj hsame
      have hstopped : { s with controller :=
          { s.controller with
            capture := s.controller.capture.stop, point := .destroy } }.Orderly :=
        h.withController fun hne => nomatch hne
      exact hstopped.stop rfl hstop
  | next result =>
      obtain ⟨hquiet, hnext⟩ := Option.ite_none_right_eq_some.mp hstep
      exact h.next hquiet hsettled hnext
  | call created =>
      obtain ⟨-, hcall⟩ := Option.ite_none_right_eq_some.mp hstep
      exact h.call hcall
  | beginRepeat =>
      obtain ⟨controller, hbegin, rfl⟩ := Option.map_eq_some_iff.mp hstep
      obtain ⟨capture, -, rfl⟩ := Option.map_eq_some_iff.mp hbegin
      exact h.withController id
  | endRepeat =>
      obtain ⟨controller, hend, rfl⟩ := Option.map_eq_some_iff.mp hstep
      obtain ⟨capture, -, rfl⟩ := Option.map_eq_some_iff.mp hend
      exact h.withController id
  | copyBitmap bitmap =>
      obtain ⟨-, hsame⟩ := Option.ite_none_right_eq_some.mp hstep
      obtain rfl := Option.some.inj hsame
      exact h.withController id
  | capture sound =>
      obtain ⟨⟨hcapturing, hwaiting⟩, hsound⟩ := Option.ite_none_right_eq_some.mp hstep
      obtain ⟨audio, hsend, rfl⟩ := Option.map_eq_some_iff.mp hsound
      exact h.capture hcapturing hwaiting hsend
  | sendPicture =>
      obtain ⟨⟨hhandler, hfree, -⟩, hpicture⟩ := Option.ite_none_right_eq_some.mp hstep
      obtain ⟨video, hsend, rfl⟩ := Option.map_eq_some_iff.mp hpicture
      exact h.sendPicture hhandler hfree hsend
  | endBlock =>
      obtain ⟨⟨hhandler, hfree⟩, hsame⟩ := Option.ite_none_right_eq_some.mp hstep
      obtain rfl := Option.some.inj hsame
      refine h.withTracks h.audio h.video rfl rfl (fun _ => rfl) (fun _ => h.audioFree ?_)
        fun _ => hfree
      rw [hhandler]
      decide
  | audio party a =>
      obtain ⟨-, hmoved⟩ := Option.ite_none_right_eq_some.mp hstep
      obtain ⟨audio, hown, rfl⟩ := Option.map_eq_some_iff.mp hmoved
      exact h.withTracks (h.audio.own hown) h.video (Track.pipe_own hown) rfl h.waiting
        (fun hne => Track.free_own (h.audioFree hne) hown) h.videoFree
  | video party a =>
      obtain ⟨-, hmoved⟩ := Option.ite_none_right_eq_some.mp hstep
      obtain ⟨video, hown, rfl⟩ := Option.map_eq_some_iff.mp hmoved
      exact h.withTracks h.audio (h.video.own hown) rfl (Track.pipe_own hown) h.waiting
        h.audioFree fun hne => Track.free_own (h.videoFree hne) hown

theorem orderly_of_run (inputs : List Input) (s : Recorder)
    (hrun : machine.run inputs = some s) (hsettled : machine.Always Settled inputs) :
    s.Orderly := by
  refine Machine.run_induction (M := machine)
    (P := fun inputs s => machine.Always Settled inputs → s.Orderly) ?_ ?_ inputs s hrun hsettled
  · intro _
    exact ⟨Track.orderly_init _, Track.orderly_init _, fun _ => rfl, fun _ => rfl, fun _ => rfl,
      trivial, fun hne => nomatch hne⟩
  · intro inputs s input s' hs ih hstep hsettled
    obtain ⟨hbefore, hlast⟩ := (Machine.always_concat inputs input).mp hsettled
    exact (ih hbefore).step (hlast s hs) hstep

theorem startAudio_controller (hstart : s.startAudio result = some s') :
    s'.controller = s.controller := by
  obtain ⟨-, hsame⟩ := Option.ite_none_right_eq_some.mp hstart
  cases result <;> cases Option.some.inj hsame <;> rfl

theorem stop_controller (hstop : s.stop = some s') : s'.controller = s.controller := by
  obtain ⟨-, hsame⟩ := Option.ite_none_right_eq_some.mp hstop
  cases Option.some.inj hsame
  rfl

theorem call_controller {created : Option ℤ} (hcall : s.call created = some s') :
    s'.controller = s.controller := by
  unfold Recorder.call at hcall
  split at hcall
  · cases hcall
  all_goals
    obtain ⟨track, -, rfl⟩ := Option.map_eq_some_iff.mp hcall
    rfl

theorem next_controller (hnext : s.next result = some s') :
    s.controller.next result = some s'.controller := by
  obtain ⟨controller, hstep, hrest⟩ := Option.bind_eq_some_iff.mp hnext
  rw [hstep]
  split at hrest
  · cases Option.some.inj hrest
    rfl
  · rw [startAudio_controller hrest]
  · cases Option.some.inj hrest
    rfl
  · cases Option.some.inj hrest
    rfl

/-- A step is one of the controller, or leaves it alone. -/
theorem step_controller {input : Input} (hstep : s.step input = some s') :
    match input.toController with
    | some i => s.controller.step i = some s'.controller
    | none => s'.controller = s.controller := by
  cases input with
  | openCall parsed rid =>
      obtain ⟨-, hcall⟩ := Option.ite_none_right_eq_some.mp hstep
      obtain ⟨controller, hopen, rfl⟩ := Option.map_eq_some_iff.mp hcall
      exact hopen
  | closeCall | destruct =>
      obtain ⟨-, hcall⟩ := Option.ite_none_right_eq_some.mp hstep
      obtain ⟨controller, hclose, hstop⟩ := Option.bind_eq_some_iff.mp hcall
      exact hclose.trans (congrArg some (stop_controller hstop).symm)
  | next result =>
      obtain ⟨-, hnext⟩ := Option.ite_none_right_eq_some.mp hstep
      exact next_controller hnext
  | call created =>
      obtain ⟨-, hcall⟩ := Option.ite_none_right_eq_some.mp hstep
      exact call_controller hcall
  | beginRepeat | endRepeat =>
      obtain ⟨controller, hrepeat, rfl⟩ := Option.map_eq_some_iff.mp hstep
      exact hrepeat
  | copyBitmap | endBlock =>
      obtain ⟨-, hsame⟩ := Option.ite_none_right_eq_some.mp hstep
      cases Option.some.inj hsame
      rfl
  | capture | sendPicture | audio | video =>
      obtain ⟨-, hmoved⟩ := Option.ite_none_right_eq_some.mp hstep
      obtain ⟨track, -, rfl⟩ := Option.map_eq_some_iff.mp hmoved
      rfl

/-- The controller runs as it does without the pipes. -/
theorem controller_of_run (inputs : List Input) (s : Recorder)
    (hrun : machine.run inputs = some s) :
    FFmpegController.machine.run (inputs.filterMap Input.toController) = some s.controller := by
  refine Machine.run_induction (M := machine)
    (P := fun inputs s => FFmpegController.machine.run (inputs.filterMap Input.toController) =
      some s.controller) rfl ?_ inputs s hrun
  intro inputs s input s' _ ih hstep
  have hcontroller := step_controller hstep
  rw [List.filterMap_append]
  cases hinput : input.toController with
  | none =>
      rw [hinput] at hcontroller
      rw [List.filterMap_cons_none hinput, List.filterMap_nil, List.append_nil, ih, hcontroller]
  | some i =>
      rw [hinput] at hcontroller
      rw [List.filterMap_cons_some hinput, List.filterMap_nil]
      exact Machine.run_concat_eq_some.mpr ⟨s.controller, ih, hcontroller⟩

end

/-! ## The two streams -/

/-- A recording is opened up to its calls on the pipes. -/
def opening : List Input :=
  .openCall (some { width := 16, height := 2 }) "1" :: List.replicate 6 (.next true)

/-- A pipe is opened and connected. -/
def connecting (track : Worker.Party PipeSender.Client → PipeSender.Action → Input) : List Input :=
  List.replicate 5 (track .worker .next) ++ [track .worker (.connect true), track .worker .next]

/-- The sound comes while the pipe of the pictures is not connected, and again when it is. -/
def late : List Input :=
  List.flatten [opening,
    [.call (some 8)], List.replicate 4 (.audio (.client .controller) .next),
    [.call (some 9)], List.replicate 4 (.video (.client .controller) .next),
    connecting .audio,
    [.capture [1]], List.replicate 5 (.audio (.client .capture) .next), [.sendPicture, .endBlock],
    connecting .video,
    [.beginRepeat, .copyBitmap (List.replicate 128 7), .endRepeat],
    [.capture [2]], List.replicate 5 (.audio (.client .capture) .next),
    [.sendPicture], List.replicate 5 (.video (.client .capture) .next), [.endBlock],
    List.replicate 5 (.audio .worker .next), List.replicate 5 (.video .worker .next)]

theorem isSome_late : (machine.run late).isSome = true := by decide +kernel

theorem settled_late : machine.Always Settled late := by decide +kernel

/-- Whatever the threads do and when: of the pieces of a recording a track misses those from
before its pipe was connected, and what is written to the pipe are the first of the others, in
order. -/
theorem carries_of_run (inputs : List Input) (s : Recorder) (hrun : machine.run inputs = some s)
    (hsettled : machine.Always Settled inputs) : s.audio.Carries ∧ s.video.Carries := by
  have h := orderly_of_run inputs s hrun hsettled
  exact ⟨h.audio.carries, h.video.carries⟩

theorem carries_late : ∃ s, machine.run late = some s ∧ s.audio.Carries ∧ s.video.Carries := by
  obtain ⟨s, hs⟩ := Option.isSome_iff_exists.mp isSome_late
  exact ⟨s, hs, carries_of_run late s hs settled_late⟩

/-- What is written first, second and so on to the two pipes belongs to the same blocks. -/
def InStep (s : Recorder) : Prop :=
  ∀ (i : ℕ) sound picture, s.audio.written[i]? = some sound → s.video.written[i]? = some picture →
    ∃ n, s.audio.messageAt n = some sound ∧ s.video.messageAt n = some picture

/-- The sound and the pictures are in step exactly if as many blocks came before the one pipe was
connected as before the other, or nothing is written to one of them yet. -/
theorem inStep_iff (inputs : List Input) (s : Recorder) (hrun : machine.run inputs = some s)
    (hsettled : machine.Always Settled inputs) :
    s.InStep ↔ s.audio.missed = s.video.missed ∨ s.audio.written = [] ∨ s.video.written = [] := by
  have h := orderly_of_run inputs s hrun hsettled
  have haudio := h.audio.carries
  have hvideo := h.video.carries
  constructor
  · intro hinStep
    by_contra hno
    obtain ⟨hmissed, hsounds, hpictures⟩ := by simpa only [not_or] using hno
    obtain ⟨sound, sounds, hsound⟩ := List.exists_cons_of_ne_nil hsounds
    obtain ⟨picture, pictures, hpicture⟩ := List.exists_cons_of_ne_nil hpictures
    have hsound₀ : s.audio.written[0]? = some sound := by rw [hsound]; rfl
    have hpicture₀ : s.video.written[0]? = some picture := by rw [hpicture]; rfl
    -- the first sound and the first picture each fix the block
    obtain ⟨n, hn, hn'⟩ := hinStep 0 sound picture hsound₀ hpicture₀
    have hfirst := h.audio.messageAt_inj hn (haudio.messageAt hsound₀)
    have hfirst' := h.video.messageAt_inj hn' (hvideo.messageAt hpicture₀)
    exact hmissed (hfirst.symm.trans hfirst')
  · rintro (hmissed | hnone | hnone) i sound picture hsound hpicture
    · refine ⟨s.audio.missed + i, haudio.messageAt hsound, ?_⟩
      rw [hmissed]
      exact hvideo.messageAt hpicture
    · rw [hnone] at hsound
      cases hsound
    · rw [hnone] at hpicture
      cases hpicture

/-- The first picture is written beside a block of sound from before it. -/
theorem not_inStep_late : ∃ s, machine.run late = some s ∧ ¬ s.InStep := by
  obtain ⟨s, hs⟩ := Option.isSome_iff_exists.mp isSome_late
  have hcounts : (machine.run late).map (fun s => (s.audio.missed, s.video.missed,
      s.audio.written.length, s.video.written.length)) = some (0, 1, 1, 1) := by decide +kernel
  rw [hs, Option.map_some, Option.some.injEq, Prod.mk.injEq, Prod.mk.injEq, Prod.mk.injEq]
    at hcounts
  obtain ⟨haudio, hvideo, hsounds, hpictures⟩ := hcounts
  refine ⟨s, hs, fun hinStep => ?_⟩
  rcases (inStep_iff late s hs settled_late).mp hinStep with hmissed | hnone | hnone
  · omega
  · rw [hnone] at hsounds
    cases hsounds
  · rw [hnone] at hpictures
    cases hpictures

end Recorder

end RyuLib
