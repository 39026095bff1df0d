import RyuLib.Audio.AudioSDL

/-!
# The sessions of an AudioSDL

An `open` empties the queue of frames and leaves the packet reader as it is, so that what
the session before did not fill a frame with stands in front of the new data.  To see
whose bytes a frame holds, a byte carries the number of bytes that were passed to `play`
before it.

* `Sessions.fresh_iff`: the frames of every session start with its own first byte exactly
  when no `play` completes a frame while the reader holds bytes of an earlier session.
-/

namespace RyuLib

open Foundations

namespace AudioSDL

/-- A byte and its place among all bytes passed to `play`. -/
structure Sample where
  position : ℕ
  value : UInt8
  deriving DecidableEq

/-- Data that is passed to `play` after `total` bytes. -/
def mark (total : ℕ) (data : List UInt8) : List Sample :=
  data.mapIdx fun i value => ⟨total + i, value⟩

/-- `total` bytes were passed to `play` so far, `opened` of them before the last `open`, and
`since` are those passed after it. -/
structure Sessions where
  session : Session Sample
  total : ℕ := 0
  opened : ℕ := 0
  since : List Sample := []

namespace Sessions

def step (s : Sessions) : Call UInt8 → Option Sessions
  | .open_ channels sampleRate fpb opened =>
      (AudioSDL.step s.session (.open_ channels sampleRate fpb opened)).map fun session =>
        { session := session, total := s.total, opened := s.total }
  | .play data =>
      (AudioSDL.step s.session (.play (mark s.total data))).map fun session =>
        { s with
          session := session
          total := s.total + data.length
          since := s.since ++ mark s.total data }
  | .close => (AudioSDL.step s.session .close).map fun session => { s with session := session }
  | .callback =>
      (AudioSDL.step s.session .callback).map fun session => { s with session := session }

def machine (buffer : Block Sample) : Machine Sessions (Call UInt8) :=
  ⟨{ session := (AudioSDL.machine buffer).init }, step⟩

/-- The frames queued since the last `open` hold the bytes passed to `play` since then, from
the first one on. -/
def Fresh (s : Sessions) : Prop := s.session.pushed.flatten <+: s.since

/-- No frame is completed while the reader holds bytes of an earlier session. -/
def Clean (s : Sessions) : Call UInt8 → Prop
  | .play data =>
      (∀ b ∈ s.session.audio.packetReader.held, s.opened ≤ b.position) ∨
        s.session.audio.packetReader.size + data.length < s.session.audio.frameSize
  | _ => True

@[simp] theorem length_mark (total : ℕ) (data : List UInt8) :
    (mark total data).length = data.length := List.length_mapIdx

theorem position_of_mem_mark {total : ℕ} {data : List UInt8} {b : Sample}
    (h : b ∈ mark total data) : total ≤ b.position ∧ b.position < total + data.length := by
  obtain ⟨i, hi, hb⟩ := List.mem_iff_getElem.mp h
  rw [length_mark] at hi
  simp only [mark, List.getElem_mapIdx] at hb
  rw [← hb]
  exact ⟨Nat.le_add_right total i, Nat.add_lt_add_left hi total⟩

/-- The reader had `old` in it at the last `open`: these bytes and those played since are
in the frames and in the reader. -/
structure Stands (old : List Sample) (s : Sessions) : Prop where
  opened : s.opened ≤ s.total
  whole : s.session.pushed.flatten ++ s.session.audio.packetReader.held = old ++ s.since
  old : ∀ b ∈ old, b.position < s.opened
  since : ∀ b ∈ s.since, s.opened ≤ b.position
  held : ∀ b ∈ s.session.audio.packetReader.held, b.position < s.total
  full : ∀ frame ∈ s.session.pushed, frame ≠ []

/-- Bytes of an earlier session show as soon as there is a frame. -/
theorem Stands.fresh_cases {old : List Sample} {s : Sessions} (h : Stands old s) :
    s.Fresh ↔ old = [] ∨ s.session.pushed = [] := by
  have hwhole := h.whole
  constructor
  · intro hfresh
    by_contra hneither
    obtain ⟨hold, hpushed⟩ := not_or.mp hneither
    obtain ⟨b, old', hb⟩ := List.exists_cons_of_ne_nil hold
    obtain ⟨frame, frames, hframes⟩ := List.exists_cons_of_ne_nil hpushed
    obtain ⟨c, frame', hc⟩ := List.exists_cons_of_ne_nil
      (h.full frame (hframes ▸ List.mem_cons_self))
    -- the first byte of the first frame is an old one
    have hflat : s.session.pushed.flatten = c :: (frame' ++ frames.flatten) := by
      rw [hframes, hc]
      rfl
    rw [hflat, hb] at hwhole
    obtain ⟨more, hmore⟩ := hfresh
    rw [hflat] at hmore
    have hbefore := h.old b (hb ▸ List.mem_cons_self)
    have hafter := h.since c (hmore ▸ List.mem_cons_self)
    rw [(List.cons_eq_cons.mp hwhole).1] at hafter
    omega
  · rintro (rfl | hpushed)
    · exact ⟨_, hwhole⟩
    · rw [Fresh, hpushed]
      exact List.nil_prefix

/-- Frames are cut off what the reader holds exactly when there is enough for one. -/
theorem sliced_eq_nil_iff {α : Type*} {n : ℕ} {stream rest : List α} {frames : List (List α)}
    (h : Sliced n stream frames rest) (hshort : rest.length < n) :
    frames = [] ↔ stream.length < n := by
  rw [(h.eq_slices hshort).1, ← List.length_eq_zero_iff, length_slices, Nat.div_eq_zero_iff]
  omega

/-- The bytes of a `play` are younger than all those that were there. -/
theorem Stands.played {old : List Sample} {s : Sessions} (h : Stands old s) {data : List UInt8}
    {frames : List (List Sample)} {audio : AudioSDL Sample} {n : ℕ} (hpos : 0 < n)
    (hsliced : Sliced n (s.session.audio.packetReader.held ++ mark s.total data) frames
      audio.packetReader.held) :
    Stands old
      { s with
        session := { s.session with audio := audio, pushed := s.session.pushed ++ frames }
        total := s.total + data.length
        since := s.since ++ mark s.total data } := by
  refine ⟨h.opened.trans (Nat.le_add_right _ _), ?_, h.old, ?_, ?_, ?_⟩
  · calc (s.session.pushed ++ frames).flatten ++ audio.packetReader.held
        = s.session.pushed.flatten ++ (frames.flatten ++ audio.packetReader.held) := by
          rw [List.flatten_append, List.append_assoc]
      _ = s.session.pushed.flatten ++ s.session.audio.packetReader.held ++
          mark s.total data := by rw [hsliced.whole, List.append_assoc]
      _ = old ++ (s.since ++ mark s.total data) := by rw [h.whole, List.append_assoc]
  · intro b hb
    rcases List.mem_append.mp hb with hbefore | hnew
    · exact h.since b hbefore
    · exact h.opened.trans (position_of_mem_mark hnew).1
  · intro b hb
    have hmem : b ∈ s.session.audio.packetReader.held ++ mark s.total data := by
      rw [← hsliced.whole]
      exact List.mem_append_right _ hb
    show b.position < s.total + data.length
    rcases List.mem_append.mp hmem with hbefore | hnew
    · exact (h.held b hbefore).trans_le (Nat.le_add_right _ _)
    · exact (position_of_mem_mark hnew).2
  · intro frame hframe
    rcases List.mem_append.mp hframe with hbefore | hnew
    · exact h.full frame hbefore
    · intro hnil
      have hlength := hsliced.each frame hnew
      rw [hnil, List.length_nil] at hlength
      omega

theorem Stands.play {old : List Sample} {s s' : Sessions} {data : List UInt8}
    (h : Stands old s) (hstep : step s (.play data) = some s') :
    Stands old s' ∧ (s.Fresh → (s'.Fresh ↔ Clean s (.play data))) := by
  obtain ⟨session, hsession, rfl⟩ := Option.map_eq_some_iff.mp hstep
  obtain ⟨⟨frames, audio⟩, hplay, rfl⟩ := Option.map_eq_some_iff.mp hsession
  obtain ⟨hsize, hsliced, hshort, -, -⟩ := play_spec hplay
  have hstands := h.played (by omega) hsliced
  refine ⟨hstands, fun hfresh => ?_⟩
  rw [hstands.fresh_cases]
  have hwhole := h.whole
  have hframes := sliced_eq_nil_iff hsliced (by rw [PacketReader.length_held]; exact hshort)
  rw [List.length_append, PacketReader.length_held, length_mark] at hframes
  by_cases hold : old = []
  · -- everything in the reader is of this session
    refine iff_of_true (Or.inl hold) (Or.inl fun b hb => h.since b ?_)
    rw [hold, List.nil_append] at hwhole
    rw [← hwhole]
    exact List.mem_append_right _ hb
  · have hpushed := (h.fresh_cases.mp hfresh).resolve_left hold
    rw [hpushed, List.flatten_nil, List.nil_append] at hwhole
    obtain ⟨b, old', hb⟩ := List.exists_cons_of_ne_nil hold
    have hstale : ¬ ∀ b ∈ s.session.audio.packetReader.held, s.opened ≤ b.position := by
      intro hall
      have hafter := hall b (by rw [hwhole, hb]; exact List.mem_cons_self)
      have hbefore := h.old b (hb ▸ List.mem_cons_self)
      omega
    show old = [] ∨ s.session.pushed ++ frames = [] ↔ _ ∨ _
    rw [hpushed, List.nil_append, hframes]
    constructor
    · rintro (hnil | hfew)
      · exact (hold hnil).elim
      · right
        omega
    · rintro (hall | hfew)
      · exact (hstale hall).elim
      · right
        omega

theorem stands_step {old : List Sample} {s s' : Sessions} {call : Call UInt8}
    (h : Stands old s) (hstep : step s call = some s') :
    (∃ old', Stands old' s') ∧ (s.Fresh → (s'.Fresh ↔ Clean s call)) := by
  cases call with
  | open_ channels sampleRate fpb opened =>
      obtain rfl := Option.some.inj hstep
      refine ⟨⟨s.session.audio.packetReader.held, le_refl _, (List.append_nil _).symm, h.held, ?_,
        h.held, ?_⟩, fun _ => iff_of_true List.nil_prefix trivial⟩
      · intro b hb
        exact absurd hb List.not_mem_nil
      · intro frame hframe
        exact absurd hframe List.not_mem_nil
  | play data =>
      obtain ⟨hstands, hfresh⟩ := h.play hstep
      exact ⟨⟨old, hstands⟩, hfresh⟩
  | close =>
      obtain rfl := Option.some.inj hstep
      exact ⟨⟨old, h.opened, h.whole, h.old, h.since, h.held, h.full⟩,
        fun hfresh => iff_of_true hfresh trivial⟩
  | callback =>
      obtain rfl := Option.some.inj hstep
      exact ⟨⟨old, h.opened, h.whole, h.old, h.since, h.held, h.full⟩,
        fun hfresh => iff_of_true hfresh trivial⟩

/-- In every run the frames queued after an `open` hold the bytes played after it, from the
first one on, throughout, if and only if no `play` completes a frame while the reader holds
bytes of an earlier session. -/
theorem fresh_iff (buffer : Block Sample) {calls : List (Call UInt8)} {s : Sessions}
    (hrun : (machine buffer).run calls = some s) :
    (machine buffer).Throughout Fresh calls ↔ (machine buffer).Always Clean calls := by
  have hinit : ∃ old, Stands old (machine buffer).init := by
    refine ⟨[], le_refl _, rfl, ?_, ?_, ?_, ?_⟩
    · intro b hb
      exact absurd hb List.not_mem_nil
    · intro b hb
      exact absurd hb List.not_mem_nil
    · intro b hb
      exact absurd hb List.not_mem_nil
    · intro frame hframe
      exact absurd hframe List.not_mem_nil
  refine Machine.throughout_iff_always (M := machine buffer) List.nil_prefix ?_ hrun
  intro calls s call s' hs hthroughout _ hstep
  obtain ⟨old, hstands⟩ : ∃ old, Stands old s :=
    Machine.invariant (I := fun s => ∃ old, Stands old s) hinit
      (fun _ _ _ hstands hstep => (stands_step hstands.choose_spec hstep).1) hs
  exact (stands_step hstands hstep).2 (hthroughout.last hs)

/-- Frames of four bytes: of the first session two bytes are left, and they are the first
ones in the second session. -/
theorem not_fresh_leftover :
    ∃ s, (machine fun _ => ⟨0, 0⟩).run
        [.open_ 1 48000 1 true, .play [1, 2], .close, .open_ 1 48000 1 true, .play [3, 4]] =
          some s ∧ ¬ s.Fresh := by
  refine ⟨_, rfl, ?_⟩
  unfold Fresh
  decide

/-- One whole frame leaves nothing behind. -/
theorem fresh_iff_whole :
    (machine fun _ => ⟨0, 0⟩).Throughout Fresh [.open_ 1 48000 1 true, .play [1, 2, 3, 4]] ↔
      (machine fun _ => ⟨0, 0⟩).Always Clean [.open_ 1 48000 1 true, .play [1, 2, 3, 4]] :=
  fresh_iff _ rfl

end Sessions

end AudioSDL

end RyuLib
