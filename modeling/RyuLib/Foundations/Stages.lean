import RyuLib.Foundations.Backlog

/-!
# Stages in a row

A stage makes an output of every input and keeps a state in between.  A worker runs a stage
behind a queue that others fill, and that they may shorten: what it has put out depends on what it
has received and on nothing else (`Worker.Sound`).  Stages that are joined by such queues compute
what they compute one after the other, whenever each of them works (`comp_outputs`), as long as
nothing is lost in between; and else they do so for what was not lost.
-/

namespace Foundations

structure Stage (σ α β : Type*) where
  init : σ
  step : σ → α → σ × β

namespace Stage

variable {σ τ α β γ : Type*}

/-- One input more. -/
def feed (S : Stage σ α β) (s : σ × List β) (a : α) : σ × List β :=
  ((S.step s.1 a).1, s.2 ++ [(S.step s.1 a).2])

/-- The state after the inputs, and what they have made. -/
def run (S : Stage σ α β) (as : List α) : σ × List β := as.foldl S.feed (S.init, [])

def outputs (S : Stage σ α β) (as : List α) : List β := (S.run as).2

/-- The second stage is fed by the first one. -/
def comp (S : Stage σ α β) (T : Stage τ β γ) : Stage (σ × τ) α γ where
  init := (S.init, T.init)
  step s a := (((S.step s.1 a).1, (T.step s.2 (S.step s.1 a).2).1),
    (T.step s.2 (S.step s.1 a).2).2)

variable (S : Stage σ α β) (T : Stage τ β γ)

theorem run_concat (as : List α) (a : α) : S.run (as ++ [a]) = S.feed (S.run as) a := by
  rw [run, List.foldl_concat, run]

theorem outputs_concat (as : List α) (a : α) :
    S.outputs (as ++ [a]) = S.outputs as ++ [(S.step (S.run as).1 a).2] := by
  rw [outputs, run_concat]
  rfl

theorem exists_of_mem_outputs {as : List α} {b : β} (h : b ∈ S.outputs as) :
    ∃ s, ∃ a ∈ as, b = (S.step s a).2 := by
  induction as using List.reverseRecOn with
  | nil => cases h
  | append_singleton as a ih =>
      rw [outputs_concat, List.mem_append, List.mem_singleton] at h
      rcases h with h | rfl
      · obtain ⟨s, a', ha', rfl⟩ := ih h
        exact ⟨s, a', List.mem_append_left _ ha', rfl⟩
      · exact ⟨_, a, List.mem_append_right _ List.mem_cons_self, rfl⟩

/-- More inputs make more outputs. -/
theorem outputs_mono {first as : List α} (h : first <+: as) :
    S.outputs first <+: S.outputs as := by
  obtain ⟨second, rfl⟩ := h
  induction second using List.reverseRecOn with
  | nil => rw [List.append_nil]
  | append_singleton second a ih =>
      rw [← List.append_assoc, outputs_concat]
      exact ih.trans (List.prefix_append _ _)

theorem comp_run (as : List α) :
    (S.comp T).run as =
      (((S.run as).1, (T.run (S.outputs as)).1), T.outputs (S.outputs as)) := by
  induction as using List.reverseRecOn with
  | nil => rfl
  | append_singleton as a ih =>
      rw [run_concat, ih, outputs_concat, outputs_concat, run_concat, run_concat]
      rfl

theorem comp_outputs (as : List α) : (S.comp T).outputs as = T.outputs (S.outputs as) := by
  rw [outputs, comp_run]

end Stage

/-! ## Workers -/

/-- A queue, the state of the stage behind it and what that has put out. -/
structure Worker (σ α β : Type*) where
  backlog : Backlog α := {}
  state : σ
  out : List β := []

namespace Worker

variable {σ α β : Type*} {S : Stage σ α β} {w : Worker σ α β}

def put (w : Worker σ α β) (a : α) : Worker σ α β := { w with backlog := w.backlog.add a }

/-- The `n` oldest inputs are discarded. -/
def drop (w : Worker σ α β) (n : ℕ) : Worker σ α β :=
  { w with backlog := w.backlog.leave n false }

/-- The oldest input is worked on, if there is one. -/
def work (S : Stage σ α β) (w : Worker σ α β) : Option (Worker σ α β × β) :=
  w.backlog.queue.head?.map fun a =>
    ({ backlog := w.backlog.leave 1 true
       state := (S.step w.state a).1
       out := w.out ++ [(S.step w.state a).2] }, (S.step w.state a).2)

/-- The worker has worked on what it has received, in that order. -/
structure Sound (S : Stage σ α β) (w : Worker σ α β) : Prop where
  accounted : w.backlog.Accounted
  run : (w.state, w.out) = S.run w.backlog.received

theorem sound_start (S : Stage σ α β) : Sound S { state := S.init } :=
  ⟨Backlog.accounted_empty, rfl⟩

theorem Sound.put (h : Sound S w) (a : α) : Sound S (w.put a) := ⟨h.accounted.add a, h.run⟩

theorem Sound.drop (h : Sound S w) (n : ℕ) : Sound S (w.drop n) :=
  ⟨h.accounted.leave n false, by
    rw [Worker.drop, Backlog.received_discard]
    exact h.run⟩

theorem work_cases {w' : Worker σ α β} {b : β} (h : w.work S = some (w', b)) :
    ∃ a rest, w.backlog.queue = a :: rest ∧ b = (S.step w.state a).2 ∧
      w' = { backlog := w.backlog.leave 1 true, state := (S.step w.state a).1,
             out := w.out ++ [b] } := by
  obtain ⟨a, ha, heq⟩ := Option.map_eq_some_iff.mp h
  obtain ⟨rfl, rfl⟩ := Prod.mk.inj heq
  obtain ⟨rest, hqueue⟩ := List.head?_eq_some_iff.mp ha
  exact ⟨a, rest, hqueue, rfl, rfl⟩

theorem Sound.work (h : Sound S w) {w' : Worker σ α β} {b : β} (hwork : w.work S = some (w', b)) :
    Sound S w' := by
  obtain ⟨a, rest, hqueue, rfl, rfl⟩ := work_cases hwork
  refine ⟨h.accounted.leave 1 true, ?_⟩
  rw [Backlog.received_take _ hqueue, Stage.run_concat, ← h.run]
  rfl

theorem Sound.out_eq (h : Sound S w) : w.out = S.outputs w.backlog.received := by
  rw [Stage.outputs, ← h.run]

end Worker

end Foundations
