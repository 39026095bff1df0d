import Mathlib.Tactic

/-!
# Runs of a machine

A machine has a start state and a partial step function; an input that is not
possible in a state has no next state.  A run is a list of inputs.  This file
packages the induction over runs once (`run_induction`, `invariant`) and the
ways in which conditions on a run are stated: in every state (`Throughout`), at
every step (`Always`), and between an earlier and a later step (`NoneAfter`).
-/

namespace Foundations

/-- A fold of actions each of which is in a reflexive and transitive relation, as long as
what allows the actions is kept by the relation. -/
theorem foldl_relation {σ β : Type*} {R : σ → σ → Prop} (hrefl : ∀ s, R s s)
    (htrans : ∀ {s t u}, R s t → R t u → R s u) {P : σ → β → Prop}
    (hkeep : ∀ {s s' b}, R s s' → P s b → P s' b) {f : σ → β → σ}
    (hf : ∀ {s b}, P s b → R s (f s b)) {bs : List β} {s : σ} (hbs : ∀ b ∈ bs, P s b) :
    R s (bs.foldl f s) := by
  induction bs generalizing s with
  | nil => exact hrefl s
  | cons b bs ih =>
      have hfirst := hf (hbs b List.mem_cons_self)
      exact htrans hfirst (ih fun b' hb' => hkeep hfirst (hbs b' (List.mem_cons_of_mem b hb')))

/-- A start state and a partial step function. -/
structure Machine (σ ι : Type*) where
  init : σ
  step : σ → ι → Option σ

namespace Machine

variable {σ ι : Type*} (M : Machine σ ι)

/-- The state reached from `s` by taking the inputs in order. -/
def runFrom (s : σ) : List ι → Option σ
  | [] => some s
  | i :: inputs => (M.step s i).bind fun s' => runFrom s' inputs

/-- The state a run ends in. -/
def run (inputs : List ι) : Option σ := M.runFrom M.init inputs

variable {M}

theorem runFrom_append (s : σ) (first second : List ι) :
    M.runFrom s (first ++ second) = (M.runFrom s first).bind fun s' => M.runFrom s' second := by
  induction first generalizing s with
  | nil => rfl
  | cons i first ih =>
      simp only [List.cons_append, runFrom]
      cases M.step s i with
      | none => rfl
      | some s' => exact ih s'

@[simp] theorem run_nil : M.run [] = some M.init := rfl

theorem run_append (first second : List ι) :
    M.run (first ++ second) = (M.run first).bind fun s => M.runFrom s second :=
  runFrom_append M.init first second

theorem run_concat (inputs : List ι) (i : ι) :
    M.run (inputs ++ [i]) = (M.run inputs).bind fun s => M.step s i := by
  rw [run_append]
  congr 1
  funext s
  simp only [runFrom]
  cases M.step s i <;> rfl

/-- The last step of a run. -/
theorem run_concat_eq_some {inputs : List ι} {i : ι} {s' : σ} :
    M.run (inputs ++ [i]) = some s' ↔
      ∃ s, M.run inputs = some s ∧ M.step s i = some s' := by
  rw [run_concat, Option.bind_eq_some_iff]

/-- Every part of a run is a run. -/
theorem run_front {first second : List ι} {s' : σ} (h : M.run (first ++ second) = some s') :
    ∃ s, M.run first = some s := by
  rw [run_append, Option.bind_eq_some_iff] at h
  obtain ⟨s, hs, _⟩ := h
  exact ⟨s, hs⟩

/-- What holds at the start and is carried along by every last step holds of
every run and the state it ends in. -/
theorem run_induction {P : List ι → σ → Prop} (hinit : P [] M.init)
    (hstep : ∀ inputs s i s', M.run inputs = some s → P inputs s → M.step s i = some s' →
      P (inputs ++ [i]) s') :
    ∀ inputs s, M.run inputs = some s → P inputs s := by
  intro inputs
  induction inputs using List.reverseRecOn with
  | nil =>
      intro s hs
      rw [run_nil, Option.some.injEq] at hs
      exact hs ▸ hinit
  | append_singleton inputs i ih =>
      intro s' hs'
      obtain ⟨s, hs, hstep'⟩ := run_concat_eq_some.mp hs'
      exact hstep inputs s i s' hs (ih s hs) hstep'

/-- An invariant that every step preserves holds in every state reached. -/
theorem invariant {I : σ → Prop} (hinit : I M.init)
    (hstep : ∀ s i s', I s → M.step s i = some s' → I s') {inputs : List ι} {s : σ}
    (hrun : M.run inputs = some s) : I s :=
  run_induction (P := fun _ s => I s) hinit
    (fun _ s i s' _ hs hstep' => hstep s i s' hs hstep') inputs s hrun

/-- A relation that every step carries on holds between any two states of a run. -/
theorem run_relation {R : σ → σ → Prop} (hrefl : ∀ s, R s s)
    (hstep : ∀ inputs s₀ s i s', M.run inputs = some s → R s₀ s → M.step s i = some s' → R s₀ s')
    {first : List ι} {s₀ : σ} (hfirst : M.run first = some s₀) :
    ∀ {second : List ι} {s : σ}, M.run (first ++ second) = some s → R s₀ s := by
  intro second
  induction second using List.reverseRecOn with
  | nil =>
      intro s hs
      rw [List.append_nil, hfirst, Option.some.injEq] at hs
      exact hs ▸ hrefl s₀
  | append_singleton second i ih =>
      intro s' hs'
      rw [← List.append_assoc] at hs'
      obtain ⟨s, hs, hstep'⟩ := run_concat_eq_some.mp hs'
      exact hstep (first ++ second) s₀ s i s' hs (ih hs) hstep'

/-! ## Conditions on a run -/

variable (M) in
/-- Every step of the run satisfies `P`. -/
def Always (P : σ → ι → Prop) (inputs : List ι) : Prop :=
  ∀ first i second, inputs = first ++ i :: second → ∀ s, M.run first = some s → P s i

variable (M) in
/-- Some step of the run satisfied `P`. -/
def Happened (P : σ → ι → Prop) (inputs : List ι) : Prop :=
  ∃ first i second, inputs = first ++ i :: second ∧ ∃ s, M.run first = some s ∧ P s i

variable (M) in
/-- After a step that satisfies `P`, none satisfies `Q`. -/
def NoneAfter (P Q : σ → ι → Prop) (inputs : List ι) : Prop :=
  ∀ first i second, inputs = first ++ i :: second → ∀ s, M.run first = some s →
    Q s i → ¬ M.Happened P first

theorem split_concat {inputs first second : List ι} {i j : ι}
    (h : inputs ++ [i] = first ++ j :: second) :
    (second = [] ∧ first = inputs ∧ j = i) ∨
      ∃ front, second = front ++ [i] ∧ inputs = first ++ j :: front := by
  -- the step in question is the last one or stands before it
  rcases List.eq_nil_or_concat second with rfl | ⟨front, last, rfl⟩
  · obtain ⟨hfirst, hlast⟩ := List.append_inj' h rfl
    exact Or.inl ⟨rfl, hfirst.symm, (List.singleton_inj.mp hlast).symm⟩
  · have h' : inputs ++ [i] = (first ++ j :: front) ++ [last] := by
      simpa using h
    obtain ⟨hfirst, hlast⟩ := List.append_inj' h' rfl
    exact Or.inr ⟨front, by rw [List.concat_eq_append, List.singleton_inj.mp hlast], hfirst⟩

/-- What holds of every step holds of those before the last one and of the last one. -/
theorem forall_split_concat {R : List ι → ι → Prop} {inputs : List ι} {i : ι} :
    (∀ first j second, inputs ++ [i] = first ++ j :: second → R first j) ↔
      (∀ first j second, inputs = first ++ j :: second → R first j) ∧ R inputs i := by
  constructor
  · intro h
    refine ⟨?_, h inputs i [] rfl⟩
    intro first j second hsplit
    exact h first j (second ++ [i]) (by rw [hsplit]; simp)
  · rintro ⟨hfront, hlast⟩ first j second hsplit
    rcases split_concat hsplit with ⟨rfl, rfl, rfl⟩ | ⟨front, rfl, hinputs⟩
    · exact hlast
    · exact hfront first j front hinputs

theorem always_nil (P : σ → ι → Prop) : M.Always P [] := by
  intro first i second h
  simp at h

theorem always_concat {P : σ → ι → Prop} (inputs : List ι) (i : ι) :
    M.Always P (inputs ++ [i]) ↔
      M.Always P inputs ∧ ∀ s, M.run inputs = some s → P s i :=
  forall_split_concat

theorem not_happened_nil (P : σ → ι → Prop) : ¬ M.Happened P [] := by
  rintro ⟨first, i, second, h, _⟩
  simp at h

theorem happened_concat {P : σ → ι → Prop} {inputs : List ι} {i : ι} :
    M.Happened P (inputs ++ [i]) ↔
      M.Happened P inputs ∨ ∃ s, M.run inputs = some s ∧ P s i := by
  constructor
  · rintro ⟨first, j, second, hsplit, s, hs, hP⟩
    rcases split_concat hsplit with ⟨rfl, rfl, rfl⟩ | ⟨front, rfl, hinputs⟩
    · exact Or.inr ⟨s, hs, hP⟩
    · exact Or.inl ⟨first, j, front, hinputs, s, hs, hP⟩
  · rintro (⟨first, j, second, hsplit, hP⟩ | hP)
    · exact ⟨first, j, second ++ [i], by rw [hsplit]; simp, hP⟩
    · exact ⟨inputs, i, [], rfl, hP⟩

/-- What the steps that satisfy `P` set, and no other step sets or takes back. -/
theorem happened_iff {P : σ → ι → Prop} (F : σ → Prop) (hinit : ¬ F M.init)
    (hstep : ∀ s i s', M.step s i = some s' → (F s' ↔ F s ∨ P s i)) {inputs : List ι} {s : σ}
    (hrun : M.run inputs = some s) : M.Happened P inputs ↔ F s := by
  apply run_induction (P := fun inputs s => M.Happened P inputs ↔ F s) _ _ inputs s hrun
  · exact iff_of_false (not_happened_nil P) hinit
  · intro inputs s i s' hs ih hstep'
    rw [happened_concat, ih, hstep s i s' hstep', hs]
    simp only [Option.some.injEq, exists_eq_left']

theorem noneAfter_nil (P Q : σ → ι → Prop) : M.NoneAfter P Q [] := by
  intro first i second h
  simp at h

theorem noneAfter_concat {P Q : σ → ι → Prop} {inputs : List ι} {i : ι} :
    M.NoneAfter P Q (inputs ++ [i]) ↔
      M.NoneAfter P Q inputs ∧
        ∀ s, M.run inputs = some s → Q s i → ¬ M.Happened P inputs :=
  forall_split_concat

/-- What always holds on a run holds on every front of it. -/
theorem Always.front {P : σ → ι → Prop} {first second : List ι}
    (h : M.Always P (first ++ second)) : M.Always P first := by
  intro front i back hsplit s hs
  exact h front i (back ++ second) (by rw [hsplit]; simp) s hs

/-- The machine from a later state on. -/
def resumed (M : Machine σ ι) (s : σ) : Machine σ ι := { M with init := s }

theorem runFrom_resumed (s s' : σ) (inputs : List ι) :
    (M.resumed s).runFrom s' inputs = M.runFrom s' inputs := by
  induction inputs generalizing s' with
  | nil => rfl
  | cons i inputs ih =>
      simp only [runFrom]
      exact congrArg _ (funext ih)

/-- The condition at the first step, and on the run from where it leads to. -/
theorem Always.cons {P : σ → ι → Prop} {i : ι} {inputs : List ι} (hfirst : P M.init i)
    (hrest : ∀ s, M.step M.init i = some s → (M.resumed s).Always P inputs) :
    M.Always P (i :: inputs) := by
  intro first j second hsplit t ht
  cases first with
  | nil =>
      obtain ⟨rfl, -⟩ := List.cons_eq_cons.mp hsplit
      exact Option.some.inj ht ▸ hfirst
  | cons k first =>
      obtain ⟨rfl, hinputs⟩ := List.cons_eq_cons.mp hsplit
      obtain ⟨s, hs, hrun⟩ := Option.bind_eq_some_iff.mp ht
      exact hrest s hs first j second hinputs t ((runFrom_resumed s s first).trans hrun)

theorem always_cons {P : σ → ι → Prop} {i : ι} {inputs : List ι} :
    M.Always P (i :: inputs) ↔
      P M.init i ∧ ∀ s ∈ M.step M.init i, (M.resumed s).Always P inputs := by
  constructor
  · intro h
    refine ⟨h [] i inputs rfl M.init rfl, ?_⟩
    rintro s hs first j second rfl t ht
    refine h (i :: first) j second rfl t ?_
    exact Option.bind_eq_some_iff.mpr ⟨s, hs, (runFrom_resumed s s first).symm.trans ht⟩
  · rintro ⟨hfirst, hrest⟩
    exact .cons hfirst hrest

/-- Whether a condition always holds is found out by running. -/
instance decidableAlways {P : σ → ι → Prop} [∀ s i, Decidable (P s i)] :
    ∀ (M : Machine σ ι) (inputs : List ι), Decidable (M.Always P inputs)
  | _, [] => isTrue (always_nil P)
  | M, i :: inputs =>
      have _ := fun s => decidableAlways (P := P) (M.resumed s) inputs
      decidable_of_iff _ (always_cons (M := M) (P := P) (i := i)).symm

variable (M) in
/-- Every state of the run satisfies `P`. -/
def Throughout (P : σ → Prop) (inputs : List ι) : Prop :=
  ∀ first second, inputs = first ++ second → ∀ s, M.run first = some s → P s

theorem Throughout.last {P : σ → Prop} {inputs : List ι} (h : M.Throughout P inputs) {s : σ}
    (hrun : M.run inputs = some s) : P s :=
  h inputs [] (List.append_nil inputs).symm s hrun

theorem throughout_nil {P : σ → Prop} : M.Throughout P [] ↔ P M.init := by
  constructor
  · intro h
    exact h.last run_nil
  · intro h first second hsplit s hs
    obtain ⟨rfl, _⟩ := List.append_eq_nil_iff.mp hsplit.symm
    rw [run_nil, Option.some.injEq] at hs
    exact hs ▸ h

theorem throughout_concat {P : σ → Prop} {inputs : List ι} {i : ι} :
    M.Throughout P (inputs ++ [i]) ↔
      M.Throughout P inputs ∧ ∀ s, M.run (inputs ++ [i]) = some s → P s := by
  constructor
  · intro h
    refine ⟨?_, fun s hs => h.last hs⟩
    intro first second hsplit s hs
    exact h first (second ++ [i]) (by rw [hsplit, List.append_assoc]) s hs
  · rintro ⟨hfront, hlast⟩ first second hsplit s hs
    -- the state in question is the last one or stands before it
    rcases List.eq_nil_or_concat second with rfl | ⟨front, last, rfl⟩
    · rw [List.append_nil] at hsplit
      exact hlast s (hsplit ▸ hs)
    · rw [List.concat_eq_append, ← List.append_assoc] at hsplit
      exact hfront first front (List.append_inj' hsplit rfl).1 s hs

/-- If every step meets a condition exactly when it leads to `P` and satisfies `Q`, then all
steps of a run do exactly when `P` holds throughout and `Q` at every step. -/
theorem throughout_and_always_iff {P : σ → Prop} {Q C : σ → ι → Prop} (hinit : P M.init)
    (hstep : ∀ inputs s i s', M.run inputs = some s → M.Throughout P inputs →
      M.Always C inputs → M.step s i = some s' → (P s' ∧ Q s i ↔ C s i)) {inputs : List ι} {s : σ}
    (hrun : M.run inputs = some s) :
    M.Throughout P inputs ∧ M.Always Q inputs ↔ M.Always C inputs := by
  refine run_induction
    (P := fun inputs _ => M.Throughout P inputs ∧ M.Always Q inputs ↔ M.Always C inputs) ?_ ?_
    inputs s hrun
  · exact iff_of_true ⟨throughout_nil.mpr hinit, always_nil Q⟩ (always_nil C)
  · intro inputs s i s' hs ih hstep'
    have hs' := run_concat_eq_some.mpr ⟨s, hs, hstep'⟩
    rw [throughout_concat, always_concat, always_concat]
    simp only [hs, hs', Option.some.injEq, forall_eq']
    constructor
    · rintro ⟨⟨hfront, hlast⟩, halways, hlast'⟩
      have hmet := ih.mp ⟨hfront, halways⟩
      exact ⟨hmet, (hstep inputs s i s' hs hfront hmet hstep').mp ⟨hlast, hlast'⟩⟩
    · rintro ⟨hmet, hlast⟩
      obtain ⟨hfront, halways⟩ := ih.mpr hmet
      obtain ⟨hP, hQ⟩ := (hstep inputs s i s' hs hfront hmet hstep').mpr hlast
      exact ⟨⟨hfront, hP⟩, halways, hQ⟩

/-- What every step establishes exactly when it meets a condition holds throughout a run
exactly when all its steps meet it. -/
theorem throughout_iff_always {P : σ → Prop} {C : σ → ι → Prop} (hinit : P M.init)
    (hstep : ∀ inputs s i s', M.run inputs = some s → M.Throughout P inputs →
      M.Always C inputs → M.step s i = some s' → (P s' ↔ C s i)) {inputs : List ι} {s : σ}
    (hrun : M.run inputs = some s) : M.Throughout P inputs ↔ M.Always C inputs := by
  have hiff := throughout_and_always_iff (M := M) (P := P) (Q := fun _ _ => True) (C := C) hinit
    (fun inputs s i s' hs hbefore hmet hstep' => by
      rw [and_true]
      exact hstep inputs s i s' hs hbefore hmet hstep') hrun
  have htrue : M.Always (fun _ _ => True) inputs := fun _ _ _ _ _ _ => trivial
  rwa [and_iff_left htrue] at hiff

/-- Two conditions that say the same of a step as long as an invariant holds, which steps that
meet the second one keep, hold of the same runs. -/
theorem always_iff_always {I : σ → Prop} {Q C : σ → ι → Prop} (hinit : I M.init)
    (hiff : ∀ s i, I s → (Q s i ↔ C s i))
    (hkeep : ∀ s i s', I s → C s i → M.step s i = some s' → I s') {inputs : List ι} {s : σ}
    (hrun : M.run inputs = some s) : M.Always Q inputs ↔ M.Always C inputs := by
  have hboth : (M.Always Q inputs ↔ M.Always C inputs) ∧ (M.Always C inputs → I s) := by
    refine run_induction
      (P := fun inputs s => (M.Always Q inputs ↔ M.Always C inputs) ∧ (M.Always C inputs → I s))
      ?_ ?_ inputs s hrun
    · exact ⟨iff_of_true (always_nil Q) (always_nil C), fun _ => hinit⟩
    · rintro inputs s i s' hs ⟨ih, hI⟩ hstep
      rw [always_concat, always_concat]
      simp only [hs, Option.some.injEq, forall_eq']
      constructor
      · rw [ih]
        exact and_congr_right fun hC => hiff s i (hI hC)
      · rintro ⟨hC, hlast⟩
        exact hkeep s i s' (hI hC) hlast hstep
  exact hboth.1

variable (M) in
/-- Some step satisfied `P`, and no input in `R` came after it. -/
def HappenedSince (R : ι → Prop) (P : σ → ι → Prop) (inputs : List ι) : Prop :=
  ∃ first i second, inputs = first ++ i :: second ∧ (∀ j ∈ second, ¬ R j) ∧
    ∃ s, M.run first = some s ∧ P s i

variable (M) in
/-- After a step that satisfies `P`, none satisfies `Q` until an input in `R`. -/
def NoneAfterUntil (R : ι → Prop) (P Q : σ → ι → Prop) (inputs : List ι) : Prop :=
  ∀ first i second, inputs = first ++ i :: second → ∀ s, M.run first = some s →
    Q s i → ¬ M.HappenedSince R P first

theorem not_happenedSince_nil (R : ι → Prop) (P : σ → ι → Prop) : ¬ M.HappenedSince R P [] := by
  rintro ⟨first, i, second, h, _⟩
  simp at h

theorem happenedSince_concat {R : ι → Prop} {P : σ → ι → Prop} {inputs : List ι} {i : ι} :
    M.HappenedSince R P (inputs ++ [i]) ↔
      ¬ R i ∧ M.HappenedSince R P inputs ∨ ∃ s, M.run inputs = some s ∧ P s i := by
  constructor
  · rintro ⟨first, j, second, hsplit, hnone, s, hs, hP⟩
    rcases split_concat hsplit with ⟨rfl, rfl, rfl⟩ | ⟨front, rfl, hinputs⟩
    · exact Or.inr ⟨s, hs, hP⟩
    · refine Or.inl ⟨hnone i (by simp), first, j, front, hinputs, ?_, s, hs, hP⟩
      intro k hk
      exact hnone k (List.mem_append_left _ hk)
  · rintro (⟨hi, first, j, second, hsplit, hnone, hP⟩ | hP)
    · refine ⟨first, j, second ++ [i], by rw [hsplit]; simp, ?_, hP⟩
      intro k hk
      rcases List.mem_append.mp hk with hk | hk
      · exact hnone k hk
      · rw [List.mem_singleton] at hk
        exact hk ▸ hi
    · exact ⟨inputs, i, [], rfl, by simp, hP⟩

theorem noneAfterUntil_nil (R : ι → Prop) (P Q : σ → ι → Prop) : M.NoneAfterUntil R P Q [] := by
  intro first i second h
  simp at h

theorem noneAfterUntil_concat {R : ι → Prop} {P Q : σ → ι → Prop} {inputs : List ι} {i : ι} :
    M.NoneAfterUntil R P Q (inputs ++ [i]) ↔
      M.NoneAfterUntil R P Q inputs ∧
        ∀ s, M.run inputs = some s → Q s i → ¬ M.HappenedSince R P inputs :=
  forall_split_concat

theorem always_not_iff {P : σ → ι → Prop} {inputs : List ι} :
    M.Always (fun s i => ¬ P s i) inputs ↔ ¬ M.Happened P inputs := by
  constructor
  · rintro h ⟨first, i, second, hsplit, s, hs, hP⟩
    exact h first i second hsplit s hs hP
  · intro h first i second hsplit s hs hP
    exact h ⟨first, i, second, hsplit, s, hs, hP⟩

theorem Happened.mono {P Q : σ → ι → Prop} {inputs : List ι} (h : M.Happened P inputs)
    (hPQ : M.Always (fun s i => P s i → Q s i) inputs) : M.Happened Q inputs := by
  obtain ⟨first, i, second, hsplit, s, hs, hP⟩ := h
  exact ⟨first, i, second, hsplit, s, hs, hPQ first i second hsplit s hs hP⟩

/-- Fewer steps come after, and more come before. -/
theorem NoneAfter.mono {P P' Q Q' : σ → ι → Prop} {inputs : List ι} (h : M.NoneAfter P Q inputs)
    (hP : M.Always (fun s i => P' s i → P s i) inputs) (hQ : ∀ s i, Q' s i → Q s i) :
    M.NoneAfter P' Q' inputs := by
  intro first i second hsplit s hs hQ' hhappened
  rw [hsplit] at hP
  exact h first i second hsplit s hs (hQ s i hQ') (hhappened.mono hP.front)

end Machine

end Foundations
