import Mathlib.Tactic

/-!
# Size-prefixed streams

A stream of records in which every record starts with a fixed-length header
that declares the length of the whole record.  `frames` cuts a stream into its
complete records and `rest` is what is left over.

* `frames_append` and `rest_append`: a stream may be cut anywhere; what a reader
  has left over is all it needs to remember of the past.
* `frames_unique`: the cut is the only one into complete records followed by an
  incomplete one.
* `Boundary`: the offsets reached by following the declared lengths, through
  which conditions on a stream are stated (`AllSizes`).
-/

namespace Foundations

/-- A record format: the header occupies the first `header` items, and `size`
reads the length of the whole record off them. -/
structure Framing (α : Type*) where
  header : ℕ
  size : List α → ℕ
  header_pos : 0 < header
  size_append : ∀ l m : List α, header ≤ l.length → size (l ++ m) = size l

namespace Framing

variable {α : Type*} (F : Framing α)

/-- `l` starts with a complete record of positive length. -/
def Complete (l : List α) : Prop :=
  F.header ≤ l.length ∧ 0 < F.size l ∧ F.size l ≤ l.length

instance (l : List α) : Decidable (F.Complete l) := by
  unfold Complete
  infer_instance

/-- `p` is one record, no more and no less. -/
def IsFrame (p : List α) : Prop :=
  F.header ≤ p.length ∧ F.size p = p.length

/-- The complete records at the front of a stream. -/
def frames (l : List α) : List (List α) :=
  if F.Complete l then l.take (F.size l) :: frames (l.drop (F.size l)) else []
termination_by l.length
decreasing_by
  rename_i h
  have hsize := h.2
  rw [List.length_drop]
  omega

/-- What is left of a stream behind its complete records. -/
def rest (l : List α) : List α :=
  if F.Complete l then rest (l.drop (F.size l)) else l
termination_by l.length
decreasing_by
  rename_i h
  have hsize := h.2
  rw [List.length_drop]
  omega

variable {F}

theorem frames_of_complete {l : List α} (h : F.Complete l) :
    F.frames l = l.take (F.size l) :: F.frames (l.drop (F.size l)) := by
  rw [frames, if_pos h]

theorem frames_of_not_complete {l : List α} (h : ¬ F.Complete l) : F.frames l = [] := by
  rw [frames, if_neg h]

theorem rest_of_complete {l : List α} (h : F.Complete l) :
    F.rest l = F.rest (l.drop (F.size l)) := by
  rw [rest, if_pos h]

theorem rest_of_not_complete {l : List α} (h : ¬ F.Complete l) : F.rest l = l := by
  rw [rest, if_neg h]

theorem not_complete_nil : ¬ F.Complete ([] : List α) := by
  intro h
  have hheader := h.1
  have hpos := F.header_pos
  simp only [List.length_nil] at hheader
  omega

@[simp] theorem rest_nil : F.rest ([] : List α) = [] :=
  rest_of_not_complete not_complete_nil

/-! ## The records and the rest make up the stream -/

theorem flatten_frames_append_rest (l : List α) : (F.frames l).flatten ++ F.rest l = l := by
  induction l using frames.induct F with
  | case1 l h ih =>
      rw [frames_of_complete h, rest_of_complete h, List.flatten_cons, List.append_assoc, ih]
      exact List.take_append_drop _ _
  | case2 l h => rw [frames_of_not_complete h, rest_of_not_complete h]; rfl

theorem not_complete_rest (l : List α) : ¬ F.Complete (F.rest l) := by
  induction l using frames.induct F with
  | case1 l h ih => rwa [rest_of_complete h]
  | case2 l h => rwa [rest_of_not_complete h]

theorem length_flatten_frames (l : List α) :
    (F.frames l).flatten.length + (F.rest l).length = l.length := by
  rw [← List.length_append, flatten_frames_append_rest]

theorem drop_length_flatten_frames (l : List α) :
    l.drop (F.frames l).flatten.length = F.rest l :=
  calc l.drop (F.frames l).flatten.length
      = ((F.frames l).flatten ++ F.rest l).drop (F.frames l).flatten.length := by
        rw [flatten_frames_append_rest]
    _ = F.rest l := List.drop_left

/-! ## Cutting a stream anywhere -/

theorem Complete.append {l : List α} (h : F.Complete l) (m : List α) :
    F.Complete (l ++ m) := by
  obtain ⟨hheader, hpos, hle⟩ := h
  rw [Complete, F.size_append l m hheader, List.length_append]
  omega

/-- The records of a longer stream: those of its front, then those found once
the rest of the front is continued. -/
theorem frames_append (l m : List α) :
    F.frames (l ++ m) = F.frames l ++ F.frames (F.rest l ++ m) := by
  -- by the records of the front: a complete one is not changed by what follows
  induction l using frames.induct F with
  | case1 l h ih =>
      rw [frames_of_complete (h.append m), F.size_append l m h.1,
        List.take_append_of_le_length h.2.2, List.drop_append_of_le_length h.2.2, ih,
        frames_of_complete h, rest_of_complete h]
      rfl
  | case2 l h => rw [frames_of_not_complete h, rest_of_not_complete h]; rfl

theorem rest_append (l m : List α) : F.rest (l ++ m) = F.rest (F.rest l ++ m) := by
  induction l using frames.induct F with
  | case1 l h ih =>
      rw [rest_of_complete (h.append m), F.size_append l m h.1,
        List.drop_append_of_le_length h.2.2, ih, rest_of_complete h]
  | case2 l h => rw [rest_of_not_complete h]

/-! ## The cut is unique -/

theorem IsFrame.complete {p : List α} (h : F.IsFrame p) : F.Complete p := by
  have hpos := F.header_pos
  have hheader := h.1
  exact ⟨h.1, by rw [h.2]; omega, h.2.le⟩

theorem frames_isFrame_append {p : List α} (h : F.IsFrame p) (m : List α) :
    F.frames (p ++ m) = p :: F.frames m ∧ F.rest (p ++ m) = F.rest m := by
  have hcomplete := h.complete.append m
  have hsize : F.size (p ++ m) = p.length := by rw [F.size_append p m h.1, h.2]
  rw [frames_of_complete hcomplete, rest_of_complete hcomplete, hsize, List.take_left,
    List.drop_left]
  exact ⟨rfl, rfl⟩

/-- Whoever cuts a stream into records and an incomplete remainder finds
`frames` and `rest`. -/
theorem frames_unique {ps : List (List α)} {r : List α} (hps : ∀ p ∈ ps, F.IsFrame p)
    (hr : ¬ F.Complete r) :
    F.frames (ps.flatten ++ r) = ps ∧ F.rest (ps.flatten ++ r) = r := by
  induction ps with
  | nil => exact ⟨frames_of_not_complete hr, rest_of_not_complete hr⟩
  | cons p ps ih =>
      obtain ⟨hframes, hrest⟩ := ih fun q hq => hps q (List.mem_cons_of_mem _ hq)
      obtain ⟨hfirst, hlast⟩ :=
        frames_isFrame_append (hps p List.mem_cons_self) (ps.flatten ++ r)
      rw [List.flatten_cons, List.append_assoc, hfirst, hlast, hframes]
      exact ⟨rfl, hrest⟩

/-! ## Record boundaries -/

variable (F) in
/-- The offsets of `l` reached from its start by following declared lengths of
records that `l` holds completely.  A declared length may be anything, zero
included. -/
inductive Boundary (l : List α) : ℕ → Prop
  | start : Boundary l 0
  | next {k : ℕ} : Boundary l k → F.header ≤ (l.drop k).length →
      F.size (l.drop k) ≤ (l.drop k).length → Boundary l (k + F.size (l.drop k))

variable (F) in
/-- Every length declared at a boundary of `l` satisfies `P`. -/
def AllSizes (P : ℕ → Prop) (l : List α) : Prop :=
  ∀ k, F.Boundary l k → F.header ≤ (l.drop k).length → P (F.size (l.drop k))

theorem AllSizes.mono {P Q : ℕ → Prop} {l : List α} (h : F.AllSizes P l)
    (himp : ∀ n, P n → Q n) : F.AllSizes Q l :=
  fun k hk hheader => himp _ (h k hk hheader)

theorem Boundary.le_length {l : List α} {k : ℕ} (h : F.Boundary l k) : k ≤ l.length := by
  cases h with
  | start => exact Nat.zero_le _
  | next _ _ hle =>
      rename_i j hj hheader
      have hpos := F.header_pos
      rw [List.length_drop] at hle hheader
      omega

theorem size_drop_append {l m : List α} {k : ℕ} (hheader : F.header ≤ (l.drop k).length) :
    F.size ((l ++ m).drop k) = F.size (l.drop k) := by
  have hpos := F.header_pos
  have hk : k ≤ l.length := by
    rw [List.length_drop] at hheader
    omega
  rw [List.drop_append_of_le_length hk, F.size_append _ _ hheader]

/-- Boundaries are decided by what stands in front of them. -/
theorem Boundary.append {l : List α} {k : ℕ} (h : F.Boundary l k) (m : List α) :
    F.Boundary (l ++ m) k := by
  induction h with
  | start => exact .start
  | next _ hheader hle ih =>
      have hsize := size_drop_append (m := m) hheader
      have hlength : ∀ j, (l.drop j).length ≤ ((l ++ m).drop j).length := fun j => by
        simp only [List.length_drop, List.length_append]
        omega
      rw [← hsize] at hle ⊢
      exact .next ih (hheader.trans (hlength _)) (hle.trans (hlength _))

/-- A boundary stays one when the stream is cut off behind the header that
follows it. -/
theorem Boundary.take {l : List α} {k : ℕ} (h : F.Boundary l k) {m : ℕ}
    (hm : k + F.header ≤ m) : F.Boundary (l.take m) k := by
  induction h with
  | start => exact .start
  | @next k hk hheader hle ih =>
      have hpos := F.header_pos
      have hlength : ((l.take m).drop k).length = min m l.length - k := by
        rw [List.length_drop, List.length_take]
      rw [List.length_drop] at hheader hle
      have hheader' : F.header ≤ ((l.take m).drop k).length := by
        rw [hlength]
        omega
      have hsize : F.size (l.drop k) = F.size ((l.take m).drop k) := by
        rw [← size_drop_append (m := l.drop m) hheader', List.take_append_drop]
      rw [hsize] at hle hm ⊢
      exact .next (ih (by omega)) hheader' (by rw [hlength]; omega)

theorem AllSizes.of_append {P : ℕ → Prop} {l m : List α} (h : F.AllSizes P (l ++ m)) :
    F.AllSizes P l := by
  intro k hk hheader
  rw [← size_drop_append (m := m) hheader]
  refine h k (hk.append m) (hheader.trans ?_)
  simp only [List.length_drop, List.length_append]
  omega

/-- A boundary behind a boundary is a boundary. -/
theorem Boundary.trans {l : List α} {j k : ℕ} (hj : F.Boundary l j)
    (hk : F.Boundary (l.drop j) k) : F.Boundary l (j + k) := by
  induction hk with
  | start => exact hj
  | next _ hheader hle ih =>
      rw [List.drop_drop] at hheader hle ⊢
      rw [← Nat.add_assoc]
      exact .next ih hheader hle

theorem Boundary.of_complete {l : List α} (h : F.Complete l) : F.Boundary l (F.size l) := by
  simpa using Boundary.next (.start : F.Boundary l 0) h.1 h.2.2

theorem AllSizes.drop {P : ℕ → Prop} {l : List α} {k : ℕ} (h : F.AllSizes P l)
    (hk : F.Boundary l k) : F.AllSizes P (l.drop k) := by
  intro j hj hheader
  rw [List.drop_drop] at hheader ⊢
  exact h (k + j) (hk.trans hj) hheader

/-- A boundary is the start or lies behind the first record. -/
theorem Boundary.eq_zero_or_head {l : List α} {k : ℕ} (h : F.Boundary l k) :
    k = 0 ∨ F.header ≤ l.length ∧ F.size l ≤ l.length ∧
      ∃ j, F.Boundary (l.drop (F.size l)) j ∧ k = F.size l + j := by
  induction h with
  | start => exact Or.inl rfl
  | @next k _ hheader hle ih =>
      right
      -- the step is the first one, or follows one from the first record on
      rcases ih with rfl | ⟨hheader', hle', j, hj, rfl⟩
      · rw [List.drop_zero] at hheader hle ⊢
        exact ⟨hheader, hle, 0, .start, by omega⟩
      · refine ⟨hheader', hle', _, hj.next ?_ ?_, ?_⟩
        · rwa [List.drop_drop]
        · rwa [List.drop_drop]
        · rw [List.drop_drop, Nat.add_assoc]

/-- The lengths declared by a stream are that of its first record and those
declared behind it. -/
theorem AllSizes.of_head {P : ℕ → Prop} {l : List α} (hfirst : F.header ≤ l.length → P (F.size l))
    (htail : F.header ≤ l.length → F.size l ≤ l.length → F.AllSizes P (l.drop (F.size l))) :
    F.AllSizes P l := by
  intro k hk hheader
  rcases hk.eq_zero_or_head with rfl | ⟨hheader', hle, j, hj, rfl⟩
  · rw [List.drop_zero] at hheader ⊢
    exact hfirst hheader
  · rw [← List.drop_drop] at hheader ⊢
    exact htail hheader' hle j hj hheader

theorem AllSizes.of_rest {P : ℕ → Prop} {l m : List α} (hl : F.AllSizes P l)
    (hrest : F.AllSizes P (F.rest l ++ m)) : F.AllSizes P (l ++ m) := by
  induction l using frames.induct F with
  | case1 l h ih =>
      have hsize := F.size_append l m h.1
      refine .of_head ?_ ?_
      · intro _
        rw [hsize]
        simpa using hl 0 .start h.1
      · intro _ _
        rw [hsize, List.drop_append_of_le_length h.2.2]
        exact ih (hl.drop (.of_complete h)) (by rwa [rest_of_complete h] at hrest)
  | case2 l h => rwa [rest_of_not_complete h] at hrest

/-- The end of the last complete record is a boundary. -/
theorem boundary_flatten_frames (l : List α) : F.Boundary l (F.frames l).flatten.length := by
  induction l using frames.induct F with
  | case1 l h ih =>
      rw [frames_of_complete h, List.flatten_cons, List.length_append,
        List.length_take_of_le h.2.2]
      exact (Boundary.of_complete h).trans ih
  | case2 l h => rw [frames_of_not_complete h]; exact .start

/-- The end of a list of records is a boundary of the stream they start. -/
theorem boundary_flatten {ps : List (List α)} (hps : ∀ p ∈ ps, F.IsFrame p) (r : List α) :
    F.Boundary (ps.flatten ++ r) ps.flatten.length := by
  induction ps with
  | nil => exact .start
  | cons p ps ih =>
      have hp := hps p List.mem_cons_self
      have hsize : F.size ((p :: ps).flatten ++ r) = p.length := by
        rw [List.flatten_cons, List.append_assoc, F.size_append _ _ hp.1, hp.2]
      have hcomplete : F.Complete ((p :: ps).flatten ++ r) := by
        rw [List.flatten_cons, List.append_assoc]
        exact hp.complete.append _
      have htail := Boundary.of_complete hcomplete
      rw [hsize] at htail
      rw [List.flatten_cons, List.length_append, List.append_assoc]
      rw [List.flatten_cons, List.append_assoc] at htail
      apply htail.trans
      rw [List.drop_left]
      exact ih fun q hq => hps q (List.mem_cons_of_mem _ hq)

/-- With no empty record declared, every boundary is the end of some of the
records. -/
theorem Boundary.frames_eq {l : List α} {k : ℕ} (hk : F.Boundary l k)
    (hpos : F.AllSizes (0 < ·) l) :
    ∃ ps, F.frames l = ps ++ F.frames (l.drop k) ∧ ps.flatten = l.take k ∧
      F.rest l = F.rest (l.drop k) := by
  induction hk with
  | start => exact ⟨[], rfl, rfl, rfl⟩
  | @next k hk hheader hle ih =>
      obtain ⟨ps, hframes, hflatten, hrest⟩ := ih
      have hcomplete : F.Complete (l.drop k) := ⟨hheader, hpos k hk hheader, hle⟩
      refine ⟨ps ++ [(l.drop k).take (F.size (l.drop k))], ?_, ?_, ?_⟩
      · rw [hframes, frames_of_complete hcomplete, List.drop_drop, List.append_assoc]
        rfl
      · rw [List.flatten_append, hflatten, List.flatten_singleton, ← List.take_add]
      · rw [hrest, rest_of_complete hcomplete, List.drop_drop]

/-- A record of the stream starts at a boundary. -/
theorem exists_boundary_of_mem_frames {l p : List α} (hp : p ∈ F.frames l) :
    ∃ k, F.Boundary l k ∧ F.Complete (l.drop k) ∧ p.length = F.size (l.drop k) := by
  induction l using frames.induct F with
  | case1 l h ih =>
      rw [frames_of_complete h] at hp
      rcases List.mem_cons.mp hp with rfl | hp
      · exact ⟨0, .start, h, List.length_take_of_le h.2.2⟩
      · obtain ⟨k, hk, hcomplete, hlength⟩ := ih hp
        rw [List.drop_drop] at hcomplete hlength
        exact ⟨_, (Boundary.of_complete h).trans hk, hcomplete, hlength⟩
  | case2 l h =>
      rw [frames_of_not_complete h] at hp
      exact absurd hp List.not_mem_nil

/-- The record at a boundary is one of the stream's. -/
theorem Boundary.exists_mem_frames {l : List α} {k : ℕ} (hk : F.Boundary l k)
    (hpos : F.AllSizes (0 < ·) l) (hcomplete : F.Complete (l.drop k)) :
    ∃ p ∈ F.frames l, p.length = F.size (l.drop k) := by
  obtain ⟨ps, hframes, _, _⟩ := hk.frames_eq hpos
  refine ⟨(l.drop k).take (F.size (l.drop k)), ?_, List.length_take_of_le hcomplete.2.2⟩
  rw [hframes, frames_of_complete hcomplete]
  simp

theorem Complete.isFrame_take {l : List α} (h : F.Complete l) (hcovers : F.header ≤ F.size l) :
    F.IsFrame (l.take (F.size l)) := by
  have hlength : (l.take (F.size l)).length = F.size l := List.length_take_of_le h.2.2
  refine ⟨by rw [hlength]; exact hcovers, ?_⟩
  rw [hlength]
  -- the declared length is read from the header alone
  conv_rhs => rw [← List.take_append_drop (F.size l) l]
  rw [F.size_append _ _ (by rw [hlength]; exact hcovers)]

/-- The records of a stream whose declared lengths all cover the header are
records in their own right. -/
theorem isFrame_of_mem_frames {l : List α} (hsized : F.AllSizes (F.header ≤ ·) l) :
    ∀ p ∈ F.frames l, F.IsFrame p := by
  induction l using frames.induct F with
  | case1 l h ih =>
      intro p hp
      rw [frames_of_complete h] at hp
      rcases List.mem_cons.mp hp with rfl | hp
      · exact h.isFrame_take (hsized 0 .start h.1)
      · exact ih (hsized.drop (.of_complete h)) p hp
  | case2 l h =>
      intro p hp
      rw [frames_of_not_complete h] at hp
      exact absurd hp List.not_mem_nil

/-- In a format whose positive lengths all cover the header, the streams without a rest are
those of records in their own right. -/
theorem rest_eq_nil_iff (hcovers : ∀ l, 0 < F.size l → F.header ≤ F.size l) {l : List α} :
    F.rest l = [] ↔ ∃ ps : List (List α), (∀ p ∈ ps, F.IsFrame p) ∧ l = ps.flatten := by
  constructor
  · induction l using frames.induct F with
    | case1 l h ih =>
        intro hrest
        rw [rest_of_complete h] at hrest
        obtain ⟨ps, hps, hl⟩ := ih hrest
        refine ⟨l.take (F.size l) :: ps, ?_, ?_⟩
        · intro p hp
          rcases List.mem_cons.mp hp with rfl | hp
          · exact h.isFrame_take (hcovers l h.2.1)
          · exact hps p hp
        · calc
            l = l.take (F.size l) ++ l.drop (F.size l) := (List.take_append_drop _ l).symm
            _ = (l.take (F.size l) :: ps).flatten := by rw [List.flatten_cons, ← hl]
    | case2 l h =>
        intro hrest
        rw [rest_of_not_complete h] at hrest
        exact ⟨[], by simp, hrest⟩
  · rintro ⟨ps, hps, rfl⟩
    have hunique := frames_unique hps not_complete_nil
    rw [List.append_nil] at hunique
    exact hunique.2

/-! ## Records that were sent -/

end Framing

end Foundations
