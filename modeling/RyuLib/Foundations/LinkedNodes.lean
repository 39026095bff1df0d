import Mathlib.Data.List.Basic
import Mathlib.Tactic

/-!
# Doubly linked nodes

Nodes hold two nullable pointers; where these are kept is left open, a node's pointers are
two functions.  `Linked left right l` says that they chain the nodes of `l`, the first of
which has no right neighbour and the last no left one.  A chain is built at its front and
loses nodes anywhere, and both are a matter of the pointers of the neighbours.
-/

namespace Foundations

variable {ν : Type*}

/-- The nodes of `l`, each once, each between its neighbours. -/
structure Linked (left right : ν → Option ν) (l : List ν) : Prop where
  nodup : l.Nodup
  left_eq : ∀ {newer p older}, l = newer ++ p :: older → left p = older.head?
  right_eq : ∀ {newer p older}, l = newer ++ p :: older → right p = newer.getLast?

/-- Following `next` from a cursor visits the nodes of a list and ends at null. -/
inductive Visits (next : ν → Option (Option ν)) : Option ν → List ν → Prop
  | nil : Visits next none []
  | cons {p : ν} {cursor : Option ν} {l : List ν} (hnext : next p = some cursor)
      (hrest : Visits next cursor l) : Visits next (some p) (p :: l)

namespace Linked

variable {left right left' right' : ν → Option ν} {l newer older : List ν} {p q v : ν}

theorem nil (left right : ν → Option ν) : Linked left right [] where
  nodup := List.nodup_nil
  left_eq h := absurd (congrArg List.length h) (by simp)
  right_eq h := absurd (congrArg List.length h) (by simp)

theorem ne_head (hnodup : (newer ++ p :: older).Nodup) (hnewer : newer ≠ []) :
    (newer ++ p :: older).head? ≠ some p := by
  obtain ⟨a, front, rfl⟩ := List.exists_cons_of_ne_nil hnewer
  intro heq
  have hap : a = p := Option.some.inj heq
  rw [hap, List.cons_append, List.nodup_cons] at hnodup
  exact hnodup.1 (List.mem_append_right front List.mem_cons_self)

theorem ne_last (hnodup : (newer ++ p :: older).Nodup) (holder : older ≠ []) :
    (newer ++ p :: older).getLast? ≠ some p := by
  intro heq
  rw [List.getLast?_append_of_ne_nil _ (List.cons_ne_nil p older),
    List.getLast?_cons_of_ne_nil holder] at heq
  exact (List.nodup_cons.mp hnodup.of_append_right).1 (List.mem_of_getLast? heq)

/-- A node in front of the others: the old front gets it as its right neighbour. -/
theorem cons (h : Linked left right l) (hv : v ∉ l) (hleft : left' v = l.head?)
    (hright : right' v = none) (hkeep : ∀ p ∈ l, left' p = left p)
    (hfront : ∀ p, l.head? = some p → right' p = some v)
    (hothers : ∀ p ∈ l, l.head? ≠ some p → right' p = right p) :
    Linked left' right' (v :: l) := by
  refine ⟨List.nodup_cons.mpr ⟨hv, h.nodup⟩, ?_, ?_⟩
  · intro newer p older hsplit
    rcases newer with _ | ⟨a, front⟩
    · obtain ⟨rfl, rfl⟩ := List.cons.inj hsplit
      exact hleft
    · obtain ⟨-, rfl⟩ := List.cons.inj hsplit
      rw [hkeep p (by simp)]
      exact h.left_eq rfl
  · intro newer p older hsplit
    rcases newer with _ | ⟨a, front⟩
    · obtain ⟨rfl, rfl⟩ := List.cons.inj hsplit
      exact hright
    · obtain ⟨rfl, rfl⟩ := List.cons.inj hsplit
      by_cases hnil : front = []
      · rw [hnil]
        apply hfront
        rw [hnil]
        rfl
      · rw [hothers p (by simp) (ne_head h.nodup hnil), h.right_eq rfl,
          List.getLast?_cons_of_ne_nil hnil]

/-- A node of what is left stood in front of the one removed or behind it. -/
theorem split_of_append {front back : List ν} (h : newer ++ older = front ++ p :: back) :
    (∃ mid, newer = front ++ p :: mid ∧ back = mid ++ older) ∨
      ∃ mid, older = mid ++ p :: back ∧ front = newer ++ mid := by
  rcases List.append_eq_append_iff.mp h with ⟨mid, hfront, holder⟩ | ⟨mid, hnewer, hback⟩
  · exact Or.inr ⟨mid, holder, hfront⟩
  · rcases mid with _ | ⟨a, mid⟩
    · rw [List.append_nil] at hnewer
      exact Or.inr ⟨[], hback.symm, by rw [List.append_nil, hnewer]⟩
    · obtain ⟨rfl, rfl⟩ := List.cons.inj hback
      exact Or.inl ⟨mid, hnewer, rfl⟩

/-- A node's neighbours become neighbours of each other. -/
theorem remove (h : Linked left right (newer ++ v :: older))
    (hleft : ∀ p, newer.getLast? = some p → left' p = older.head?)
    (hleft' : ∀ p, newer.getLast? ≠ some p → left' p = left p)
    (hright : ∀ p, older.head? = some p → right' p = newer.getLast?)
    (hright' : ∀ p, older.head? ≠ some p → right' p = right p) :
    Linked left' right' (newer ++ older) := by
  have hdisjoint := h.nodup
  rw [List.nodup_append] at hdisjoint
  obtain ⟨hnewer, holder, hdisjoint⟩ := hdisjoint
  have hapart : ∀ a ∈ newer, ∀ b ∈ older, a ≠ b := fun a ha b hb =>
    hdisjoint a ha b (List.mem_cons_of_mem v hb)
  refine ⟨List.nodup_append.mpr ⟨hnewer, holder.of_cons, hapart⟩, ?_, ?_⟩
  · intro front p back hsplit
    rcases split_of_append hsplit with ⟨mid, rfl, rfl⟩ | ⟨mid, rfl, rfl⟩
    · by_cases hmid : mid = []
      · subst hmid
        exact hleft p (by simp)
      · have hleft_eq : left p = (mid ++ v :: older).head? :=
          h.left_eq (List.append_assoc front (p :: mid) (v :: older))
        rw [hleft' p (ne_last hnewer hmid), hleft_eq, List.head?_append_of_ne_nil _ hmid,
          List.head?_append_of_ne_nil _ hmid]
    · rw [hleft' p fun heq => hapart p (List.mem_of_getLast? heq) p (by simp) rfl]
      exact h.left_eq (List.append_assoc newer (v :: mid) (p :: back)).symm
  · intro front p back hsplit
    rcases split_of_append hsplit with ⟨mid, rfl, rfl⟩ | ⟨mid, rfl, rfl⟩
    · rw [hright' p fun heq => hapart p (by simp) p (List.mem_of_head? heq) rfl]
      exact h.right_eq (List.append_assoc front (p :: mid) (v :: older))
    · by_cases hmid : mid = []
      · subst hmid
        rw [List.append_nil]
        exact hright p rfl
      · rw [hright' p (ne_head holder.of_cons hmid),
          h.right_eq (List.append_assoc newer (v :: mid) (p :: back)).symm,
          List.getLast?_append_of_ne_nil _ (List.cons_ne_nil v mid),
          List.getLast?_cons_of_ne_nil hmid, List.getLast?_append_of_ne_nil _ hmid]

/-- Neighbours point at each other. -/
theorem left_eq_some_iff (h : Linked left right l) (hp : p ∈ l) (hq : q ∈ l) :
    left p = some q ↔ right q = some p := by
  constructor
  · intro heq
    obtain ⟨newer, older, rfl⟩ := List.append_of_mem hp
    rw [h.left_eq rfl, List.head?_eq_some_iff] at heq
    obtain ⟨older, rfl⟩ := heq
    rw [h.right_eq (List.append_cons newer p (q :: older)), List.getLast?_concat]
  · intro heq
    obtain ⟨newer, older, rfl⟩ := List.append_of_mem hq
    rw [h.right_eq rfl, List.getLast?_eq_some_iff] at heq
    obtain ⟨newer, rfl⟩ := heq
    rw [h.left_eq (List.append_cons newer p (q :: older)).symm, List.head?_cons]

/-- The front is the node without a right neighbour. -/
theorem right_eq_none_iff (h : Linked left right l) (hp : p ∈ l) :
    right p = none ↔ l.head? = some p := by
  obtain ⟨newer, older, rfl⟩ := List.append_of_mem hp
  rw [h.right_eq rfl, List.getLast?_eq_none_iff]
  constructor
  · intro hnil
    rw [hnil]
    rfl
  · intro hhead
    by_contra hnil
    exact ne_head h.nodup hnil hhead

/-- From the front the left pointers lead through the whole chain. -/
theorem visits (h : Linked left right l) {next : ν → Option (Option ν)}
    (hnext : ∀ p ∈ l, next p = some (left p)) : Visits next l.head? l := by
  -- what is still to be visited, behind any nodes visited before
  suffices hrest : ∀ older newer, l = newer ++ older → Visits next older.head? older from
    hrest l [] rfl
  intro older
  induction older with
  | nil =>
      intro newer hl
      exact Visits.nil
  | cons p older ih =>
      intro newer hl
      have hp : p ∈ l := hl ▸ by simp
      apply Visits.cons (hnext p hp)
      rw [h.left_eq hl]
      exact ih (newer ++ [p]) (by rw [hl]; simp)

end Linked

end Foundations
