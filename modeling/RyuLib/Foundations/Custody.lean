import Mathlib.Tactic

/-!
# Items that pass from keeper to keeper

Keepers hold items in the order in which they got them, and pass the oldest on.  New items come
to one of them, the source, and from there they move along given routes (`Moves`).

* `Conserved`: nothing is lost and nothing is doubled, whatever moves and when: an item is with
  exactly one keeper (`Conserved.existsUnique`).
* `Feeds` and `FeedsSome`: a keeper that gets items from one other alone gets them in the order
  in which that one did.
-/

namespace Foundations

/-- What each keeper was ever given, in this order, and how much of it is passed on. -/
structure Custody (κ α : Type*) where
  had : κ → List α := fun _ => []
  passed : κ → ℕ := fun _ => 0

namespace Custody

variable {κ α : Type*}

/-- What a keeper has not passed on, the oldest first. -/
def holds (c : Custody κ α) (k : κ) : List α := (c.had k).drop (c.passed k)

/-- Nobody has passed on more than it was given. -/
def Within (c : Custody κ α) : Prop := ∀ k, c.passed k ≤ (c.had k).length

theorem within_empty : Within ({} : Custody κ α) := fun _ => le_rfl

theorem lt_of_holds {c : Custody κ α} {k : κ} {a : α} {rest : List α}
    (hholds : c.holds k = a :: rest) : c.passed k < (c.had k).length := by
  by_contra hle
  rw [holds, List.drop_eq_nil_of_le (not_lt.mp hle)] at hholds
  cases hholds

/-- What the keepers hold is together what has come to the source. -/
def Conserved [Fintype κ] (source : κ) (c : Custody κ α) : Prop :=
  ∑ k, (c.holds k : Multiset α) = c.had source

theorem conserved_empty [Fintype κ] (source : κ) : Conserved source ({} : Custody κ α) :=
  Finset.sum_eq_zero fun _ _ => rfl

/-- What `l` was given is all that `k` has passed on. -/
def Feeds (c : Custody κ α) (k l : κ) : Prop := c.had l = (c.had k).take (c.passed k)

/-- What `l` was given is among what `k` has passed on, in the order of `k`. -/
def FeedsSome (c : Custody κ α) (k l : κ) : Prop :=
  List.Sublist (c.had l) ((c.had k).take (c.passed k))

theorem feeds_empty (k l : κ) : Feeds ({} : Custody κ α) k l := rfl

theorem feedsSome_empty (k l : κ) : FeedsSome ({} : Custody κ α) k l := List.Sublist.refl _

/-- What was passed on and what is still held. -/
theorem Feeds.append {c : Custody κ α} {k l : κ} (h : c.Feeds k l) :
    c.had l ++ c.holds k = c.had k := by
  rw [h, holds, List.take_append_drop]

theorem FeedsSome.sublist {c : Custody κ α} {k l : κ} (h : c.FeedsSome k l) :
    List.Sublist (c.had l) (c.had k) :=
  h.trans (List.take_sublist _ _)

variable [DecidableEq κ]

/-- A keeper is given a new item. -/
def give (c : Custody κ α) (k : κ) (a : α) : Custody κ α :=
  { c with had := Function.update c.had k (c.had k ++ [a]) }

/-- The item `a`, the oldest that `k` holds, goes to `l`. -/
def moved (c : Custody κ α) (k l : κ) (a : α) : Custody κ α where
  had := Function.update c.had l (c.had l ++ [a])
  passed := Function.update c.passed k (c.passed k + 1)

/-- `k` passes the oldest item that it holds on to `l`. -/
def pass (c : Custody κ α) (k l : κ) : Option (Custody κ α) :=
  (c.holds k).head?.map (c.moved k l)

variable {c c' : Custody κ α} {k l m n source : κ} {a : α} {rest : List α}

theorem pass_eq_some :
    c.pass k l = some c' ↔ ∃ a rest, c.holds k = a :: rest ∧ c' = c.moved k l a := by
  unfold pass
  cases hholds : c.holds k with
  | nil => simp
  | cons a rest => simp [eq_comm]

@[simp] theorem had_give_self : (c.give k a).had k = c.had k ++ [a] := Function.update_self ..

theorem had_give_of_ne (h : m ≠ k) : (c.give k a).had m = c.had m := Function.update_of_ne h ..

@[simp] theorem passed_give : (c.give k a).passed = c.passed := rfl

@[simp] theorem had_moved_self : (c.moved k l a).had l = c.had l ++ [a] := Function.update_self ..

theorem had_moved_of_ne (h : m ≠ l) : (c.moved k l a).had m = c.had m :=
  Function.update_of_ne h ..

@[simp] theorem passed_moved_self : (c.moved k l a).passed k = c.passed k + 1 :=
  Function.update_self ..

theorem passed_moved_of_ne (h : m ≠ k) : (c.moved k l a).passed m = c.passed m :=
  Function.update_of_ne h ..

theorem holds_give_self (h : c.Within) : (c.give k a).holds k = c.holds k ++ [a] := by
  rw [holds, had_give_self, passed_give, List.drop_append_of_le_length (h k), holds]

theorem holds_give_of_ne (h : m ≠ k) : (c.give k a).holds m = c.holds m := by
  rw [holds, had_give_of_ne h, passed_give, holds]

theorem holds_moved_from (hkl : k ≠ l) (hholds : c.holds k = a :: rest) :
    (c.moved k l a).holds k = rest := by
  rw [holds] at hholds
  rw [holds, had_moved_of_ne hkl, passed_moved_self, ← List.drop_drop, hholds, List.drop_one,
    List.tail_cons]

theorem holds_moved_to (h : c.Within) (hkl : k ≠ l) :
    (c.moved k l a).holds l = c.holds l ++ [a] := by
  rw [holds, had_moved_self, passed_moved_of_ne hkl.symm, List.drop_append_of_le_length (h l),
    holds]

theorem holds_moved_of_ne (hk : m ≠ k) (hl : m ≠ l) : (c.moved k l a).holds m = c.holds m := by
  rw [holds, had_moved_of_ne hl, passed_moved_of_ne hk, holds]

/-- Of a pass only the two keepers in it notice. -/
theorem holds_pass_of_ne (hpass : c.pass k l = some c') (hk : m ≠ k) (hl : m ≠ l) :
    c'.holds m = c.holds m := by
  obtain ⟨a, rest, -, rfl⟩ := pass_eq_some.mp hpass
  exact holds_moved_of_ne hk hl

theorem had_pass_of_ne (hpass : c.pass k l = some c') (hl : m ≠ l) : c'.had m = c.had m := by
  obtain ⟨a, rest, -, rfl⟩ := pass_eq_some.mp hpass
  exact had_moved_of_ne hl

/-- What the receiver of a pass has had it had before, or it is what the other held first. -/
theorem mem_had_pass (hpass : c.pass k l = some c') (ha : a ∈ c'.had l) :
    a ∈ c.had l ∨ (c.holds k).head? = some a := by
  obtain ⟨b, rest, hholds, rfl⟩ := pass_eq_some.mp hpass
  rw [had_moved_self] at ha
  rcases List.mem_append.mp ha with ha | ha
  · exact Or.inl ha
  · rw [List.mem_singleton.mp ha, hholds]
    exact Or.inr rfl

/-- What is held after a pass was held before, or it is what was passed. -/
theorem mem_holds_pass (h : c.Within) (hpass : c.pass k l = some c') (hkl : k ≠ l)
    (ha : a ∈ c'.holds m) : a ∈ c.holds m ∨ m = l ∧ a ∈ c.holds k := by
  obtain ⟨b, rest, hholds, rfl⟩ := pass_eq_some.mp hpass
  by_cases hmk : m = k
  · subst hmk
    rw [holds_moved_from hkl hholds] at ha
    rw [hholds]
    exact Or.inl (List.mem_cons_of_mem b ha)
  · by_cases hml : m = l
    · subst hml
      rw [holds_moved_to h hkl] at ha
      rcases List.mem_append.mp ha with ha | ha
      · exact Or.inl ha
      · rw [List.mem_singleton.mp ha, hholds]
        exact Or.inr ⟨rfl, List.mem_cons_self⟩
    · rw [holds_moved_of_ne hmk hml] at ha
      exact Or.inl ha

theorem length_pass_from (hpass : c.pass k l = some c') (hkl : k ≠ l) :
    (c'.holds k).length + 1 = (c.holds k).length := by
  obtain ⟨a, rest, hholds, rfl⟩ := pass_eq_some.mp hpass
  rw [holds_moved_from hkl hholds, hholds, List.length_cons]

theorem length_pass_to (h : c.Within) (hpass : c.pass k l = some c') (hkl : k ≠ l) :
    (c'.holds l).length = (c.holds l).length + 1 := by
  obtain ⟨a, rest, -, rfl⟩ := pass_eq_some.mp hpass
  rw [holds_moved_to h hkl, List.length_append, List.length_singleton]

/-! ## Moves -/

/-- Nothing moves, a new item comes to the source, or an item is passed on along a route. -/
inductive Moves (source : κ) (route : κ → κ → Prop) (c : Custody κ α) : Custody κ α → Prop
  | stay : Moves source route c c
  | give (a : α) : Moves source route c (c.give source a)
  | pass {k l : κ} {c' : Custody κ α} (hroute : route k l) (hpass : c.pass k l = some c') :
      Moves source route c c'

variable {route : κ → κ → Prop}

theorem Within.give (h : c.Within) (k : κ) (a : α) : (c.give k a).Within := by
  intro m
  by_cases hm : m = k
  · subst hm
    rw [had_give_self, List.length_append]
    exact (h m).trans (Nat.le_add_right _ _)
  · rw [had_give_of_ne hm]
    exact h m

theorem Within.moved (h : c.Within) (hholds : c.holds k = a :: rest) :
    (c.moved k l a).Within := by
  intro m
  have hgrown : (c.had m).length ≤ ((c.moved k l a).had m).length := by
    by_cases hm : m = l
    · subst hm
      rw [had_moved_self, List.length_append]
      exact Nat.le_add_right _ _
    · rw [had_moved_of_ne hm]
  by_cases hm : m = k
  · subst hm
    rw [passed_moved_self]
    exact (lt_of_holds hholds).trans_le hgrown
  · rw [passed_moved_of_ne hm]
    exact (h m).trans hgrown

theorem Within.moves (h : c.Within) (hmoves : Moves source route c c') : c'.Within := by
  cases hmoves with
  | stay => exact h
  | give a => exact h.give source a
  | pass hroute hpass =>
      obtain ⟨a, rest, hholds, rfl⟩ := pass_eq_some.mp hpass
      exact h.moved hholds

/-! ## Conservation -/

section Conserved

variable [Fintype κ]

theorem Conserved.give (h : c.Conserved source) (hwithin : c.Within) (a : α) :
    (c.give source a).Conserved source := by
  have hone : ∀ m, ((c.give source a).holds m : Multiset α) =
      c.holds m + (if m = source then {a} else 0) := by
    intro m
    by_cases hm : m = source
    · subst hm
      rw [if_pos rfl, holds_give_self hwithin, ← Multiset.coe_add, Multiset.coe_singleton]
    · rw [if_neg hm, add_zero, holds_give_of_ne hm]
  unfold Conserved at *
  rw [Finset.sum_congr rfl fun m _ => hone m, Finset.sum_add_distrib, h,
    Finset.sum_ite_eq' Finset.univ source, if_pos (Finset.mem_univ source), had_give_self,
    ← Multiset.coe_add, Multiset.coe_singleton]

theorem Conserved.moved (h : c.Conserved source) (hwithin : c.Within) (hkl : k ≠ l)
    (hl : l ≠ source) (hholds : c.holds k = a :: rest) :
    (c.moved k l a).Conserved source := by
  -- the item counted once more at the old keeper, and once more at the new one
  have hone : ∀ m, ((c.moved k l a).holds m : Multiset α) + (if m = k then {a} else 0) =
      c.holds m + (if m = l then {a} else 0) := by
    intro m
    by_cases hmk : m = k
    · subst hmk
      rw [if_pos rfl, if_neg hkl, holds_moved_from hkl hholds, hholds, add_zero, add_comm,
        Multiset.singleton_add, Multiset.cons_coe]
    · rw [if_neg hmk, add_zero]
      by_cases hml : m = l
      · subst hml
        rw [if_pos rfl, holds_moved_to hwithin hkl, ← Multiset.coe_add, Multiset.coe_singleton]
      · rw [if_neg hml, add_zero, holds_moved_of_ne hmk hml]
  have hsum := Finset.sum_congr (rfl : (Finset.univ : Finset κ) = Finset.univ) fun m _ => hone m
  rw [Finset.sum_add_distrib, Finset.sum_add_distrib, Finset.sum_ite_eq' Finset.univ k,
    Finset.sum_ite_eq' Finset.univ l, if_pos (Finset.mem_univ k), if_pos (Finset.mem_univ l)]
    at hsum
  unfold Conserved at *
  rw [h] at hsum
  rw [had_moved_of_ne hl.symm]
  exact add_right_cancel hsum

theorem Conserved.moves (h : c.Conserved source) (hwithin : c.Within)
    (hroutes : ∀ {k l}, route k l → k ≠ l ∧ l ≠ source) (hmoves : Moves source route c c') :
    c'.Conserved source := by
  cases hmoves with
  | stay => exact h
  | give a => exact h.give hwithin a
  | pass hroute hpass =>
      obtain ⟨a, rest, hholds, rfl⟩ := pass_eq_some.mp hpass
      exact h.moved hwithin (hroutes hroute).1 (hroutes hroute).2 hholds

/-- One keeper's part of the whole. -/
theorem Conserved.split (h : c.Conserved source) (k : κ) :
    (c.holds k : Multiset α) + ∑ l ∈ Finset.univ.erase k, (c.holds l : Multiset α) =
      c.had source :=
  (Finset.add_sum_erase _ _ (Finset.mem_univ k)).trans h

/-- Items that are all different are each with one keeper, and there only once. -/
theorem Conserved.existsUnique (h : c.Conserved source) (hnodup : (c.had source).Nodup)
    (ha : a ∈ c.had source) : ∃! k, a ∈ c.holds k := by
  have hsome : a ∈ ∑ k, (c.holds k : Multiset α) := h.symm ▸ Multiset.mem_coe.mpr ha
  obtain ⟨k, -, hk⟩ := Multiset.mem_sum.mp hsome
  refine ⟨k, Multiset.mem_coe.mp hk, fun l hl => ?_⟩
  by_contra hlk
  have hparts := Multiset.coe_nodup.mpr hnodup
  rw [← h.split k] at hparts
  have hother : a ∈ ∑ l ∈ Finset.univ.erase k, (c.holds l : Multiset α) :=
    Multiset.mem_sum.mpr ⟨l, Finset.mem_erase.mpr ⟨hlk, Finset.mem_univ l⟩, Multiset.mem_coe.mpr hl⟩
  exact Multiset.disjoint_left.mp (Multiset.nodup_add.mp hparts).2.2 hk hother

theorem Conserved.nodup (h : c.Conserved source) (hnodup : (c.had source).Nodup) (k : κ) :
    (c.holds k).Nodup := by
  have hparts := Multiset.coe_nodup.mpr hnodup
  rw [← h.split k] at hparts
  exact Multiset.coe_nodup.mp (Multiset.nodup_add.mp hparts).1

end Conserved

/-! ## Order -/

/-- What `k` has passed on grows by the item that it passes on. -/
theorem take_moved (hkl : k ≠ l) (hholds : c.holds k = a :: rest) :
    ((c.moved k l a).had k).take ((c.moved k l a).passed k) =
      (c.had k).take (c.passed k) ++ [a] := by
  have hlt := lt_of_holds hholds
  have hfirst : (c.had k)[c.passed k] = a := by
    rw [holds, List.drop_eq_getElem_cons hlt] at hholds
    exact (List.cons.inj hholds).1
  rw [had_moved_of_ne hkl, passed_moved_self, List.take_succ_eq_append_getElem hlt, hfirst]

/-- What another has passed on stays. -/
theorem take_moved_of_ne (hwithin : c.Within) (hm : m ≠ k) :
    ((c.moved k l a).had m).take ((c.moved k l a).passed m) = (c.had m).take (c.passed m) := by
  rw [passed_moved_of_ne hm]
  by_cases hml : m = l
  · subst hml
    rw [had_moved_self, List.take_append_of_le_length (hwithin m)]
  · rw [had_moved_of_ne hml]

theorem take_give (hwithin : c.Within) (m : κ) :
    ((c.give k a).had m).take ((c.give k a).passed m) = (c.had m).take (c.passed m) := by
  rw [passed_give]
  by_cases hmk : m = k
  · subst hmk
    rw [had_give_self, List.take_append_of_le_length (hwithin m)]
  · rw [had_give_of_ne hmk]

/-- Where `l` gets everything from `k`, it gets it in the order of `k`. -/
theorem FeedsSome.moves (h : c.FeedsSome k l) (hwithin : c.Within) (hl : l ≠ source)
    (hroutes : ∀ {m n}, route m n → m ≠ n) (honly : ∀ {m}, route m l → m = k)
    (hmoves : Moves source route c c') : c'.FeedsSome k l := by
  unfold FeedsSome at *
  cases hmoves with
  | stay => exact h
  | give a => rwa [take_give hwithin, had_give_of_ne hl]
  | @pass m n _ hroute hpass =>
      obtain ⟨a, rest, hholds, rfl⟩ := pass_eq_some.mp hpass
      have hmn := hroutes hroute
      by_cases hn : l = n
      · subst hn
        obtain rfl := honly hroute
        rw [take_moved hmn hholds, had_moved_self]
        exact h.append (List.Sublist.refl _)
      · rw [had_moved_of_ne hn]
        by_cases hm : k = m
        · subst hm
          rw [take_moved hmn hholds]
          exact h.trans (List.sublist_append_left _ _)
        · rwa [take_moved_of_ne hwithin hm]

/-- Where moreover `k` passes nothing to others, `l` gets it all. -/
theorem Feeds.moves (h : c.Feeds k l) (hwithin : c.Within) (hl : l ≠ source)
    (hroutes : ∀ {m n}, route m n → m ≠ n) (honly : ∀ {m}, route m l → m = k)
    (hall : ∀ {n}, route k n → n = l) (hmoves : Moves source route c c') : c'.Feeds k l := by
  unfold Feeds at *
  cases hmoves with
  | stay => exact h
  | give a => rwa [take_give hwithin, had_give_of_ne hl]
  | @pass m n _ hroute hpass =>
      obtain ⟨a, rest, hholds, rfl⟩ := pass_eq_some.mp hpass
      have hmn := hroutes hroute
      by_cases hn : l = n
      · subst hn
        obtain rfl := honly hroute
        rw [take_moved hmn hholds, had_moved_self, h]
      · have hm : k ≠ m := fun hkm => hn (hall (hkm ▸ hroute)).symm
        rwa [had_moved_of_ne hn, take_moved_of_ne hwithin hm]

end Custody

end Foundations
