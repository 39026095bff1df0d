import Mathlib.Data.List.DropRight
import Mathlib.Tactic

/-!
# What a log says about the past

A log lists what happened in order.  `AtEach P log` says of everything in it that `P`
allowed it after what came before; `HeldSince P Q log` says that nothing but `Q` has come
after something with `P`.  `since a log` is the part behind the last `a`, and `upTo a log`
the part that ends with it.
-/

namespace Foundations.History

variable {α : Type*}

/-- `P past event` holds at every event of the log. -/
def AtEach (P : List α → α → Prop) (log : List α) : Prop :=
  ∀ past event future, log = past ++ event :: future → P past event

theorem atEach_nil (P : List α → α → Prop) : AtEach P [] := by
  intro past event future h
  simp at h

theorem atEach_concat {P : List α → α → Prop} {log : List α} {event : α} :
    AtEach P (log ++ [event]) ↔ AtEach P log ∧ P log event := by
  constructor
  · intro h
    refine ⟨?_, h log event [] rfl⟩
    intro past event' future hsplit
    exact h past event' (future ++ [event]) (by rw [hsplit]; simp)
  · rintro ⟨hfront, hlast⟩ past event' future hsplit
    -- the event in question is the last one or stands before it
    rcases List.eq_nil_or_concat future with rfl | ⟨front, last, rfl⟩
    · obtain ⟨rfl, hevent⟩ := List.append_inj' hsplit rfl
      rw [List.singleton_inj] at hevent
      exact hevent ▸ hlast
    · rw [List.concat_eq_append, ← List.cons_append, ← List.append_assoc] at hsplit
      exact hfront past event' front (List.append_inj' hsplit rfl).1

theorem AtEach.front {P : List α → α → Prop} {past future : List α}
    (h : AtEach P (past ++ future)) : AtEach P past := by
  intro past' event future' hsplit
  exact h past' event (future' ++ future) (by rw [hsplit]; simp)

/-- Something that satisfies `P` happened, and nothing but `Q` since. -/
def HeldSince (P Q : α → Prop) (log : List α) : Prop :=
  ∃ past event future, log = past ++ event :: future ∧ P event ∧ ∀ other ∈ future, Q other

theorem heldSince_concat {P Q : α → Prop} {log : List α} {event : α} :
    HeldSince P Q (log ++ [event]) ↔ P event ∨ Q event ∧ HeldSince P Q log := by
  constructor
  · rintro ⟨past, event', future, hsplit, hevent, hfuture⟩
    -- what happened last is the event in question or came after it
    rcases List.eq_nil_or_concat future with rfl | ⟨front, last, rfl⟩
    · obtain ⟨_, hlast⟩ := List.append_inj' hsplit rfl
      rw [List.singleton_inj] at hlast
      exact Or.inl (hlast ▸ hevent)
    · rw [List.concat_eq_append, ← List.cons_append, ← List.append_assoc] at hsplit
      obtain ⟨hlog, hlast⟩ := List.append_inj' hsplit rfl
      rw [List.singleton_inj] at hlast
      refine Or.inr ⟨hlast ▸ hfuture last (by simp), past, event', front, hlog, hevent, ?_⟩
      intro other hother
      exact hfuture other (by simp [hother])
  · rintro (hevent | ⟨hlast, past, event', future, rfl, hevent, hfuture⟩)
    · exact ⟨log, event, [], rfl, hevent, by simp⟩
    · refine ⟨past, event', future ++ [event], by simp, hevent, ?_⟩
      intro other hother
      rcases List.mem_append.mp hother with hother | hother
      · exact hfuture other hother
      · rw [List.mem_singleton] at hother
        exact hother ▸ hlast

theorem heldSince_append {P Q : α → Prop} {log more : List α} (hmore : ∀ event ∈ more, ¬ P event) :
    HeldSince P Q (log ++ more) ↔ (∀ event ∈ more, Q event) ∧ HeldSince P Q log := by
  induction more using List.reverseRecOn with
  | nil => simp
  | append_singleton more event ih =>
      have hfront : ∀ event ∈ more, ¬ P event := by
        intro other hother
        exact hmore other (List.mem_append_left _ hother)
      rw [← List.append_assoc, heldSince_concat, ih hfront]
      simp only [hmore event (by simp), false_or, List.mem_append, List.mem_singleton, or_imp,
        forall_and, forall_eq]
      tauto

theorem heldSince_map {β : Type*} {P Q : β → Prop} {f : α → β} {log : List α} :
    HeldSince P Q (log.map f) ↔
      HeldSince (fun event => P (f event)) (fun event => Q (f event)) log := by
  induction log using List.reverseRecOn with
  | nil =>
      refine iff_of_false ?_ ?_ <;>
      · rintro ⟨past, event, future, hsplit, -⟩
        simp at hsplit
  | append_singleton log event ih =>
      rw [List.map_append, List.map_singleton, heldSince_concat, heldSince_concat, ih]

variable [DecidableEq α]

/-- What came after the last `a`. -/
def since (a : α) (log : List α) : List α := log.rtakeWhile (· ≠ a)

/-- Everything up to the last `a`. -/
def upTo (a : α) (log : List α) : List α := log.rdropWhile (· ≠ a)

@[simp] theorem since_nil (a : α) : since a [] = [] := List.rtakeWhile_nil _

@[simp] theorem since_concat_self (a : α) (log : List α) : since a (log ++ [a]) = [] :=
  List.rtakeWhile_concat_neg _ _ _ (by simp)

theorem since_concat_of_ne {a b : α} (h : b ≠ a) (log : List α) :
    since a (log ++ [b]) = since a log ++ [b] :=
  List.rtakeWhile_concat_pos _ _ _ (by simpa using h)

theorem since_append {a : α} {log more : List α} (h : a ∉ more) :
    since a (log ++ more) = since a log ++ more := by
  induction more using List.reverseRecOn with
  | nil => simp
  | append_singleton more b ih =>
      rw [List.mem_append, List.mem_singleton, not_or] at h
      rw [← List.append_assoc, since_concat_of_ne (Ne.symm h.2), ih h.1, List.append_assoc]

end Foundations.History
