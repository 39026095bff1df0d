import RyuLib.Foundations.Machine

/-!
# Tenancies of names that are used again

A name is opened, used for a while and closed, and can be opened again afterwards, as the
descriptors of open files are.  A trace is possible from the names that are open at its start if
it opens only names that are closed, and uses and closes only names that are open.

* `table_of_single`: names do not interfere; a trace is possible if it is so for every name alone.
* `run_eq_some_iff`: a trace is possible if every name goes through tenancies one after the other,
  the last of which may still go on; the names that are open are those where it does.
-/

namespace Foundations

inductive Tenancy (κ α : Type*)
  | opened (k : κ)
  | used (k : κ) (a : α)
  | closed (k : κ)

/-- The tenancies of a name: what it was used for in those that have ended, and in the one that
goes on. -/
@[ext] structure Tenancies (α : Type*) where
  past : List (List α) := []
  now : Option (List α) := none

namespace Tenancy

variable {κ α : Type*}

def key : Tenancy κ α → κ
  | opened k | used k _ | closed k => k

def note (r : Tenancies α) : Tenancy κ α → Tenancies α
  | opened _ => { r with now := some [] }
  | used _ a => { r with now := r.now.map (· ++ [a]) }
  | closed _ => ⟨r.past ++ r.now.toList, none⟩

/-- Whether the name is open after the event, if the event is possible. -/
def turn (isOpen : Bool) : Tenancy κ α → Option Bool
  | opened _ => if isOpen then none else some true
  | used _ _ => if isOpen then some true else none
  | closed _ => if isOpen then some false else none

/-- One name alone. -/
def single (κ α : Type*) : Machine Bool (Tenancy κ α) := ⟨false, turn⟩

def whole (k : κ) (as : List α) : List (Tenancy κ α) := opened k :: as.map (used k) ++ [closed k]

/-- The events of tenancies one after the other. -/
def spell (k : κ) (r : Tenancies α) : List (Tenancy κ α) :=
  r.past.flatMap (whole k) ++ r.now.elim [] fun as => opened k :: as.map (used k)

/-! ## One name -/

variable {k : κ} {trace : List (Tenancy κ α)}

theorem spell_of_single (hkey : ∀ e ∈ trace, e.key = k) {isOpen : Bool}
    (h : (single κ α).run trace = some isOpen) :
    trace = spell k (trace.foldl note {}) ∧ (trace.foldl note {}).now.isSome = isOpen := by
  revert hkey
  refine Machine.run_induction (M := single κ α) (P := fun trace isOpen =>
    (∀ e ∈ trace, e.key = k) →
      trace = spell k (trace.foldl note {}) ∧ (trace.foldl note {}).now.isSome = isOpen)
    ?_ ?_ trace isOpen h
  · intro _
    exact ⟨rfl, rfl⟩
  · intro trace before e after _ ih hstep hkey
    obtain ⟨hspell, hnow⟩ := ih fun e' he' => hkey e' (List.mem_append_left _ he')
    have hk : e.key = k := hkey e (by simp)
    rw [List.foldl_concat]
    generalize trace.foldl note {} = r at hspell hnow ⊢
    obtain rfl := hspell
    obtain rfl := hnow
    obtain ⟨past, now⟩ := r
    cases e with
    | opened k' =>
        obtain rfl : k' = k := hk
        cases now with
        | none =>
            obtain rfl := Option.some.inj hstep
            exact ⟨by simp [spell, note], rfl⟩
        | some as => cases hstep
    | used k' a =>
        obtain rfl : k' = k := hk
        cases now with
        | none => cases hstep
        | some as =>
            obtain rfl := Option.some.inj hstep
            exact ⟨by simp [spell, note], rfl⟩
    | closed k' =>
        obtain rfl : k' = k := hk
        cases now with
        | none => cases hstep
        | some as =>
            obtain rfl := Option.some.inj hstep
            exact ⟨by simp [spell, note, whole], rfl⟩

theorem single_used (k : κ) (as : List α) :
    (single κ α).runFrom true (as.map (used k)) = some true := by
  induction as with
  | nil => rfl
  | cons a as ih => exact ih

theorem single_whole (k : κ) (as : List α) :
    (single κ α).runFrom false (whole k as) = some false := by
  change ((single κ α).runFrom true (as.map (used k) ++ [closed k])) = some false
  rw [Machine.runFrom_append, single_used]
  rfl

theorem single_spell (k : κ) (r : Tenancies α) :
    (single κ α).run (spell k r) = some r.now.isSome := by
  obtain ⟨past, now⟩ := r
  have hpast : (single κ α).runFrom false (past.flatMap (whole k)) = some false := by
    induction past with
    | nil => rfl
    | cons as past ih =>
        rw [List.flatMap_cons, Machine.runFrom_append, single_whole]
        exact ih
  change (single κ α).runFrom false _ = _
  rw [spell, Machine.runFrom_append, hpast]
  cases now with
  | none => rfl
  | some as => exact single_used k as

/-! ## All names together -/

variable [DecidableEq κ]

/-- The names that are open after the event, if the event is possible. -/
def after (t : Finset κ) : Tenancy κ α → Option (Finset κ)
  | opened k => if k ∈ t then none else some (insert k t)
  | used k _ => if k ∈ t then some t else none
  | closed k => if k ∈ t then some (t.erase k) else none

/-- No name is open at the start. -/
def table (κ α : Type*) [DecidableEq κ] : Machine (Finset κ) (Tenancy κ α) := ⟨∅, after⟩

/-- What happens to one name. -/
def about (k : κ) (trace : List (Tenancy κ α)) : List (Tenancy κ α) :=
  trace.filter fun e => e.key = k

def tenancies (k : κ) (trace : List (Tenancy κ α)) : Tenancies α :=
  (about k trace).foldl note {}

variable {t t' : Finset κ}

theorem about_append (k : κ) (first second : List (Tenancy κ α)) :
    about k (first ++ second) = about k first ++ about k second :=
  List.filter_append ..

theorem about_self (e : Tenancy κ α) : about e.key [e] = [e] := by
  simp [about]

theorem about_of_ne {e : Tenancy κ α} (hk : e.key ≠ k) : about k [e] = [] := by
  simp [about, hk]

theorem key_of_mem_about {e : Tenancy κ α} (he : e ∈ about k trace) : e.key = k :=
  of_decide_eq_true (List.mem_filter.mp he).2

theorem tenancies_concat_self (trace : List (Tenancy κ α)) (e : Tenancy κ α) :
    tenancies e.key (trace ++ [e]) = note (tenancies e.key trace) e := by
  rw [tenancies, about_append, about_self, List.foldl_concat]
  rfl

theorem tenancies_concat_of_ne {e : Tenancy κ α} (hk : e.key ≠ k) :
    tenancies k (trace ++ [e]) = tenancies k trace := by
  rw [tenancies, about_append, about_of_ne hk, List.append_nil]
  rfl

/-- An event is one of its own name. -/
theorem turn_of_after {e : Tenancy κ α} (h : after t e = some t') :
    turn (decide (e.key ∈ t)) e = some (decide (e.key ∈ t')) := by
  cases e <;> simp only [after, key, turn] at h ⊢ <;> split_ifs at h <;>
    obtain rfl := Option.some.inj h <;> simp_all

/-- The other names are left as they are. -/
theorem after_frame {e : Tenancy κ α} (h : after t e = some t') (hk : e.key ≠ k) :
    k ∈ t' ↔ k ∈ t := by
  have hne := Ne.symm hk
  cases e <;> simp only [after, key] at h hne <;> split_ifs at h <;>
    obtain rfl := Option.some.inj h <;> simp [hne]

theorem exists_after {e : Tenancy κ α} {isOpen : Bool}
    (h : turn (decide (e.key ∈ t)) e = some isOpen) : ∃ t', after t e = some t' := by
  by_cases hmem : e.key ∈ t
  · rw [decide_eq_true hmem] at h
    cases e with
    | opened k => cases h
    | used k a => exact ⟨t, if_pos hmem⟩
    | closed k => exact ⟨t.erase k, if_pos hmem⟩
  · rw [decide_eq_false hmem] at h
    cases e with
    | opened k => exact ⟨insert k t, if_neg hmem⟩
    | used k a => cases h
    | closed k => cases h

theorem single_of_table (h : (table κ α).run trace = some t) (k : κ) :
    (single κ α).run (about k trace) = some (decide (k ∈ t)) := by
  refine Machine.run_induction (M := table κ α) (P := fun trace t =>
    (single κ α).run (about k trace) = some (decide (k ∈ t))) ?_ ?_ trace t h
  · rfl
  · intro trace t e t' _ ih hstep
    rw [about_append]
    by_cases hk : e.key = k
    · subst hk
      rw [about_self, Machine.run_concat_eq_some]
      exact ⟨_, ih, turn_of_after hstep⟩
    · rw [about_of_ne hk, List.append_nil, ih]
      simp only [after_frame hstep hk]

/-- Names do not interfere. -/
theorem table_of_single (h : ∀ k, ∃ isOpen, (single κ α).run (about k trace) = some isOpen) :
    ∃ t, (table κ α).run trace = some t := by
  induction trace using List.reverseRecOn with
  | nil => exact ⟨∅, rfl⟩
  | append_singleton trace e ih =>
      have hfront (k : κ) : ∃ isOpen, (single κ α).run (about k trace) = some isOpen := by
        obtain ⟨isOpen, hopen⟩ := h k
        rw [about_append] at hopen
        exact Machine.run_front hopen
      obtain ⟨t, ht⟩ := ih hfront
      obtain ⟨isOpen, hopen⟩ := h e.key
      rw [about_append, about_self, Machine.run_concat_eq_some] at hopen
      obtain ⟨before, hbefore, hturn⟩ := hopen
      rw [single_of_table ht, Option.some.injEq] at hbefore
      obtain ⟨t', ht'⟩ := exists_after (hbefore ▸ hturn)
      exact ⟨t', Machine.run_concat_eq_some.mpr ⟨t, ht, ht'⟩⟩

/-- The name went through tenancies one after the other, and says whether the last goes on. -/
def Spelled (trace : List (Tenancy κ α)) (k : κ) (isOpen : Prop) : Prop :=
  about k trace = spell k (tenancies k trace) ∧ ((tenancies k trace).now.isSome ↔ isOpen)

/-- A trace is possible exactly if every name goes through tenancies one after the other, and
the names that are open are those whose last one goes on. -/
theorem run_eq_some_iff : (table κ α).run trace = some t ↔ ∀ k, Spelled trace k (k ∈ t) := by
  constructor
  · intro h k
    obtain ⟨hspell, hnow⟩ := spell_of_single (fun _ => key_of_mem_about) (single_of_table h k)
    exact ⟨hspell, by rw [tenancies, hnow, decide_eq_true_eq]⟩
  · intro h
    have hsingle (k : κ) : (single κ α).run (about k trace) = some (decide (k ∈ t)) := by
      obtain ⟨hspell, hnow⟩ := h k
      rw [hspell, single_spell, Option.some.injEq, Bool.eq_iff_iff, hnow, decide_eq_true_eq]
    obtain ⟨t', ht'⟩ := table_of_single fun k => ⟨_, hsingle k⟩
    have heq : t' = t := by
      ext k
      have hk := (single_of_table ht' k).symm.trans (hsingle k)
      rwa [Option.some.injEq, decide_eq_decide] at hk
    rw [ht', heq]

end Tenancy

end Foundations
