import Mathlib.Data.List.Basic
import Mathlib.Data.List.Nodup
import Mathlib.Tactic

/-!
# Insertion-ordered maps

A map is the list of its entries in the order in which their keys were first inserted.  Setting
a key that is there changes the value where it stands, any other key goes to the end.  After any
sequence of sets the keys are in the order of their first set (`keys_setAll`), and each has the
value it was set to last (`lookup_setAll`).
-/

namespace Foundations

namespace OrderedMap

variable {κ β : Type*}

def keys (entries : List (κ × β)) : List κ := entries.map Prod.fst

@[simp] theorem keys_nil : keys ([] : List (κ × β)) = [] := rfl

@[simp] theorem keys_cons (entry : κ × β) (entries : List (κ × β)) :
    keys (entry :: entries) = entry.1 :: keys entries := rfl

variable [BEq κ]

/-- The value under `k` changed where it stands. -/
def assign (k : κ) (v : β) : List (κ × β) → List (κ × β)
  | [] => []
  | entry :: entries =>
      if entry.1 == k then (entry.1, v) :: entries else entry :: assign k v entries

theorem keys_assign (k : κ) (v : β) (entries : List (κ × β)) :
    keys (assign k v entries) = keys entries := by
  induction entries with
  | nil => rfl
  | cons entry entries ih =>
      rw [assign]
      split_ifs
      · rfl
      · rw [keys_cons, keys_cons, ih]

variable [LawfulBEq κ] {entries : List (κ × β)} {k k' : κ} {v : β}

def set (k : κ) (v : β) (entries : List (κ × β)) : List (κ × β) :=
  if k ∈ keys entries then assign k v entries else entries ++ [(k, v)]

/-- Keys that are not there yet go to the end. -/
def addKey (seen : List κ) (k : κ) : List κ := if k ∈ seen then seen else seen ++ [k]

def setAll (sets : List (κ × β)) (entries : List (κ × β)) : List (κ × β) :=
  sets.foldl (fun entries s => set s.1 s.2 entries) entries

theorem keys_set (k : κ) (v : β) (entries : List (κ × β)) :
    keys (set k v entries) = addKey (keys entries) k := by
  unfold set addKey
  split_ifs with hmem
  · exact keys_assign k v entries
  · exact List.map_append ..

theorem lookup_isSome_iff_mem : (entries.lookup k).isSome ↔ k ∈ keys entries := by
  induction entries with
  | nil => simp
  | cons entry entries ih =>
      rw [List.lookup_cons, keys_cons, List.mem_cons]
      by_cases heq : k = entry.1
      · simp [heq]
      · simp [beq_false_of_ne heq, heq, ih]

theorem lookup_assign_self (hmem : k ∈ keys entries) : (assign k v entries).lookup k = some v := by
  induction entries with
  | nil => cases hmem
  | cons entry entries ih =>
      rw [assign]
      split_ifs with heq
      · rw [eq_of_beq heq, List.lookup_cons_self]
      · have heq := mt beq_iff_eq.mpr heq
        rw [List.lookup_cons, beq_false_of_ne (Ne.symm heq)]
        apply ih
        rcases List.mem_cons.mp hmem with hk | hmem
        · exact absurd hk.symm heq
        · exact hmem

theorem lookup_assign_of_ne (hne : k' ≠ k) :
    (assign k v entries).lookup k' = entries.lookup k' := by
  induction entries with
  | nil => rfl
  | cons entry entries ih =>
      rw [assign]
      split_ifs with heq
      · rw [List.lookup_cons, List.lookup_cons, beq_false_of_ne (eq_of_beq heq ▸ hne)]
      · rw [List.lookup_cons, List.lookup_cons, ih]

theorem lookup_set_self (k : κ) (v : β) (entries : List (κ × β)) :
    (set k v entries).lookup k = some v := by
  unfold set
  split_ifs with hmem
  · exact lookup_assign_self hmem
  · have hnone : entries.lookup k = none := by
      rw [← Option.not_isSome_iff_eq_none, lookup_isSome_iff_mem]
      exact hmem
    rw [List.lookup_append, hnone, Option.none_or, List.lookup_cons_self]

/-- Setting one key changes no other key's value. -/
theorem lookup_set_of_ne (hne : k' ≠ k) (v : β) (entries : List (κ × β)) :
    (set k v entries).lookup k' = entries.lookup k' := by
  unfold set
  split_ifs
  · exact lookup_assign_of_ne hne
  · rw [List.lookup_append, List.lookup_cons, beq_false_of_ne hne, List.lookup_nil, Option.or_none]

/-- The entry at a place, by its key. -/
theorem getElem?_eq_of_lookup (hnodup : (keys entries).Nodup) {i : ℕ}
    (hkey : (keys entries)[i]? = some k) (hvalue : entries.lookup k = some v) :
    entries[i]? = some (k, v) := by
  induction entries generalizing i with
  | nil => cases hkey
  | cons entry entries ih =>
      rw [keys_cons, List.nodup_cons] at hnodup
      cases i with
      | zero =>
          rw [keys_cons, List.getElem?_cons_zero, Option.some.injEq] at hkey
          rw [← hkey, List.lookup_cons_self, Option.some.injEq] at hvalue
          rw [List.getElem?_cons_zero, ← hkey, ← hvalue]
      | succ i =>
          rw [keys_cons, List.getElem?_cons_succ] at hkey
          have hne : k ≠ entry.1 := fun heq => hnodup.1 (heq ▸ List.mem_of_getElem? hkey)
          rw [List.lookup_cons, beq_false_of_ne hne] at hvalue
          rw [List.getElem?_cons_succ]
          exact ih hnodup.2 hkey hvalue

/-! ## Sequences of sets -/

theorem setAll_append (first second entries : List (κ × β)) :
    setAll (first ++ second) entries = setAll second (setAll first entries) := List.foldl_append ..

/-- The keys are in the order in which they came first. -/
theorem keys_setAll (sets entries : List (κ × β)) :
    keys (setAll sets entries) = (keys sets).foldl addKey (keys entries) := by
  induction sets generalizing entries with
  | nil => rfl
  | cons s sets ih =>
      rw [keys_cons, List.foldl_cons, ← keys_set s.1 s.2]
      exact ih (set s.1 s.2 entries)

/-- A key has the value it was set to last, or the one it had before. -/
theorem lookup_setAll (sets entries : List (κ × β)) (k : κ) :
    (setAll sets entries).lookup k = (sets.reverse.lookup k).or (entries.lookup k) := by
  induction sets generalizing entries with
  | nil => rfl
  | cons s sets ih =>
      rw [List.reverse_cons, List.lookup_append, Option.or_assoc]
      refine (ih (set s.1 s.2 entries)).trans ?_
      by_cases heq : k = s.1
      · rw [heq, lookup_set_self, List.lookup_cons_self, Option.some_or]
      · rw [lookup_set_of_ne heq, List.lookup_cons, beq_false_of_ne heq, List.lookup_nil,
          Option.none_or]

theorem nodup_addKey {seen : List κ} (hseen : seen.Nodup) (k : κ) : (addKey seen k).Nodup := by
  unfold addKey
  split_ifs with hmem
  · exact hseen
  · exact List.nodup_append.mpr ⟨hseen, List.nodup_singleton k, fun a ha b hb heq =>
      hmem (List.mem_singleton.mp hb ▸ heq ▸ ha)⟩

theorem nodup_setAll (sets : List (κ × β)) (hnodup : (keys entries).Nodup) :
    (keys (setAll sets entries)).Nodup := by
  induction sets generalizing entries with
  | nil => exact hnodup
  | cons s sets ih =>
      apply ih
      rw [keys_set]
      exact nodup_addKey hnodup s.1

end OrderedMap

end Foundations
