import Mathlib.Tactic

/-!
# Memory blocks

A block of memory is a total function from offsets to cells: what lies behind
the cells a program has written is unspecified, never absent.  `load` and
`store` are the two directions of a copy between a block and a list of values;
the facts below say what a load sees of a store, and what a pass over the cells with a
pointer (`Cursor`) does to each of them.
-/

namespace Foundations

/-- A block of memory cells, addressed from its first one. -/
abbrev Block (α : Type*) := ℕ → α

namespace Block

variable {α : Type*}

/-- The `length` cells of `m` from `offset` on. -/
def load (m : Block α) (offset length : ℕ) : List α :=
  (List.range length).map fun i => m (offset + i)

/-- `m` with `values` copied to `offset`. -/
def store (m : Block α) (offset : ℕ) (values : List α) : Block α := fun i =>
  if offset ≤ i then values.getD (i - offset) (m i) else m i

/-- A block that starts with `values` and is filled with `fill` behind them. -/
def ofList (fill : α) (values : List α) : Block α := fun i => values.getD i fill

@[simp] theorem length_load (m : Block α) (offset length : ℕ) :
    (m.load offset length).length = length := by
  simp [load]

@[simp] theorem load_zero (m : Block α) (offset : ℕ) : m.load offset 0 = [] := rfl

@[simp] theorem getElem_load (m : Block α) (offset length i : ℕ)
    (h : i < (m.load offset length).length) : (m.load offset length)[i] = m (offset + i) := by
  simp [load]

/-- Two loads agree as soon as the cells under them do. -/
theorem load_congr {m m' : Block α} {offset offset' length : ℕ}
    (h : ∀ i < length, m (offset + i) = m' (offset' + i)) :
    m.load offset length = m'.load offset' length :=
  List.ext_getElem (by simp) fun i hi _ => by simpa using h i (by simpa using hi)

theorem load_add (m : Block α) (offset a b : ℕ) :
    m.load offset (a + b) = m.load offset a ++ m.load (offset + a) b := by
  simp [load, List.range_add, Function.comp_def, Nat.add_assoc]

theorem take_load (m : Block α) (offset length k : ℕ) :
    (m.load offset length).take k = m.load offset (min k length) := by
  refine List.ext_getElem (by simp) fun i _ _ => by simp

theorem drop_load (m : Block α) (offset length k : ℕ) :
    (m.load offset length).drop k = m.load (offset + k) (length - k) := by
  refine List.ext_getElem (by simp) fun i _ _ => by simp [Nat.add_assoc]

/-! ## Loads across a store -/

/-- A store is read back where it was made. -/
@[simp] theorem load_store_self (m : Block α) (offset : ℕ) (values : List α) :
    (m.store offset values).load offset values.length = values := by
  apply List.ext_getElem (by simp)
  intro i _ hi
  simp [store, List.getElem?_eq_getElem hi]

/-- Cells in front of a store keep their values. -/
theorem load_store_before (m : Block α) {offset from' length : ℕ} (values : List α)
    (h : from' + length ≤ offset) :
    (m.store offset values).load from' length = m.load from' length :=
  load_congr fun i hi => by
    have : ¬ offset ≤ from' + i := by omega
    simp [store, this]

/-- Cells behind a store keep their values. -/
theorem load_store_after (m : Block α) {offset from' length : ℕ} (values : List α)
    (h : offset + values.length ≤ from') :
    (m.store offset values).load from' length = m.load from' length :=
  load_congr fun i _ => by
    have hpast : values.length ≤ from' + i - offset := by omega
    simp [store, List.getElem?_eq_none hpast]

/-- A store at the end of a loaded range appends to it. -/
theorem load_store_append (m : Block α) (offset length : ℕ) (values : List α) :
    (m.store (offset + length) values).load offset (length + values.length) =
      m.load offset length ++ values := by
  rw [load_add, load_store_before m values le_rfl, load_store_self]

@[simp] theorem store_nil (m : Block α) (offset : ℕ) : m.store offset [] = m := by
  funext i
  simp [store]

@[simp] theorem load_ofList (fill : α) (values : List α) :
    (ofList fill values).load 0 values.length = values := by
  apply List.ext_getElem (by simp)
  intro i _ hi
  simp [ofList, List.getElem?_eq_getElem hi]

/-! ## Copies inside a block -/

/-- `length` cells from `source` on are copied to `target`, one after the other. -/
def copyWithin (m : Block α) (target source : ℕ) : ℕ → Block α
  | 0 => m
  | length + 1 =>
      let copied := copyWithin m target source length
      copied.store (target + length) [copied (source + length)]

theorem store_concat (m : Block α) (offset : ℕ) (values : List α) (value : α) :
    (m.store offset values).store (offset + values.length) [value] =
      m.store offset (values ++ [value]) := by
  funext i
  simp only [store, List.getD_eq_getElem?_getD]
  rcases lt_trichotomy i (offset + values.length) with hlt | rfl | hgt
  · rw [if_neg (by omega)]
    split
    · rw [List.getElem?_append_left (by omega)]
    · rfl
  · simp
  · rw [if_pos (by omega), if_pos (by omega), if_pos (by omega),
      List.getElem?_eq_none (by simp; omega), List.getElem?_eq_none (by omega),
      List.getElem?_eq_none (by simp; omega)]
    rfl

/-- A copy towards the front reads every cell before it is overwritten, whether or not the
two ranges overlap. -/
theorem copyWithin_eq_store (m : Block α) {target source : ℕ} (h : target ≤ source)
    (length : ℕ) : m.copyWithin target source length = m.store target (m.load source length) := by
  induction length with
  | zero => rw [copyWithin, load_zero, store_nil]
  | succ length ih =>
      have hread : (m.store target (m.load source length)) (source + length) =
          m (source + length) := by
        rw [store, if_pos (by omega), List.getD_eq_getElem?_getD,
          List.getElem?_eq_none (by rw [length_load]; omega), Option.getD_none]
      have hload : m.load source (length + 1) = m.load source length ++ [m (source + length)] := by
        rw [load_add]
        rfl
      rw [copyWithin, ih, hread, hload, ← store_concat, length_load]

end Block

/-! ## Passes over a block -/

/-- A pointer into a block. -/
structure Cursor (α : Type*) where
  position : ℕ
  cells : Block α

namespace Cursor

variable {α : Type*}

/-- `*p = g(*p); p++` -/
def visit (g : α → α) (c : Cursor α) : Cursor α :=
  ⟨c.position + 1, Function.update c.cells c.position (g (c.cells c.position))⟩

@[simp] theorem position_visit_iterate (g : α → α) (n : ℕ) (c : Cursor α) :
    ((visit g)^[n] c).position = c.position + n := by
  induction n with
  | zero => rfl
  | succ n ih =>
      rw [Function.iterate_succ_apply', visit, ih]
      rfl

/-- `n` rounds visit the `n` cells from the pointer on, each once, and no other. -/
theorem cells_visit_iterate (g : α → α) (n : ℕ) (c : Cursor α) (i : ℕ) :
    ((visit g)^[n] c).cells i =
      if c.position ≤ i ∧ i < c.position + n then g (c.cells i) else c.cells i := by
  induction n with
  | zero =>
      rw [if_neg (by omega)]
      rfl
  | succ n ih =>
      rw [Function.iterate_succ_apply', visit, position_visit_iterate]
      dsimp only
      by_cases hlast : i = c.position + n
      · subst hlast
        -- the last round is the first to come to this cell
        have hbefore : ((visit g)^[n] c).cells (c.position + n) = c.cells (c.position + n) := by
          rw [ih, if_neg (by omega)]
        rw [Function.update_self, hbefore, if_pos (by omega)]
      · rw [Function.update_of_ne hlast, ih]
        by_cases hin : c.position ≤ i ∧ i < c.position + n
        · rw [if_pos hin, if_pos (by omega)]
        · rw [if_neg hin, if_neg (by omega)]

end Cursor

end Foundations
