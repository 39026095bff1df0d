import RyuLib.Foundations.Occurrences
import RyuLib.Socket.Packet

/-!
# Cutting strings at a border

The left functions take the first place of the border from `find`, the right ones look for the
last place with a loop of their own; both keep places in an `int`.  With `ignoreCase` the search
is made in lowered copies and the string itself is cut.
-/

namespace RyuLib.Strg

open Foundations

/-- `::tolower` in the "C" locale. -/
def tolower (c : UInt8) : UInt8 := if 65 ≤ c ∧ c ≤ 90 then c + 32 else c

def lower (s : List UInt8) : List UInt8 := s.map tolower

/-- `if (ignore_case) transform(...)`. -/
def folded (ignoreCase : Bool) (s : List UInt8) : List UInt8 := if ignoreCase then lower s else s

def npos : ℕ := 2 ^ 64 - 1

/-- `string::find`. -/
def find (s pattern : List UInt8) : ℕ := (firstOccurrence pattern s).getD npos

/-- `string::substr`, which throws `out_of_range` behind the end. -/
def substr (s : List UInt8) (pos count : ℕ) : Option (List UInt8) :=
  if pos ≤ s.length then some ((s.drop pos).take count) else none

def deleteLeft (str border : List UInt8) (ignoreCase : Bool) : Option (List UInt8) :=
  let src := folded ignoreCase str
  let dst := folded ignoreCase border
  let pos := toInt (find src dst)
  if pos ≤ 0 then some str else substr str pos.toNat str.length

def deleteLeftPlus (str border : List UInt8) (ignoreCase : Bool) : Option (List UInt8) :=
  let src := folded ignoreCase str
  let dst := folded ignoreCase border
  let pos := toInt (find src dst)
  if pos < 0 then some str else substr str (pos.toNat + border.length) str.length

/-- The loop of the right functions over `i = k - 1, ..., 0`. -/
def scanRight (src border : List UInt8) (cut : ℕ → Option (List UInt8)) (str : List UInt8) :
    ℕ → Option (List UInt8)
  | 0 => some str
  | i + 1 =>
      (substr src i border.length).bind fun piece =>
        if piece = border then cut i else scanRight src border cut str i

/-- How many places the loop looks at when `int i` starts at `src.length() - 1`. -/
def scanned (src : List UInt8) : ℕ := (toInt (src.length - 1) + 1).toNat

-- the right functions compare with `border` itself, not with a lowered copy of it

def deleteRight (str border : List UInt8) (ignoreCase : Bool) : Option (List UInt8) :=
  let src := folded ignoreCase str
  scanRight src border (fun i => substr str 0 (i + border.length)) str (scanned src)

def deleteRightPlus (str border : List UInt8) (ignoreCase : Bool) : Option (List UInt8) :=
  let src := folded ignoreCase str
  scanRight src border (fun i => substr str 0 i) str (scanned src)

variable {s b : List UInt8} {c : Bool} {p q i : ℕ}

/-! ## Lowering -/

theorem tolower_tolower (c : UInt8) : tolower (tolower c) = tolower c := by
  have hall : ∀ n : Fin 256, tolower (tolower (UInt8.ofFin n)) = tolower (UInt8.ofFin n) := by
    decide +kernel
  exact hall c.toFin

@[simp] theorem lower_lower (s : List UInt8) : lower (lower s) = lower s := by
  rw [lower, lower, List.map_map]
  exact List.map_congr_left fun c _ => tolower_tolower c

@[simp] theorem length_lower (s : List UInt8) : (lower s).length = s.length := List.length_map ..

@[simp] theorem folded_false (s : List UInt8) : folded false s = s := rfl

@[simp] theorem folded_true (s : List UInt8) : folded true s = lower s := rfl

@[simp] theorem length_folded (c : Bool) (s : List UInt8) : (folded c s).length = s.length := by
  cases c with
  | false => rfl
  | true => exact length_lower s

/-! ## Places in an `int` -/

theorem toInt_le {n : ℤ} (hlow : -1 ≤ n) : toInt n ≤ n := by
  by_cases hlt : n < 2 ^ 31
  · exact (toInt_of_bounds (by omega) hlt).le
  · have hle := toInt_le_sub (not_lt.mp hlt)
    omega

theorem toInt_npos : toInt npos = -1 := by decide

theorem scanned_le (s : List UInt8) : scanned s ≤ s.length := by
  have hle := toInt_le (n := (s.length : ℤ) - 1) (by omega)
  unfold scanned
  omega

theorem lt_scanned_iff : i < scanned s ↔ (i : ℤ) ≤ toInt (s.length - 1) := by
  unfold scanned
  omega

/-! ## What the functions return -/

theorem find_eq (h : IsFirst b s p) : find s b = p := by
  rw [find, h.firstOccurrence_eq, Option.getD_some]

theorem find_eq_npos (h : ∀ i, ¬ OccursAt b s i) : find s b = npos := by
  rw [find, firstOccurrence_eq_none_iff.mpr h, Option.getD_none]

/-- What `find` returns is a place for the whole pattern, or becomes negative. -/
theorem toInt_find_le (s b : List UInt8) :
    toInt (find s b) < 0 ∨ (toInt (find s b)).toNat + b.length ≤ s.length := by
  cases hfirst : firstOccurrence b s with
  | none =>
      rw [find, hfirst, Option.getD_none, toInt_npos]
      exact Or.inl (by norm_num)
  | some p =>
      have hbound := (firstOccurrence_eq_some hfirst).2
      have hle := toInt_le (n := (p : ℤ)) (by omega)
      rw [find, hfirst, Option.getD_some]
      omega

theorem substr_zero (s : List UInt8) (count : ℕ) : substr s 0 count = some (s.take count) := by
  rw [substr, if_pos (Nat.zero_le _), List.drop_zero]

theorem substr_to_end {pos : ℕ} (h : pos ≤ s.length) :
    substr s pos s.length = some (s.drop pos) := by
  rw [substr, if_pos h, List.take_of_length_le (by rw [List.length_drop]; omega)]

theorem deleteLeft_eq (s b : List UInt8) (c : Bool) :
    deleteLeft s b c = some (s.drop (toInt (find (folded c s) (folded c b))).toNat) := by
  have hfind := toInt_find_le (folded c s) (folded c b)
  simp only [length_folded] at hfind
  simp only [deleteLeft]
  split_ifs with hpos
  · rw [Int.toNat_of_nonpos hpos, List.drop_zero]
  · exact substr_to_end (by omega)

theorem deleteLeftPlus_eq (s b : List UInt8) (c : Bool) :
    deleteLeftPlus s b c = some (if toInt (find (folded c s) (folded c b)) < 0 then s
      else s.drop ((toInt (find (folded c s) (folded c b))).toNat + b.length)) := by
  have hfind := toInt_find_le (folded c s) (folded c b)
  simp only [length_folded] at hfind
  simp only [deleteLeftPlus]
  split_ifs with hpos
  · rfl
  · exact substr_to_end (by omega)

section Scan

variable {src : List UInt8} {cut : ℕ → Option (List UInt8)} {str : List UInt8} {k : ℕ}

/-- A step of the loop: the piece at `i` is the border exactly if the border occurs there. -/
theorem scanRight_succ (hi : i < src.length) (b : List UInt8) (cut : ℕ → Option (List UInt8))
    (str : List UInt8) :
    scanRight src b cut str (i + 1) =
      if OccursAt b src i then cut i else scanRight src b cut str i := by
  rw [scanRight, substr, if_pos hi.le, Option.bind_some]
  simp only [OccursAt, List.prefix_iff_eq_take, eq_comm]

/-- The loop ends at the last occurrence among the places it looks at. -/
theorem scanRight_found (hk : k ≤ src.length) (hi : i < k) (hoccurs : OccursAt b src i)
    (hlast : ∀ j, i < j → j < k → ¬ OccursAt b src j) : scanRight src b cut str k = cut i := by
  induction k with
  | zero => omega
  | succ k ih =>
      rw [scanRight_succ (by omega)]
      by_cases heq : i = k
      · rw [← heq, if_pos hoccurs]
      · rw [if_neg (hlast k (by omega) (by omega))]
        exact ih (by omega) (by omega) fun j hij hjk => hlast j hij (by omega)

theorem scanRight_none (hk : k ≤ src.length) (hnone : ∀ i < k, ¬ OccursAt b src i) :
    scanRight src b cut str k = some str := by
  induction k with
  | zero => rfl
  | succ k ih =>
      rw [scanRight_succ (by omega), if_neg (hnone k (by omega))]
      exact ih (by omega) fun i hi => hnone i (by omega)

/-- One of the two holds of every loop. -/
theorem scan_cases (src b : List UInt8) (k : ℕ) :
    (∃ i < k, OccursAt b src i ∧ ∀ j, i < j → j < k → ¬ OccursAt b src j) ∨
      ∀ i < k, ¬ OccursAt b src i := by
  induction k with
  | zero => exact Or.inr fun i hi => absurd hi (Nat.not_lt_zero i)
  | succ k ih =>
      by_cases hk : OccursAt b src k
      · exact Or.inl ⟨k, by omega, hk, fun j hij hjk => by omega⟩
      · rcases ih with ⟨i, hi, hoccurs, hlast⟩ | hnone
        · refine Or.inl ⟨i, by omega, hoccurs, fun j hij hjk => ?_⟩
          by_cases hjk' : j = k
          · exact hjk' ▸ hk
          · exact hlast j hij (by omega)
        · refine Or.inr fun i hi => ?_
          by_cases hik : i = k
          · exact hik ▸ hk
          · exact hnone i (by omega)

end Scan

/-! ## Cutting at a border -/

theorem deleteLeft_of_first (h : IsFirst b s p) :
    deleteLeft s b false = some (s.drop (toInt p).toNat) := by
  rw [deleteLeft_eq, folded_false, folded_false, find_eq h]

theorem deleteLeftPlus_of_first (h : IsFirst b s p) :
    deleteLeftPlus s b false =
      some (if toInt p < 0 then s else s.drop ((toInt p).toNat + b.length)) := by
  rw [deleteLeftPlus_eq, folded_false, folded_false, find_eq h]

theorem deleteLeft_of_none (h : ∀ i, ¬ OccursAt b s i) : deleteLeft s b false = some s := by
  rw [deleteLeft_eq, folded_false, folded_false, find_eq_npos h, toInt_npos]
  rfl

theorem deleteLeftPlus_of_none (h : ∀ i, ¬ OccursAt b s i) :
    deleteLeftPlus s b false = some s := by
  rw [deleteLeftPlus_eq, folded_false, folded_false, find_eq_npos h, toInt_npos]
  rfl

/-- A last place that the loop looks at is the one it ends at. -/
theorem scanRight_of_last (h : IsLast b s q) (hq : q < scanned s)
    (cut : ℕ → Option (List UInt8)) : scanRight s b cut s (scanned s) = cut q := by
  have hafter : ∀ j, q < j → j < scanned s → ¬ OccursAt b s j := fun j hj _ hoccurs =>
    absurd (h.le hoccurs) (by omega)
  exact scanRight_found (scanned_le s) hq h.occurs hafter

theorem deleteRight_of_last (h : IsLast b s q) (hq : q < scanned s) :
    deleteRight s b false = some (s.take (q + b.length)) :=
  (scanRight_of_last h hq _).trans (substr_zero s _)

theorem deleteRightPlus_of_last (h : IsLast b s q) (hq : q < scanned s) :
    deleteRightPlus s b false = some (s.take q) :=
  (scanRight_of_last h hq _).trans (substr_zero s q)

theorem deleteRight_of_none (h : ∀ i < scanned s, ¬ OccursAt b s i) :
    deleteRight s b false = some s := scanRight_none (scanned_le s) h

theorem deleteRightPlus_of_none (h : ∀ i < scanned s, ¬ OccursAt b s i) :
    deleteRightPlus s b false = some s := scanRight_none (scanned_le s) h

/-- What stands before a place that the loop looks at, or the whole string. -/
theorem deleteRightPlus_cases (s b : List UInt8) :
    (∃ i < scanned s, OccursAt b s i ∧ deleteRightPlus s b false = some (s.take i)) ∨
      (∀ i < scanned s, ¬ OccursAt b s i) ∧ deleteRightPlus s b false = some s := by
  rcases scan_cases s b (scanned s) with ⟨i, hi, hoccurs, hlast⟩ | hnone
  · have hcut : deleteRightPlus s b false = some (s.take i) :=
      (scanRight_found (scanned_le s) hi hoccurs hlast).trans (substr_zero s i)
    exact Or.inl ⟨i, hi, hoccurs, hcut⟩
  · exact Or.inr ⟨hnone, deleteRightPlus_of_none hnone⟩

/-- Cutting from the right is cutting the reversed string from the left. -/
def Mirrors (s b : List UInt8) : Prop :=
  deleteRight s b false = (deleteLeft s.reverse b.reverse false).map List.reverse ∧
    deleteRightPlus s b false = (deleteLeftPlus s.reverse b.reverse false).map List.reverse

/-- A string is cut at the last and at the first place of the border, and stays as it is where
the border is not there. -/
def Cuts (s b : List UInt8) : Prop :=
  ((∃ i, OccursAt b s i) →
    (∃ front back, deleteRightPlus s b false = some front ∧ s = front ++ b ++ back ∧
      IsLast b s front.length) ∧
    ∃ front back, deleteLeftPlus s b false = some back ∧ s = front ++ b ++ back ∧
      IsFirst b s front.length) ∧
  ((∀ i, ¬ OccursAt b s i) →
    deleteLeft s b false = some s ∧ deleteLeftPlus s b false = some s ∧
      deleteRight s b false = some s ∧ deleteRightPlus s b false = some s)

/-- Where the border is in the string, what stands before its first place and behind its last
place is less than an `int` counts, and the loop starts at the last place or behind it. -/
def WithinInt (s b : List UInt8) : Prop :=
  ∀ p q, IsFirst b s p → IsLast b s q →
    p < 2 ^ 31 ∧ (q : ℤ) ≤ toInt (s.length - 1) ∧ s.length - (q + b.length) < 2 ^ 31

/-- A place that an `int` keeps. -/
theorem toNat_toInt_of_lt {n : ℕ} (h : n < 2 ^ 31) : (toInt n).toNat = n := by
  rw [toInt_of_lt (by omega) (by omega)]
  exact Int.toNat_natCast n

theorem mirrors_of_none (h : ∀ i, ¬ OccursAt b s i) : Mirrors s b := by
  have hback : ∀ i, ¬ OccursAt b.reverse s.reverse i := fun i hi => h _ hi.of_reverse
  constructor
  · rw [deleteRight_of_none fun i _ => h i, deleteLeft_of_none hback, Option.map_some,
      List.reverse_reverse]
  · rw [deleteRightPlus_of_none fun i _ => h i, deleteLeftPlus_of_none hback, Option.map_some,
      List.reverse_reverse]

theorem mirrors_of_last (hb : b ≠ []) (h : IsLast b s q) (hq : q < scanned s)
    (hbehind : s.length - (q + b.length) < 2 ^ 31) : Mirrors s b := by
  have hbound := h.occurs.bound hb
  have hfirst := h.reverse
  have hint := toNat_toInt_of_lt hbehind
  constructor
  · have hplace : s.length - (s.length - (q + b.length)) = q + b.length := by omega
    rw [deleteRight_of_last h hq, deleteLeft_of_first hfirst, hint, List.drop_reverse,
      Option.map_some, List.reverse_reverse, hplace]
  · have hpos : ¬ toInt (s.length - (q + b.length) : ℕ) < 0 := by
      rw [toInt_of_lt (by omega) (by omega)]
      omega
    have hplace : s.length - (s.length - (q + b.length) + b.length) = q := by omega
    rw [deleteRightPlus_of_last h hq, deleteLeftPlus_of_first hfirst, if_neg hpos, hint,
      List.length_reverse, List.drop_reverse, Option.map_some, List.reverse_reverse, hplace]

theorem cuts_of_none (h : ∀ i, ¬ OccursAt b s i) : Cuts s b := by
  refine ⟨fun ⟨i, hi⟩ => absurd hi (h i), fun _ => ⟨deleteLeft_of_none h, ?_, ?_, ?_⟩⟩
  · exact deleteLeftPlus_of_none h
  · exact deleteRight_of_none fun i _ => h i
  · exact deleteRightPlus_of_none fun i _ => h i

theorem cuts_of_places (hb : b ≠ []) (hfirst : IsFirst b s p) (hlast : IsLast b s q)
    (hp : p < 2 ^ 31) (hq : q < scanned s) : Cuts s b := by
  have hpos : ¬ toInt p < 0 := by
    rw [toInt_of_lt (by omega) (by omega)]
    omega
  have hp_le := hfirst.occurs.bound hb
  have hq_le := hlast.occurs.bound hb
  refine ⟨fun _ => ⟨⟨s.take q, s.drop (q + b.length), ?_, ?_, ?_⟩,
    ⟨s.take p, s.drop (p + b.length), ?_, ?_, ?_⟩⟩, fun hnone => absurd hfirst.occurs (hnone p)⟩
  · exact deleteRightPlus_of_last hlast hq
  · rw [List.append_assoc]
    exact hlast.occurs.split
  · rw [List.length_take_of_le (by omega)]
    exact hlast
  · rw [deleteLeftPlus_of_first hfirst, if_neg hpos, toNat_toInt_of_lt hp]
  · rw [List.append_assoc]
    exact hfirst.occurs.split
  · rw [List.length_take_of_le (by omega)]
    exact hfirst

/-- How long the right function's result is when the last place is not looked at. -/
theorem length_deleteRightPlus_ne (hb : b ≠ []) (h : IsLast b s q) (hq : scanned s ≤ q)
    {front : List UInt8} (hfront : deleteRightPlus s b false = some front) : front.length ≠ q := by
  have hbound := h.occurs.bound hb
  have hpos := List.length_pos_of_ne_nil hb
  rcases deleteRightPlus_cases s b with ⟨i, hi, -, hcut⟩ | ⟨-, hcut⟩
  · obtain rfl := Option.some.inj (hcut.symm.trans hfront)
    rw [List.length_take]
    omega
  · obtain rfl := Option.some.inj (hcut.symm.trans hfront)
    omega

/-- A place that leaves the left function a rest of the right length was kept by the `int`. -/
theorem lt_of_length_deleteLeftPlus (hb : b ≠ []) (h : IsFirst b s p) {back : List UInt8}
    (hback : deleteLeftPlus s b false = some back)
    (hlength : back.length = s.length - (p + b.length)) : p < 2 ^ 31 := by
  have hbound := h.occurs.bound hb
  have hpos := List.length_pos_of_ne_nil hb
  have hlt := toInt_lt p
  have hle := toInt_le (n := (p : ℤ)) (by omega)
  obtain rfl := Option.some.inj ((deleteLeftPlus_of_first h).symm.trans hback)
  split_ifs at hlength with hneg
  · omega
  · rw [List.length_drop] at hlength
    omega

/-- The law holds exactly of the strings and borders whose places the `int`s keep. -/
theorem mirrors_iff (s b : List UInt8) (hb : b ≠ []) :
    Mirrors s b ∧ Cuts s b ↔ WithinInt s b := by
  constructor
  · intro ⟨⟨_, hmirror⟩, hcuts, _⟩ p q hfirst hlast
    have hlast_le := hlast.occurs.bound hb
    obtain ⟨⟨front, back, hright, hsplit, hfront⟩, front', back', hleft, hsplit', hfront'⟩ :=
      hcuts ⟨p, hfirst.occurs⟩
    obtain rfl := hlast.unique hfront
    obtain rfl := hfirst.unique hfront'
    refine ⟨?_, ?_, ?_⟩
    · apply lt_of_length_deleteLeftPlus hb hfirst hleft
      rw [hsplit', List.length_append, List.length_append]
      omega
    · apply lt_scanned_iff.mp
      by_contra hq
      exact length_deleteRightPlus_ne hb hlast (by omega) hright rfl
    · rw [hright] at hmirror
      obtain ⟨back, hback, hreverse⟩ := Option.map_eq_some_iff.mp hmirror.symm
      have hlength := congrArg List.length hreverse
      rw [List.length_reverse] at hlength
      apply lt_of_length_deleteLeftPlus (mt List.reverse_eq_nil_iff.mp hb) hlast.reverse hback
      rw [hlength, List.length_reverse, List.length_reverse]
      omega
  · intro hwithin
    by_cases hoccurs : ∃ i, OccursAt b s i
    · obtain ⟨i, hi⟩ := hoccurs
      obtain ⟨p, q, hfirst, hlast⟩ := exists_first_and_last hb hi
      obtain ⟨hp, hq, hbehind⟩ := hwithin p q hfirst hlast
      exact ⟨mirrors_of_last hb hlast (lt_scanned_iff.mpr hq) hbehind,
        cuts_of_places hb hfirst hlast hp (lt_scanned_iff.mpr hq)⟩
    · have hnone := not_exists.mp hoccurs
      exact ⟨mirrors_of_none hnone, cuts_of_none hnone⟩

/-- Strings of up to `2 ^ 31` bytes have all their places in an `int`. -/
theorem withinInt_of_length (hb : b ≠ []) (hlength : s.length ≤ 2 ^ 31) : WithinInt s b := by
  intro p q hfirst hlast
  have hp := hfirst.occurs.bound hb
  have hq := hlast.occurs.bound hb
  have hpos := List.length_pos_of_ne_nil hb
  rw [toInt_of_lt (by omega) (by omega)]
  omega

theorem mirrors_path : Mirrors [97, 47, 98, 47, 99] [47] ∧ Cuts [97, 47, 98, 47, 99] [47] :=
  (mirrors_iff [97, 47, 98, 47, 99] [47] (by decide)).mpr
    (withinInt_of_length (by decide) (by simp))

/-- An `x` and `2 ^ 31` bytes behind it. -/
def longString : List UInt8 := 120 :: List.replicate (2 ^ 31) 97

theorem scanned_longString : scanned longString = 0 := by
  have hlength : (longString.length : ℤ) - 1 = 2 ^ 31 := by
    rw [longString, List.length_cons, List.length_replicate]
    norm_num
  rw [scanned, hlength]
  decide

/-- The loop does not start, and the border stays. -/
theorem not_mirrors_longString : ¬ (Mirrors longString [120] ∧ Cuts longString [120]) := by
  intro ⟨_, hcuts, _⟩
  obtain ⟨⟨front, back, hfront, hsplit, _⟩, _⟩ := hcuts ⟨0, List.prefix_append [120] _⟩
  have hstays : deleteRightPlus longString [120] false = some longString :=
    deleteRightPlus_of_none fun i hi => absurd hi (by rw [scanned_longString]; omega)
  obtain rfl := Option.some.inj (hstays.symm.trans hfront)
  have hlength := congrArg List.length hsplit
  rw [List.length_append, List.length_append, List.length_singleton] at hlength
  omega

/-! ## Ignoring case -/

/-- With `ignoreCase` each function cuts from the string what it cuts from the lowered string at
the lowered border. -/
def IgnoresCase (s b : List UInt8) : Prop :=
  (∀ f ∈ [deleteLeft, deleteLeftPlus], ∃ cut cut', f s b true = some cut ∧
    f (lower s) (lower b) false = some cut' ∧ cut <:+ s ∧ cut.length = cut'.length) ∧
  ∀ f ∈ [deleteRight, deleteRightPlus], ∃ cut cut', f s b true = some cut ∧
    f (lower s) (lower b) false = some cut' ∧ cut <+: s ∧ cut.length = cut'.length

theorem deleteLeft_ignoresCase (s b : List UInt8) :
    ∃ cut cut', deleteLeft s b true = some cut ∧
      deleteLeft (lower s) (lower b) false = some cut' ∧ cut <:+ s ∧
        cut.length = cut'.length := by
  refine ⟨_, _, deleteLeft_eq s b true, deleteLeft_eq (lower s) (lower b) false,
    List.drop_suffix _ _, ?_⟩
  rw [List.length_drop, List.length_drop, length_lower]
  rfl

theorem deleteLeftPlus_ignoresCase (s b : List UInt8) :
    ∃ cut cut', deleteLeftPlus s b true = some cut ∧
      deleteLeftPlus (lower s) (lower b) false = some cut' ∧ cut <:+ s ∧
        cut.length = cut'.length := by
  have hcut : deleteLeftPlus s b true = some (if toInt (find (lower s) (lower b)) < 0 then s
      else s.drop ((toInt (find (lower s) (lower b))).toNat + b.length)) :=
    deleteLeftPlus_eq s b true
  refine ⟨_, _, hcut, deleteLeftPlus_eq (lower s) (lower b) false, ?_⟩
  rw [folded_false, folded_false]
  by_cases hneg : toInt (find (lower s) (lower b)) < 0
  · rw [if_pos hneg, if_pos hneg, length_lower]
    exact ⟨List.suffix_refl s, rfl⟩
  · rw [if_neg hneg, if_neg hneg, List.length_drop, List.length_drop, length_lower, length_lower]
    exact ⟨List.drop_suffix _ _, rfl⟩

/-- Nothing that has a capital in it occurs in a lowered string. -/
theorem not_occursAt_lower (hb : lower b ≠ b) (s : List UInt8) (i : ℕ) :
    ¬ OccursAt b (lower s) i := by
  intro hoccurs
  have hlowered : b = lower ((s.drop i).take b.length) := by
    calc b = ((lower s).drop i).take b.length := List.prefix_iff_eq_take.mp hoccurs
      _ = lower ((s.drop i).take b.length) := by
          rw [lower, lower, ← List.map_drop, ← List.map_take]
  exact hb (by rw [hlowered, lower_lower])

/-- Two loops that find the same places cut at the same place. -/
theorem scanRight_same {src b b' str str' : List UInt8} {k : ℕ} (place : ℕ → ℕ)
    (hk : k ≤ src.length) (hsame : ∀ i < k, OccursAt b src i ↔ OccursAt b' src i)
    (hlength : str.length = str'.length) :
    ∃ cut cut', scanRight src b (fun i => substr str 0 (place i)) str k = some cut ∧
      scanRight src b' (fun i => substr str' 0 (place i)) str' k = some cut' ∧
        cut <+: str ∧ cut.length = cut'.length := by
  rcases scan_cases src b k with ⟨i, hi, hoccurs, hlast⟩ | hnone
  · refine ⟨_, _, (scanRight_found hk hi hoccurs hlast).trans (substr_zero str _),
      (scanRight_found hk hi ((hsame i hi).mp hoccurs) fun j hij hjk hj =>
        hlast j hij hjk ((hsame j hjk).mpr hj)).trans (substr_zero str' _),
      List.take_prefix _ _, ?_⟩
    rw [List.length_take, List.length_take, hlength]
  · exact ⟨str, str', scanRight_none hk hnone,
      scanRight_none hk fun i hi hoccurs => hnone i hi ((hsame i hi).mpr hoccurs),
      List.prefix_refl str, hlength⟩

theorem scanned_lower (s : List UInt8) : scanned (lower s) = scanned s := by
  rw [scanned, scanned, length_lower]

theorem rights_ignoreCase
    (hsame : ∀ i < scanned s, OccursAt b (lower s) i ↔ OccursAt (lower b) (lower s) i) :
    ∀ f ∈ [deleteRight, deleteRightPlus], ∃ cut cut', f s b true = some cut ∧
      f (lower s) (lower b) false = some cut' ∧ cut <+: s ∧ cut.length = cut'.length := by
  have hk : scanned s ≤ (lower s).length := (length_lower s).symm ▸ scanned_le s
  intro f hf
  rcases List.mem_pair.mp hf with rfl | rfl
  · simp only [deleteRight, folded_true, folded_false, scanned_lower, length_lower]
    exact scanRight_same (fun i => i + b.length) hk hsame (length_lower s).symm
  · simp only [deleteRightPlus, folded_true, folded_false, scanned_lower]
    exact scanRight_same (fun i => i) hk hsame (length_lower s).symm

/-- A border that the loop comes to is cut off. -/
theorem length_deleteRightPlus_lt (hi : i < scanned s) (hoccurs : OccursAt b s i)
    {cut : List UInt8} (hcut : deleteRightPlus s b false = some cut) : cut.length < s.length := by
  have hk := scanned_le s
  rcases deleteRightPlus_cases s b with ⟨j, hj, -, hplace⟩ | ⟨hnone, -⟩
  · obtain rfl := Option.some.inj (hplace.symm.trans hcut)
    rw [List.length_take]
    omega
  · exact absurd hoccurs (hnone i hi)

/-- A border with capitals is looked for in vain, which makes no difference exactly where its
lowered copy is not there to be found. -/
theorem ignoresCase_iff (s b : List UInt8) :
    IgnoresCase s b ↔
      lower b = b ∨ ∀ i : ℕ, i ≤ toInt (s.length - 1) → ¬ OccursAt (lower b) (lower s) i := by
  constructor
  · intro ⟨_, hrights⟩
    by_contra hneither
    obtain ⟨hcapital, hfound⟩ := not_or.mp hneither
    simp only [not_forall, not_not] at hfound
    obtain ⟨i, hi, hoccurs⟩ := hfound
    obtain ⟨cut, cut', hcut, hcut', _, hlength⟩ := hrights deleteRightPlus (by simp)
    have hstays : deleteRightPlus s b true = some s :=
      scanRight_none (scanned_le (lower s)) fun j _ => not_occursAt_lower hcapital s j
    obtain rfl := Option.some.inj (hstays.symm.trans hcut)
    have hlt : i < scanned (lower s) := by
      rw [scanned_lower]
      exact lt_scanned_iff.mpr hi
    have hshorter := length_deleteRightPlus_lt hlt hoccurs hcut'
    rw [length_lower] at hshorter
    omega
  · intro hcond
    refine ⟨?_, ?_⟩
    · intro f hf
      rcases List.mem_pair.mp hf with rfl | rfl
      · exact deleteLeft_ignoresCase s b
      · exact deleteLeftPlus_ignoresCase s b
    · apply rights_ignoreCase
      intro i hi
      by_cases hcapital : lower b = b
      · rw [hcapital]
      · rcases hcond with heq | hnone
        · exact absurd heq hcapital
        · exact iff_of_false (not_occursAt_lower hcapital s i) (hnone i (lt_scanned_iff.mp hi))

/-- `deleteRight("abc", "B", true)`. -/
theorem not_ignoresCase_capital : ¬ IgnoresCase [97, 98, 99] [66] := by
  intro ⟨_, hrights⟩
  obtain ⟨cut, cut', hcut, hcut', _, hlength⟩ := hrights deleteRight (by simp)
  have hstays : deleteRight [97, 98, 99] [66] true = some [97, 98, 99] := by decide
  have hlowered : deleteRight (lower [97, 98, 99]) (lower [66]) false = some [97, 98] := by decide
  obtain rfl := Option.some.inj (hstays.symm.trans hcut)
  obtain rfl := Option.some.inj (hlowered.symm.trans hcut')
  exact absurd hlength (by decide)

end RyuLib.Strg
