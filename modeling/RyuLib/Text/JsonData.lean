import Mathlib.Data.List.TakeWhile
import RyuLib.Foundations.Machine
import RyuLib.Foundations.OrderedMap
import RyuLib.Socket.Packet

/-!
# JsonData

A document is kept with the members of an object in an array; a member is found by its name or
by walking the array.  A set by name adds the member first if there is none.  A number in
brackets is the place in a JSON array.
-/

namespace RyuLib

open Foundations

namespace JsonData

/-- `rest` is any other JSON value. -/
inductive Value (ρ : Type*)
  | string (s : List UInt8)
  | int (value : ℤ)
  | other (rest : ρ)

/-- A name and a value. -/
abbrev Member (ρ : Type*) := List UInt8 × Value ρ

inductive Document (ρ : Type*)
  | object (members : List (Member ρ))
  | array (elements : List (Value ρ))
  | other (rest : ρ)

end JsonData

structure JsonData (ρ : Type*) where
  json : JsonData.Document ρ

namespace JsonData

variable {ρ : Type*}

/-- What is left of a string that is passed as a `const char*`. -/
def cString (s : List UInt8) : List UInt8 := s.takeWhile (· ≠ 0)

/-- `GetString()`, which asserts that the value is a string. -/
def Value.getString : Value ρ → Option (List UInt8)
  | .string s => some (cString s)
  | _ => none

def Value.getInt : Value ρ → Option ℤ
  | .int value => some value
  | _ => none

/-- The members of an object, as `MemberBegin` and the other calls for members assert it. -/
def Document.members : Document ρ → Option (List (Member ρ))
  | .object members => some members
  | _ => none

def hasMember (members : List (Member ρ)) (name : List UInt8) : Bool :=
  (members.lookup name).isSome

def addMember (members : List (Member ρ)) (name : List UInt8) (value : Value ρ) :
    List (Member ρ) := members ++ [(name, value)]

/-- A write to `json_[name]`, which asserts that there is such a member. -/
def assignMember (name : List UInt8) (value : Value ρ) :
    List (Member ρ) → Option (List (Member ρ))
  | [] => none
  | member :: members =>
      if member.1 = name then some ((member.1, value) :: members)
      else (assignMember name value members).map (member :: ·)

/-- The loop of the functions that take an index; `i` counts the members. -/
def walk {β : Type*} (index : ℤ) (read : Member ρ → Option β) (atEnd : β) :
    ℤ → List (Member ρ) → Option β
  | _, [] => some atEnd
  | i, member :: members =>
      if i = index then read member else walk index read atEnd (i + 1) members

def size (d : JsonData ρ) : Option ℤ := d.json.members.map fun members => toInt members.length

def getName (d : JsonData ρ) (index : ℤ) : Option (List UInt8) :=
  d.json.members.bind (walk index (fun member => some (cString member.1)) [] 0)

/-- `getString(int)`. -/
def getStringAt (d : JsonData ρ) (index : ℤ) : Option (List UInt8) :=
  d.json.members.bind (walk index (fun member => member.2.getString) [] 0)

def getString (d : JsonData ρ) (name : List UInt8) : Option (List UInt8) :=
  d.json.members.bind fun members => (members.lookup (cString name)).bind Value.getString

/-- `getInt(int)`. -/
def getIntAt (d : JsonData ρ) (index : ℤ) : Option ℤ :=
  d.json.members.bind (walk index (fun member => member.2.getInt) 0 0)

def getInt (d : JsonData ρ) (name : List UInt8) : Option ℤ :=
  d.json.members.bind fun members => (members.lookup (cString name)).bind Value.getInt

/-- A write to `json_[index]`, which asserts an array and a place in it. -/
def setAt (d : JsonData ρ) (index : ℤ) (value : Value ρ) : Option (JsonData ρ) :=
  match d.json with
  | .array elements =>
      let place := (index % 2 ^ 32).toNat
      if place < elements.length then some ⟨.array (elements.set place value)⟩ else none
  | _ => none

/-- `setString(int)`. -/
def setStringAt (d : JsonData ρ) (index : ℤ) (str : List UInt8) : Option (JsonData ρ) :=
  d.setAt index (.string str)

def set (d : JsonData ρ) (name : List UInt8) (value : Value ρ) : Option (JsonData ρ) :=
  d.json.members.bind fun members =>
    let members :=
      if hasMember members (cString name) = false then
        addMember members (cString name) (.string [])
      else members
    (assignMember (cString name) value members).map fun members => ⟨.object members⟩

def setString (d : JsonData ρ) (name str : List UInt8) : Option (JsonData ρ) :=
  d.set name (.string str)

/-- `setInt(int)`. -/
def setIntAt (d : JsonData ρ) (index value : ℤ) : Option (JsonData ρ) := d.setAt index (.int value)

def setInt (d : JsonData ρ) (name : List UInt8) (value : ℤ) : Option (JsonData ρ) :=
  d.set name (.int value)

/-! ## Members of an object -/

section Members

variable {members : List (Member ρ)} {name : List UInt8} {value : Value ρ}

theorem hasMember_eq_false_iff :
    hasMember members name = false ↔ name ∉ OrderedMap.keys members := by
  rw [hasMember, ← Bool.not_eq_true, OrderedMap.lookup_isSome_iff_mem]

theorem assignMember_eq (hmem : name ∈ OrderedMap.keys members) (value : Value ρ) :
    assignMember name value members = some (OrderedMap.assign name value members) := by
  induction members with
  | nil => cases hmem
  | cons member members ih =>
      rw [assignMember, OrderedMap.assign]
      by_cases heq : member.1 = name
      · rw [if_pos heq, if_pos (beq_iff_eq.mpr heq)]
      · rw [if_neg heq, if_neg (mt eq_of_beq heq)]
        rcases List.mem_cons.mp hmem with hname | hmem
        · exact absurd hname.symm heq
        · rw [ih hmem, Option.map_some]

theorem assignMember_addMember (hmem : name ∉ OrderedMap.keys members) (first value : Value ρ) :
    assignMember name value (addMember members name first) = some (members ++ [(name, value)]) := by
  induction members with
  | nil => exact if_pos rfl
  | cons member members ih =>
      rw [OrderedMap.keys_cons, List.mem_cons, not_or] at hmem
      rw [addMember, List.cons_append, assignMember, if_neg (Ne.symm hmem.1)]
      exact congrArg (Option.map (member :: ·)) (ih hmem.2)

/-- A set by name on an object is a set in an insertion-ordered map. -/
theorem set_object (members : List (Member ρ)) (name : List UInt8) (value : Value ρ) :
    set ⟨.object members⟩ name value =
      some ⟨.object (OrderedMap.set (cString name) value members)⟩ := by
  simp only [set, Document.members, Option.bind_some, OrderedMap.set]
  by_cases hmem : cString name ∈ OrderedMap.keys members
  · rw [if_pos hmem, if_neg fun hnone => hasMember_eq_false_iff.mp hnone hmem,
      assignMember_eq hmem, Option.map_some]
  · rw [if_neg hmem, if_pos (hasMember_eq_false_iff.mpr hmem), assignMember_addMember hmem,
      Option.map_some]

/-- The walk comes to the member at the index. -/
theorem walk_eq {β : Type*} (read : Member ρ → Option β) (atEnd : β) (members : List (Member ρ))
    (i : ℤ) (k : ℕ) :
    walk (i + k) read atEnd i members =
      match members[k]? with
      | some member => read member
      | none => some atEnd := by
  induction members generalizing i k with
  | nil => rfl
  | cons member members ih =>
      rw [walk]
      cases k with
      | zero => simp
      | succ k =>
          have hnext : i + ((k + 1 : ℕ) : ℤ) = i + 1 + k := by
            push_cast
            ring
          rw [if_neg (by omega), hnext, ih (i + 1) k, List.getElem?_cons_succ]

theorem walk_member {β : Type*} {i : ℕ} {member : Member ρ} (h : members[i]? = some member)
    (read : Member ρ → Option β) (atEnd : β) : walk i read atEnd 0 members = read member := by
  have hwalk := walk_eq read atEnd members 0 i
  rw [zero_add, h] at hwalk
  exact hwalk

theorem size_object (members : List (Member ρ)) :
    size ⟨.object members⟩ = some (toInt members.length) := rfl

/-- What the functions with an index read of an object. -/
theorem getName_object {i : ℕ} {member : Member ρ} (h : members[i]? = some member) :
    getName ⟨.object members⟩ i = some (cString member.1) := walk_member h _ []

theorem getStringAt_object {i : ℕ} {member : Member ρ} (h : members[i]? = some member) :
    getStringAt ⟨.object members⟩ i = member.2.getString := walk_member h _ []

theorem getIntAt_object {i : ℕ} {member : Member ρ} (h : members[i]? = some member) :
    getIntAt ⟨.object members⟩ i = member.2.getInt := walk_member h _ 0

end Members

/-! ## Sequences of sets -/

/-- A string without NUL. -/
abbrev Text := {s : List UInt8 // 0 ∉ s}

theorem cString_text (s : Text) : cString s = s := by
  rw [cString, List.takeWhile_eq_self_iff]
  intro c hc
  simp only [ne_eq, decide_eq_true_eq]
  exact fun heq => s.2 (heq ▸ hc)

inductive Call
  | setString (name str : Text)
  | setInt (name : Text) (value : ℤ)

namespace Call

def name : Call → Text
  | setString name _ => name
  | setInt name _ => name

def value : Call → Value ρ
  | setString _ str => .string str
  | setInt _ value => .int value

/-- What a call sets, and under which name. -/
def member (c : Call) : Member ρ := (c.name, c.value)

end Call

def call (d : JsonData ρ) : Call → Option (JsonData ρ)
  | .setString name str => d.setString name str
  | .setInt name value => d.setInt name value

/-- An object with distinct keys. -/
structure Object (ρ : Type*) where
  members : List (Member ρ)
  distinct : (OrderedMap.keys members).Nodup

/-- The names of the document and the names set, in the order in which they came first. -/
def names (o : Object ρ) (calls : List Call) : List (List UInt8) :=
  (calls.map fun c => (c.name : List UInt8)).foldl OrderedMap.addKey (OrderedMap.keys o.members)

def lastCall (calls : List Call) (name : List UInt8) : Option Call :=
  calls.reverse.find? fun c => (c.name : List UInt8) = name

/-- The value set last under a name, or the one of the document. -/
def current (o : Object ρ) (calls : List Call) (name : List UInt8) : Option (Value ρ) :=
  ((lastCall calls name).map Call.value).or (o.members.lookup name)

/-- The calls are made on the document in turn. -/
def machine (o : Object ρ) : Machine (JsonData ρ) Call := ⟨⟨.object o.members⟩, call⟩

theorem call_object (members : List (Member ρ)) (c : Call) :
    call ⟨.object members⟩ c =
      some ⟨.object (OrderedMap.set (c.name : List UInt8) c.value members)⟩ := by
  cases c with
  | setString name str =>
      have hset := set_object members name (.string str)
      rw [cString_text] at hset
      exact hset
  | setInt name value =>
      have hset := set_object members name (.int value)
      rw [cString_text] at hset
      exact hset

/-- What a sequence of calls leaves. -/
theorem run_eq (o : Object ρ) (calls : List Call) :
    (machine o).run calls =
      some ⟨.object (OrderedMap.setAll (calls.map Call.member) o.members)⟩ := by
  induction calls using List.reverseRecOn with
  | nil => rfl
  | append_singleton calls c ih =>
      rw [Machine.run_concat, ih, Option.bind_some, List.map_append, OrderedMap.setAll_append]
      exact call_object _ c

variable {o : Object ρ} {calls : List Call}

theorem keys_run (o : Object ρ) (calls : List Call) :
    OrderedMap.keys (OrderedMap.setAll (calls.map Call.member) o.members) = names o calls := by
  have hnames : OrderedMap.keys (calls.map (Call.member : Call → Member ρ)) =
      calls.map (·.name.1) := List.map_map ..
  rw [OrderedMap.keys_setAll, hnames]
  rfl

theorem lookup_members (calls : List Call) (n : List UInt8) :
    (calls.map Call.member).lookup n =
      (calls.find? fun c => (c.name : List UInt8) = n).map (Call.value : Call → Value ρ) := by
  induction calls with
  | nil => rfl
  | cons c calls ih =>
      rw [List.map_cons, List.lookup_cons, List.find?_cons]
      by_cases heq : (c.name : List UInt8) = n
      · simp [Call.member, heq]
      · have hne : (n == (c.member : Member ρ).1) = false := beq_false_of_ne (Ne.symm heq)
        rw [hne, decide_eq_false heq]
        exact ih

theorem lookup_run (o : Object ρ) (calls : List Call) (n : List UInt8) :
    (OrderedMap.setAll (calls.map Call.member) o.members).lookup n = current o calls n := by
  rw [OrderedMap.lookup_setAll, ← List.map_reverse, lookup_members]
  rfl

/-- What clients see of an insertion-ordered map after the calls. -/
structure IsOrderedMap (o : Object ρ) (calls : List Call) (d : JsonData ρ) : Prop where
  size : d.size = some ((names o calls).length : ℤ)
  getString : ∀ n str, lastCall calls n.1 = some (.setString n str) → d.getString n = some str.1
  getInt : ∀ n v, lastCall calls n.1 = some (.setInt n v) → d.getInt n = some v
  frame : ∀ c d', d.call c = some d' → ∀ n : Text, n ≠ c.name →
    d'.getString n = d.getString n ∧ d'.getInt n = d.getInt n
  enumerates : ∀ (i : ℕ) (n : List UInt8), (names o calls)[i]? = some n →
    ∃ v, current o calls n = some v ∧ d.getName i = some (cString n) ∧
      d.getStringAt i = v.getString ∧ d.getIntAt i = v.getInt

theorem getString_object (members : List (Member ρ)) (n : Text) :
    getString ⟨.object members⟩ n = (members.lookup n.1).bind Value.getString := by
  rw [getString, cString_text]
  rfl

theorem getInt_object (members : List (Member ρ)) (n : Text) :
    getInt ⟨.object members⟩ n = (members.lookup n.1).bind Value.getInt := by
  rw [getInt, cString_text]
  rfl

theorem current_of_lastCall {n : List UInt8} {c : Call} (h : lastCall calls n = some c) :
    current o calls n = some c.value := by
  rw [current, h]
  rfl

/-- A call changes nothing under another name. -/
theorem frame_object (members : List (Member ρ)) {c : Call} {d' : JsonData ρ}
    (hcall : call ⟨.object members⟩ c = some d') {n : Text} (hne : n ≠ c.name) :
    d'.getString n = getString ⟨.object members⟩ n ∧
      d'.getInt n = getInt ⟨.object members⟩ n := by
  obtain rfl := Option.some.inj ((call_object members c).symm.trans hcall)
  have hlookup := OrderedMap.lookup_set_of_ne (fun heq => hne (Subtype.ext heq)) c.value members
  rw [getString_object, getString_object, getInt_object, getInt_object, hlookup]
  exact ⟨rfl, rfl⟩

/-- What stands at the place of a name. -/
theorem member_run {i : ℕ} {n : List UInt8} (hn : (names o calls)[i]? = some n) :
    ∃ v, current o calls n = some v ∧
      (OrderedMap.setAll (calls.map Call.member) o.members)[i]? = some (n, v) := by
  rw [← keys_run] at hn
  have hmem : n ∈ OrderedMap.keys (OrderedMap.setAll (calls.map Call.member) o.members) :=
    List.mem_of_getElem? hn
  obtain ⟨v, hv⟩ := Option.isSome_iff_exists.mp (OrderedMap.lookup_isSome_iff_mem.mpr hmem)
  have hnodup := OrderedMap.nodup_setAll (calls.map Call.member) o.distinct
  exact ⟨v, (lookup_run o calls n).symm.trans hv, OrderedMap.getElem?_eq_of_lookup hnodup hn hv⟩

/-- The calls succeed, and the document is an insertion-ordered map exactly as long as an `int`
counts its names. -/
theorem ordered_map_iff (o : Object ρ) (calls : List Call) :
    ∃ d, (machine o).run calls = some d ∧
      (IsOrderedMap o calls d ↔ (names o calls).length < 2 ^ 31) := by
  refine ⟨_, run_eq o calls, ?_⟩
  have hlength : (OrderedMap.setAll (calls.map Call.member) o.members).length =
      (names o calls).length := by
    rw [← keys_run]
    exact (List.length_map ..).symm
  constructor
  · intro h
    have hsize := h.size
    rw [size_object, hlength, Option.some.injEq] at hsize
    have hlt := toInt_lt (names o calls).length
    omega
  · intro hlt
    refine ⟨?_, ?_, ?_, fun c d' hcall n hne => frame_object _ hcall hne, ?_⟩
    · rw [size_object, hlength, toInt_of_lt (by omega) (by omega)]
    · intro n str hlast
      rw [getString_object, lookup_run, current_of_lastCall hlast, Option.bind_some]
      exact congrArg some (cString_text str)
    · intro n v hlast
      rw [getInt_object, lookup_run, current_of_lastCall hlast]
      rfl
    · intro i n hn
      obtain ⟨v, hv, hmember⟩ := member_run hn
      exact ⟨v, hv, getName_object hmember, getStringAt_object hmember, getIntAt_object hmember⟩

/-- The lowest 31 bits of a number as letters. -/
def letters (n : ℕ) : List UInt8 :=
  (List.range 31).map fun bit => if n.testBit bit then 98 else 97

theorem letters_injOn {m n : ℕ} (hm : m < 2 ^ 31) (hn : n < 2 ^ 31) (h : letters m = letters n) :
    m = n := by
  apply Nat.eq_of_testBit_eq
  intro bit
  by_cases hbit : bit < 31
  · have hletter := List.map_inj_left.mp h bit (List.mem_range.mpr hbit)
    cases hmbit : m.testBit bit <;> cases hnbit : n.testBit bit <;> simp_all
  · have hle : 2 ^ 31 ≤ 2 ^ bit := Nat.pow_le_pow_right (by norm_num) (by omega)
    rw [Nat.testBit_lt_two_pow (hm.trans_le hle), Nat.testBit_lt_two_pow (hn.trans_le hle)]

/-- An object with one member more than an `int` counts. -/
def manyMembers : Object Unit where
  members := (List.range (2 ^ 31)).map fun n => (letters n, .int 0)
  distinct := by
    rw [OrderedMap.keys, List.map_map]
    exact List.nodup_range.map_on fun m hm n hn h =>
      letters_injOn (List.mem_range.mp hm) (List.mem_range.mp hn) h

theorem length_manyMembers : manyMembers.members.length = 2 ^ 31 := by
  rw [manyMembers, List.length_map, List.length_range]

/-- Before any call the names are those of the document. -/
theorem size_start {d : JsonData ρ} (hrun : (machine o).run [] = some d)
    (h : IsOrderedMap o [] d) : toInt o.members.length = o.members.length := by
  rw [Machine.run_nil, Option.some.injEq] at hrun
  subst hrun
  have hnames : (names o []).length = o.members.length := List.length_map ..
  have hsize := h.size
  rw [hnames] at hsize
  exact Option.some.inj hsize

/-- `size()` of that object is `-2 ^ 31`. -/
theorem not_ordered_map_manyMembers :
    ¬ ∀ d, (machine manyMembers).run [] = some d → IsOrderedMap manyMembers [] d := by
  intro h
  have hsize := size_start (Machine.run_nil) (h _ Machine.run_nil)
  rw [length_manyMembers] at hsize
  exact absurd hsize (by decide)

/-! ## Sets by index -/

/-- A set by index that succeeds, is read back at its index, and leaves all names and the other
members. -/
def SetsAt (d : JsonData ρ) (index : ℤ) (isSet : JsonData ρ → Prop) (set : Option (JsonData ρ)) :
    Prop :=
  ∃ d', set = some d' ∧ isSet d' ∧ ∀ j, d'.getName j = d.getName j ∧
    (j ≠ index → d'.getStringAt j = d.getStringAt j ∧ d'.getIntAt j = d.getIntAt j)

/-- An object is no array, and no set by index gets past the assertion. -/
theorem not_setsAt_object (members : List (Member ρ)) (index : ℤ) (str : List UInt8) (v : ℤ) :
    let d : JsonData ρ := ⟨.object members⟩
    ¬ SetsAt d index (fun d' => d'.getStringAt index = some str) (d.setStringAt index str) ∧
      ¬ SetsAt d index (fun d' => d'.getIntAt index = some v) (d.setIntAt index v) := by
  constructor
  · intro ⟨d', hset, _⟩
    cases hset
  · intro ⟨d', hset, _⟩
    cases hset

/-- `{"a": 1}` and `setString(0, "x")`. -/
theorem not_setsAt_one_member :
    ¬ SetsAt (⟨.object [([97], .int 1)]⟩ : JsonData Unit) 0
      (fun d' => d'.getStringAt 0 = some [120])
      (setStringAt ⟨.object [([97], .int 1)]⟩ 0 [120]) := by
  intro ⟨d', hset, _⟩
  cases hset

end JsonData

end RyuLib
