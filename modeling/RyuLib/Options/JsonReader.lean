import Mathlib.Data.List.Basic
import Mathlib.Tactic

/-!
# JsonReader and StartOption

The getters read a member with the `operator[]` that inserts: on a document without the
member it puts a null there, and it makes an object of a null document.  So a getter
changes the document, but only by members that no getter can tell from missing ones.

* `Json.index_found`: what `operator[]` changes.
* `reads_loaded`: after a load every getter answers from what was loaded.

nlohmann's parser and conversions are parameters, and of the conversions it is known that
they refuse a null.
-/

namespace RyuLib

/-- A value of `nlohmann::json`, with numbers in floating point from `δ`. -/
inductive Json (δ : Type)
  | null
  | boolean (b : Bool)
  | integer (n : ℤ)
  | unsigned (n : ℕ)
  | floating (x : δ)
  | string (s : String)
  | array (items : List (Json δ))
  | object (members : List (String × Json δ))

namespace Json

variable {δ : Type}

def isNull : Json δ → Bool
  | .null => true
  | _ => false

def isObject : Json δ → Bool
  | .object _ => true
  | _ => false

/-- The member of an object. -/
def member (name : String) : Json δ → Option (Json δ)
  | .object members => members.lookup name
  | _ => none

/-- `operator[]` of a value that is not const: the member and the value as it is then; `none`
is an exception. -/
def index (name : String) : Json δ → Option (Json δ × Json δ)
  | .null => some (.null, .object [(name, .null)])
  | .object members =>
      match members.lookup name with
      | some value => some (value, .object members)
      | none => some (.null, .object ((name, .null) :: members))
  | _ => none

/-- The member, unless it is null. -/
def found (name : String) (json : Json δ) : Option (Json δ) :=
  (json.member name).filter fun value => !value.isNull

theorem found_cons_null (name other : String) {members : List (String × Json δ)}
    (h : members.lookup name = none) :
    (object ((name, null) :: members)).found other = (object members).found other := by
  rcases eq_or_ne other name with rfl | hne
  · simp [found, member, h, isNull]
  · simp [found, member, List.lookup_cons, beq_false_of_ne hne]

/-- `operator[]` leaves all members that are not null. -/
theorem index_found {name : String} {json value json' : Json δ}
    (h : json.index name = some (value, json')) (other : String) :
    json'.found other = json.found other := by
  cases json with
  | null =>
      obtain ⟨-, rfl⟩ := Prod.mk.inj (Option.some.inj h)
      exact (found_cons_null name other rfl).trans rfl
  | object members =>
      simp only [index] at h
      split at h
      · obtain ⟨-, rfl⟩ := Prod.mk.inj (Option.some.inj h)
        rfl
      · rename_i hnone
        obtain ⟨-, rfl⟩ := Prod.mk.inj (Option.some.inj h)
        exact found_cons_null name other hnone
  | _ => cases h

/-- A conversion that refuses a null cannot tell it from a missing member. -/
theorem member_bind {β : Type*} {convert : Json δ → Option β} (hnull : convert null = none)
    (name : String) (json : Json δ) :
    (json.member name).bind convert = (json.found name).bind convert := by
  unfold found
  cases json.member name with
  | none => rfl
  | some value =>
      cases value with
      | null => exact hnull
      | _ => rfl

/-- The value that `operator[]` gives to a conversion. -/
theorem index_bind {β : Type*} {convert : Json δ → Option β} (hnull : convert null = none)
    (name : String) (json : Json δ) :
    ((json.index name).bind fun at' => convert at'.1) = (json.member name).bind convert := by
  cases json with
  | null => exact hnull
  | object members =>
      simp only [index, member]
      cases members.lookup name with
      | none => exact hnull
      | some value => rfl
  | _ => rfl

end Json

/-- `json::parse`, `AnsiToUTF8` and the conversions `get<int>`, `get<bool>`, `get<float>` and
`get<string>`; `none` is an exception. -/
structure JsonLibrary (δ φ : Type) where
  parse : String → Option (Json δ)
  ansiToUTF8 : String → String
  toInt : Json δ → Option ℤ
  toBool : Json δ → Option Bool
  toFloat : Json δ → Option φ
  toString : Json δ → Option String

/-- No conversion takes a null. -/
structure JsonLibrary.RefusesNull {δ φ : Type} (L : JsonLibrary δ φ) : Prop where
  toInt : L.toInt .null = none
  toBool : L.toBool .null = none
  toFloat : L.toFloat .null = none
  toString : L.toString .null = none

/-- The only field of the two classes, `json_`. -/
structure JsonReader (δ : Type) where
  json : Json δ := .null

abbrev StartOption := JsonReader

section

variable {δ φ : Type}

/-- A `try` around the assignment to `json_`, which is null if it fails. -/
def JsonReader.load (parsed : Option (Json δ)) : Bool × JsonReader δ :=
  match parsed with
  | some json => (true, ⟨json⟩)
  | none => (false, ⟨.null⟩)

/-- A `try` around the reading of a member: the value or the default, and the reader with what
`operator[]` has made of `json_`. -/
def JsonReader.get {β : Type*} (convert : Json δ → Option β) (r : JsonReader δ) (name : String)
    (defaultValue : β) : β × JsonReader δ :=
  match r.json.index name with
  | none => (defaultValue, r)
  | some (value, json) => ((convert value).getD defaultValue, ⟨json⟩)

variable (L : JsonLibrary δ φ)

namespace JsonReader

def loadText (_ : JsonReader δ) (option : String) : Bool × JsonReader δ := load (L.parse option)

def loadAnsiText (_ : JsonReader δ) (option : String) : Bool × JsonReader δ :=
  load (L.parse (L.ansiToUTF8 option))

def getInt (r : JsonReader δ) (name : String) (defaultValue : ℤ) : ℤ × JsonReader δ :=
  r.get L.toInt name defaultValue

def getBool (r : JsonReader δ) (name : String) (defaultValue : Bool) : Bool × JsonReader δ :=
  r.get L.toBool name defaultValue

def getFloat (r : JsonReader δ) (name : String) (defaultValue : φ) : φ × JsonReader δ :=
  r.get L.toFloat name defaultValue

def getString (r : JsonReader δ) (name defaultValue : String) : String × JsonReader δ :=
  r.get L.toString name defaultValue

end JsonReader

/-- The getters of `StartOption` are those of `JsonReader`, word for word. -/
def StartOption.parseJson (_ : StartOption δ) (option : String) : Bool × StartOption δ :=
  JsonReader.load (L.parse (L.ansiToUTF8 option))

end

/-! ## Calls -/

/-- A call of a getter with its name and default. -/
inductive GetCall (φ : Type)
  | getInt (name : String) (defaultValue : ℤ)
  | getBool (name : String) (defaultValue : Bool)
  | getFloat (name : String) (defaultValue : φ)
  | getString (name defaultValue : String)

/-- What the getters return. -/
inductive GetValue (φ : Type)
  | int (value : ℤ)
  | bool (value : Bool)
  | float (value : φ)
  | string (value : String)

namespace GetCall

variable {δ φ : Type}

def name : GetCall φ → String
  | .getInt name _ | .getBool name _ | .getFloat name _ | .getString name _ => name

def defaultValue : GetCall φ → GetValue φ
  | .getInt _ value => .int value
  | .getBool _ value => .bool value
  | .getFloat _ value => .float value
  | .getString _ value => .string value

variable (L : JsonLibrary δ φ)

def call : GetCall φ → JsonReader δ → GetValue φ × JsonReader δ
  | .getInt name value, r => (r.getInt L name value).map .int id
  | .getBool name value, r => (r.getBool L name value).map .bool id
  | .getFloat name value, r => (r.getFloat L name value).map .float id
  | .getString name value, r => (r.getString L name value).map .string id

/-- The conversion that the call wants. -/
def convert : GetCall φ → Json δ → Option (GetValue φ)
  | .getInt _ _, json => (L.toInt json).map .int
  | .getBool _ _, json => (L.toBool json).map .bool
  | .getFloat _ _, json => (L.toFloat json).map .float
  | .getString _ _, json => (L.toString json).map .string

/-- What the call says about a document: the converted member, or the default. -/
def answer (c : GetCall φ) (document : Json δ) : GetValue φ :=
  ((document.member c.name).bind (c.convert L)).getD c.defaultValue

/-- The calls one after the other: what they return, and the reader after them. -/
def callAll : List (GetCall φ) → JsonReader δ → List (GetValue φ) × JsonReader δ
  | [], r => ([], r)
  | c :: calls, r =>
      let (value, r) := c.call L r
      let (values, r) := callAll calls r
      (value :: values, r)

variable {L}

theorem convert_null (hnull : L.RefusesNull) (c : GetCall φ) : c.convert L .null = none := by
  cases c with
  | getInt => simp [convert, hnull.toInt]
  | getBool => simp [convert, hnull.toBool]
  | getFloat => simp [convert, hnull.toFloat]
  | getString => simp [convert, hnull.toString]

/-- A `get` with a conversion, seen as one of `GetValue`s. -/
theorem get_map {β : Type} (toValue : β → GetValue φ) (toBeta : Json δ → Option β)
    (r : JsonReader δ) (name : String) (value : β) :
    ((r.get toBeta name value).map toValue id : GetValue φ × JsonReader δ) =
      r.get (fun json => (toBeta json).map toValue) name (toValue value) := by
  unfold JsonReader.get
  cases r.json.index name with
  | none => rfl
  | some at' =>
      obtain ⟨member, json⟩ := at'
      cases hvalue : toBeta member with
      | none => simp [hvalue]
      | some => simp [hvalue]

variable (L) in
theorem call_eq (c : GetCall φ) (r : JsonReader δ) :
    c.call L r = r.get (c.convert L) c.name c.defaultValue := by
  cases c with
  | getInt name value => exact get_map .int L.toInt r name value
  | getBool name value => exact get_map .bool L.toBool r name value
  | getFloat name value => exact get_map .float L.toFloat r name value
  | getString name value => exact get_map .string L.toString r name value

/-- A call answers from the members, and leaves those that are not null. -/
theorem call_spec (hnull : L.RefusesNull) (c : GetCall φ) (r : JsonReader δ) :
    (c.call L r).1 = c.answer L r.json ∧
      ∀ other, (c.call L r).2.json.found other = r.json.found other := by
  rw [call_eq]
  have hbind := Json.index_bind (convert_null hnull c) c.name r.json
  unfold JsonReader.get answer
  rw [← hbind]
  cases hindex : r.json.index c.name with
  | none => exact ⟨rfl, fun _ => rfl⟩
  | some at' => exact ⟨rfl, Json.index_found hindex⟩

/-- Documents that agree on what is not null give the same answers. -/
theorem answer_congr (hnull : L.RefusesNull) (c : GetCall φ) {json json' : Json δ}
    (h : ∀ name, json'.found name = json.found name) : c.answer L json' = c.answer L json := by
  unfold answer
  rw [Json.member_bind (convert_null hnull c), Json.member_bind (convert_null hnull c), h]

/-- Whatever the calls before have put into the document, a call answers from the document at
the beginning. -/
theorem callAll_eq (hnull : L.RefusesNull) (document : Json δ) (calls : List (GetCall φ))
    {r : JsonReader δ} (h : ∀ name, r.json.found name = document.found name) :
    (callAll L calls r).1 = calls.map fun c => c.answer L document := by
  induction calls generalizing r with
  | nil => rfl
  | cons c calls ih =>
      obtain ⟨hvalue, hfound⟩ := call_spec hnull c r
      have hrest := ih fun name => (hfound name).trans (h name)
      rw [callAll, List.map_cons, ← hrest, ← answer_congr hnull c h, ← hvalue]

theorem answer_of_missing {c : GetCall φ} {document : Json δ}
    (h : (document.member c.name).bind (c.convert L) = none) :
    c.answer L document = c.defaultValue := by
  rw [answer, h]
  rfl

end GetCall

/-! ## Loads -/

section

variable {δ φ : Type}

/-- The three functions that load a text, with the text that they parse. -/
inductive LoadCall
  | loadText (option : String)
  | loadAnsiText (option : String)
  | parseJson (option : String)

def LoadCall.parsed (L : JsonLibrary δ φ) : LoadCall → Option (Json δ)
  | .loadText option => L.parse option
  | .loadAnsiText option | .parseJson option => L.parse (L.ansiToUTF8 option)

def LoadCall.call (L : JsonLibrary δ φ) : LoadCall → JsonReader δ → Bool × JsonReader δ
  | .loadText option, r => r.loadText L option
  | .loadAnsiText option, r => r.loadAnsiText L option
  | .parseJson option, r => StartOption.parseJson L r option

/-- What the text holds, and null where it is not JSON. -/
def LoadCall.document (L : JsonLibrary δ φ) (load : LoadCall) : Json δ :=
  (load.parsed L).getD .null

theorem LoadCall.call_eq (L : JsonLibrary δ φ) (load : LoadCall) (r : JsonReader δ) :
    load.call L r = ((load.parsed L).isSome, ⟨load.document L⟩) := by
  have hload : load.call L r = JsonReader.load (load.parsed L) := by
    cases load <;> rfl
  rw [hload, LoadCall.document]
  cases load.parsed L <;> rfl

/-- After a load, on whatever reader, each of any calls of the getters answers from the text
that was loaded: with its default if the name is missing, the value is not convertible, the
document is not an object, or the load returned false. -/
theorem reads_loaded {L : JsonLibrary δ φ} (hnull : L.RefusesNull) (r : JsonReader δ)
    (load : LoadCall) (calls : List (GetCall φ)) :
    (GetCall.callAll L calls (load.call L r).2).1 =
        calls.map (fun c => c.answer L (load.document L)) ∧
      ∀ c ∈ calls,
        ((load.document L).member c.name = none → c.answer L (load.document L) = c.defaultValue) ∧
        (∀ value, (load.document L).member c.name = some value → c.convert L value = none →
          c.answer L (load.document L) = c.defaultValue) ∧
        ((load.document L).isObject = false → c.answer L (load.document L) = c.defaultValue) ∧
        ((load.call L r).1 = false → c.answer L (load.document L) = c.defaultValue) := by
  rw [LoadCall.call_eq]
  refine ⟨GetCall.callAll_eq hnull _ calls fun _ => rfl, ?_⟩
  intro c _
  have hother : (load.document L).isObject = false → (load.document L).member c.name = none := by
    intro hobject
    generalize load.document L = json at hobject
    cases json with
    | object => cases hobject
    | _ => rfl
  refine ⟨?_, ?_, ?_, ?_⟩
  · intro hmissing
    exact GetCall.answer_of_missing (by rw [hmissing]; rfl)
  · intro value hvalue hconvert
    exact GetCall.answer_of_missing (by rw [hvalue]; exact hconvert)
  · intro hobject
    exact GetCall.answer_of_missing (by rw [hother hobject]; rfl)
  · intro hfailed
    have hnone : load.parsed L = none := by
      rw [← Option.not_isSome_iff_eq_none, Bool.not_eq_true]
      exact hfailed
    have hdocument : load.document L = .null := by
      rw [LoadCall.document, hnone]
      rfl
    exact GetCall.answer_of_missing (by rw [hother (by rw [hdocument]; rfl)]; rfl)

/-- A library that knows one text, with the conversions between kinds of numbers. -/
def oneText : JsonLibrary ℚ ℚ where
  parse text :=
    if text = "\x7b\"fps\":30\x7d" then some (.object [("fps", .unsigned 30)]) else none
  ansiToUTF8 text := text
  toInt
    | .integer n => some n
    | .unsigned n => some n
    | .floating x => some (if 0 ≤ x then ⌊x⌋ else ⌈x⌉)
    | .boolean b => some b.toNat
    | _ => none
  toBool
    | .boolean b => some b
    | _ => none
  toFloat
    | .integer n => some n
    | .unsigned n => some n
    | .floating x => some x
    | .boolean b => some b.toNat
    | _ => none
  toString
    | .string s => some s
    | _ => none

/-- The name is missing for the first getter, and so it is for the second one. -/
theorem reads_loaded_twice :
    let load : LoadCall := .loadText "\x7b\"fps\":30\x7d"
    let calls : List (GetCall ℚ) :=
      [.getInt "width" 640, .getString "width" "none", .getFloat "fps" 25]
    (GetCall.callAll oneText calls (load.call oneText {}).2).1 =
        calls.map (fun c => c.answer oneText (load.document oneText)) ∧
      ∀ c ∈ calls,
        ((load.document oneText).member c.name = none →
          c.answer oneText (load.document oneText) = c.defaultValue) ∧
        (∀ value, (load.document oneText).member c.name = some value →
          c.convert oneText value = none →
          c.answer oneText (load.document oneText) = c.defaultValue) ∧
        ((load.document oneText).isObject = false →
          c.answer oneText (load.document oneText) = c.defaultValue) ∧
        ((load.call oneText {}).1 = false →
          c.answer oneText (load.document oneText) = c.defaultValue) :=
  reads_loaded ⟨rfl, rfl, rfl, rfl⟩ {} _ _

end

end RyuLib
