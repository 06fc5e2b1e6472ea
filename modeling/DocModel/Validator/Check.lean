import DocModel.Json.Equality
import DocModel.Temporal
import DocModel.Validator
import DocModel.Violation

namespace DocModel

namespace Primitive

def admits : Primitive → Json → Bool
  | string, .str _ => true
  | int, .num (.int _) => true
  | float, .num _ | number, .num _ => true
  | bool, .bool _ => true
  | object, .obj _ | geoPoint, .obj _ => true
  | array, .arr _ => true
  | date, .str text => Temporal.isDate text.toList
  | dateTime, .str text => Temporal.isDateTime text.toList
  | time, .str text => Temporal.isTime text.toList
  | _, _ => false

/-- What a message calls a value that is not of the type: a text where a time is due is quoted. -/
def describe : Primitive → Json → String
  | date, .str text | dateTime, .str text | time, .str text => s!"'{text}'"
  | _, value => value.typeName

end Primitive

/-- The members that a point keeps. -/
def pointKeys : List String := ["lat", "lng", "text"]

def checkCoordinate (name : String) (value : Json) : Except Problem Unit :=
  if value.isNumber then .ok () else .error (.coordinate name value.typeName)

def checkPointText : Option Json → Except Problem Unit
  | none | some (.str _) | some .null => .ok ()
  | some value => .error (.pointText value.typeName)

/-- A point has numeric coordinates and perhaps a text; its other members are dropped. -/
def trimPoint (members : Json.Members) : Except Problem Json.Members :=
  match members.get? "lat", members.get? "lng" with
  | some lat, some lng => do
    checkCoordinate "lat" lat
    checkCoordinate "lng" lng
    checkPointText (members.get? "text")
    return members.filter fun member => pointKeys.contains member.1
  | _, _ => .error .incompletePoint

def checkPoint : Json → Except Problem Json
  | .obj members => (trimPoint members).map .obj
  | value => .error (.mismatch Primitive.geoPoint.name value.typeName)

def Bound.holds (bound : Bound) (value limit : Binary64) : Bool :=
  match bound with
  | .min => decide (limit ≤ value)
  | .max => decide (value ≤ limit)

namespace Check

def outOfRange (bound : Bound) (value : Json) (limit : Binary64) : Problem :=
  match bound with
  | .min => .belowMin value limit
  | .max => .aboveMax value limit

def badLength (bound : Bound) (limit : Binary64) : Problem :=
  match bound with
  | .min => .tooShort limit
  | .max => .tooLong limit

/-- The length of a text in characters. -/
def textLength : Json → Nat
  | .str text => text.length
  | _ => 0

def isChosen (allowed : List Json) (eachElement : Bool) (value : Json) : Bool :=
  if eachElement then
    match value with
    | .arr items => items.all (·.isAmong allowed)
    | value => value.isNull
  else value.isAmong allowed

/-- The value after the test; only a point is changed by it. -/
def apply (check : Check) (value : Json) : Except Problem Json :=
  match check with
  | type .geoPoint => checkPoint value
  | type expected =>
    if expected.admits value then .ok value
    else .error (.mismatch expected.name (expected.describe value))
  | range bound limit =>
    match value with
    | .num n =>
      if bound.holds n.toBinary64 limit then .ok value else .error (outOfRange bound value limit)
    | value => .error (.mismatch "number" value.typeName)
  | length bound limit =>
    if bound.holds (.ofInt (textLength value)) limit then .ok value
    else .error (badLength bound limit)
  | choice allowed eachElement =>
    if isChosen allowed eachElement value then .ok value else .error (.notAChoice allowed)

/-- Runs the tests in order; the first problem stops. -/
def applyAll (checks : List Check) (value : Json) : Except Problem Json :=
  checks.foldlM (fun value check => check.apply value) value

end Check

abbrev Checked (α : Type) := Except (List Violation) α

namespace Embedding

/-- Checks a list of documents; the first failing one stops. -/
def checkItems (document : Location → Json → Checked Json) (location : Location) (index : Nat) :
    List Json → Checked (List Json)
  | [] => .ok []
  | item :: items => do
    let item ← document (location ++ [.index index]) item
    return item :: (← checkItems document location (index + 1) items)

/-- Checks every document of a map and reports all failing entries. -/
def checkEntries (document : Location → Json → Checked Json) (location : Location) :
    Json.Members → Checked Json.Members
  | [] => .ok []
  | (key, entry) :: entries =>
    match document (location ++ [.key key]) entry, checkEntries document location entries with
    | .ok entry, .ok entries => .ok ((key, entry) :: entries)
    | .ok _, .error violations => .error violations
    | .error violations, .ok _ => .error (violations.map (.inEntry key))
    | .error violations, .error others => .error (violations.map (.inEntry key) ++ others)

/-- Checks the documents that a field holds; where a list is due, a single document may stand. -/
def check (document : Location → Json → Checked Json) (embedding : Embedding) (location : Location)
    (value : Json) : Checked Json :=
  match embedding, value with
  | one, .obj _ => document location value
  | many, .arr items => (checkItems document location 0 items).map .arr
  | many, .obj _ => document location value
  | many, value => .error [⟨location, .mismatch "array" value.typeName⟩]
  | keyed _, .obj entries => (checkEntries document location entries).map .obj
  | one, value | keyed _, value => .error [⟨location, .mismatch "object" value.typeName⟩]

end Embedding

/-- Puts the checked value of a field into a document: the given value, or else the default. A field
without either is missing if it is required. -/
def FieldHead.fill (head : FieldHead) (check : Json → Checked Json) (location : Location)
    (members : Json.Members) : Checked Json.Members :=
  match members.get? head.name with
  | some value => (check value).map (members.set head.name)
  | none =>
    match head.default with
    | some value => (check value).map fun value => members ++ [(head.name, value)]
    | none => if head.required then .error [⟨location, .missingKey⟩] else .ok members

mutual

/-- Checks a document against the rules of its type and fills in defaults. -/
def Validator.check (validator : Validator) (location : Location) (document : Json) :
    Checked Json :=
  match validator with
  | .mk _ rejectsUnknown rules =>
    match document with
    | .obj members => do
      let members ← checkRules rules location members
      let known := rules.map FieldRule.name
      match if rejectsUnknown then members.keys.find? (!known.contains ·) else none with
      | some key => throw [⟨location ++ [.key key], .wrongKey⟩]
      | none => return .obj members
    | value =>
      let place := if location.render.isEmpty then Location.root else location
      .error [⟨place, .mismatch "object" value.typeName⟩]
termination_by structural validator

/-- Checks the value of a field; `null` passes unless the field is required. -/
def FieldRule.check (rule : FieldRule) (location : Location) (value : Json) : Checked Json :=
  match rule with
  | .value head checks =>
    if value.isNull && !head.required then .ok value
    else (Check.applyAll checks value).mapError fun problem => [⟨location, problem⟩]
  | .embedded head embedding nested =>
    if value.isNull && !head.required then .ok value
    else embedding.check (fun location document => nested.check location document) location value
termination_by structural rule

/-- Takes the fields in declared order; the first failing one stops. -/
def checkRules (rules : List FieldRule) (location : Location) (members : Json.Members) :
    Checked Json.Members :=
  match rules with
  | [] => .ok members
  | rule :: rules => do
    let place := location ++ [.key rule.name]
    let members ← rule.head.fill (fun value => rule.check place value) place members
    checkRules rules location members
termination_by structural rules

end

end DocModel
