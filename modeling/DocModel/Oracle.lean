import DocModel.Binary64
import DocModel.Text

namespace DocModel

inductive OracleError
  | unavailable (reason : String)
  | timeout (milliseconds : Nat)
  | unknownModel (model : String)
deriving DecidableEq

def OracleError.message : OracleError → String
  | unavailable reason => s!"entity store unavailable: {reason}"
  | timeout milliseconds => s!"entity store lookup timed out after {milliseconds}ms"
  | unknownModel model => s!"unknown model: {model}"

/-- Answers which of some ids exist for a model. -/
abbrev Oracle := String → List Int → Except OracleError (List Int)

/-- The existing ids of each known model. -/
structure EntityStore where
  entities : List (String × List Int)

namespace EntityStore

def empty : EntityStore := ⟨[]⟩

/-- Makes the model known and adds ids to it. -/
def add (store : EntityStore) (model : String) (ids : List Int) : EntityStore :=
  if model ∈ store.entities.map (·.1) then
    ⟨store.entities.map fun (name, known) =>
      if name = model then (name, known ++ ids) else (name, known)⟩
  else ⟨store.entities ++ [(model, ids)]⟩

def has (store : EntityStore) (model : String) (id : Int) : Bool :=
  (store.entities.lookup model).any (·.contains id)

def remove (store : EntityStore) (model : String) (id : Int) : EntityStore :=
  ⟨store.entities.map fun (name, known) =>
    if name = model then (name, known.filter (· != id)) else (name, known)⟩

def oracle (store : EntityStore) : Oracle := fun model ids =>
  match store.entities.lookup model with
  | some known => .ok (ids.filter known.contains)
  | none => .error (.unknownModel model)

end EntityStore

/-- Reads a key as a signed 64-bit integer; white space around it and a sign are allowed. -/
def keyId? (key : String) : Option Int :=
  match Text.trim key.toList with
  | '-' :: digits => (magnitude? digits).bind fun n => Word.signed? (-n)
  | '+' :: digits => (magnitude? digits).bind fun n => Word.signed? n
  | digits => (magnitude? digits).bind fun n => Word.signed? n
where
  magnitude? (digits : List Char) : Option Nat :=
    if digits.isEmpty ∨ ¬ digits.all Char.isDigit then none
    else some (digits.foldl (fun value c => value * 10 + (c.toNat - '0'.toNat)) 0)

/-- Inserts into an ascending list without repetition. -/
def insertId (id : Int) : List Int → List Int
  | [] => [id]
  | first :: rest =>
    if id < first then id :: first :: rest
    else if id = first then first :: rest
    else first :: insertId id rest

/-- The ids that keys denote, ascending and without repetition. -/
def keyIds (keys : List String) : List Int := (keys.filterMap keyId?).foldr insertId []

end DocModel
