import DocModel.Binary64

namespace DocModel

/-- A JSON number: the integers of 64 bits, signed or not, are kept exact; all else is a float. -/
inductive Json.Number
  | int (value : Int)
  | float (value : Binary64)
deriving DecidableEq

/-- A JSON value; members stand in document order. -/
inductive Json
  | null
  | bool (value : Bool)
  | num (value : Json.Number)
  | str (value : String)
  | arr (items : List Json)
  | obj (members : List (String × Json))

abbrev Json.Members := List (String × Json)

namespace Json

instance : Inhabited Json := ⟨null⟩

mutual

def decEq (a b : Json) : Decidable (a = b) :=
  match a, b with
  | .null, .null => isTrue rfl
  | .bool x, .bool y => decidable_of_iff (x = y) (by simp)
  | .num x, .num y => decidable_of_iff (x = y) (by simp)
  | .str x, .str y => decidable_of_iff (x = y) (by simp)
  | .arr xs, .arr ys => @decidable_of_iff _ (xs = ys) (by simp) (decEqItems xs ys)
  | .obj xs, .obj ys => @decidable_of_iff _ (xs = ys) (by simp) (decEqMembers xs ys)
  | .null, .bool _ | .null, .num _ | .null, .str _ | .null, .arr _ | .null, .obj _
  | .bool _, .null | .bool _, .num _ | .bool _, .str _ | .bool _, .arr _ | .bool _, .obj _
  | .num _, .null | .num _, .bool _ | .num _, .str _ | .num _, .arr _ | .num _, .obj _
  | .str _, .null | .str _, .bool _ | .str _, .num _ | .str _, .arr _ | .str _, .obj _
  | .arr _, .null | .arr _, .bool _ | .arr _, .num _ | .arr _, .str _ | .arr _, .obj _
  | .obj _, .null | .obj _, .bool _ | .obj _, .num _ | .obj _, .str _ | .obj _, .arr _ =>
    isFalse nofun
termination_by structural a

def decEqItems (xs ys : List Json) : Decidable (xs = ys) :=
  match xs, ys with
  | [], [] => isTrue rfl
  | x :: xs, y :: ys =>
    @decidable_of_iff _ (x = y ∧ xs = ys) (by simp)
      (@instDecidableAnd _ _ (decEq x y) (decEqItems xs ys))
  | [], _ :: _ | _ :: _, [] => isFalse nofun
termination_by structural xs

def decEqMembers (xs ys : Members) : Decidable (xs = ys) :=
  match xs, ys with
  | [], [] => isTrue rfl
  | (k, x) :: xs, (l, y) :: ys =>
    @decidable_of_iff _ (k = l ∧ x = y ∧ xs = ys) (by simp [and_assoc])
      (@instDecidableAnd _ _ _ (@instDecidableAnd _ _ (decEq x y) (decEqMembers xs ys)))
  | [], _ :: _ | _ :: _, [] => isFalse nofun
termination_by structural xs

end

instance : DecidableEq Json := decEq

namespace Members

def get? (members : Members) (key : String) : Option Json := members.lookup key

def keys (members : Members) : List String := members.map (·.1)

/-- Replaces the value of a key that is present. -/
def set (members : Members) (key : String) (value : Json) : Members :=
  members.map fun m => if m.1 = key then (key, value) else m

/-- Replaces the value where the key stands, or adds the member at the end. -/
def insert (members : Members) (key : String) (value : Json) : Members :=
  if key ∈ members.keys then members.set key value else members ++ [(key, value)]

def erase (members : Members) (key : String) : Members := members.filter (·.1 != key)

end Members

def isNull : Json → Bool
  | .null => true
  | _ => false

def isNumber : Json → Bool
  | .num _ => true
  | _ => false

/-- The name of a value's type in messages. -/
def typeName : Json → String
  | .null => "null"
  | .bool _ => "bool"
  | .num (.int _) => "int"
  | .num (.float _) => "float"
  | .str _ => "string"
  | .arr _ => "array"
  | .obj _ => "object"

def ofStrings (texts : List String) : Json := .arr (texts.map .str)

end Json

end DocModel
