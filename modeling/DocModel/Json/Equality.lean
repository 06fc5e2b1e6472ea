import DocModel.Json

namespace DocModel.Json

namespace Number

def toBinary64 : Number → Binary64
  | .int n => .ofInt n
  | .float x => x

/-- The number as a signed 64-bit integer. -/
def signed? : Number → Option Int
  | .int n => Word.signed? n
  | .float _ => none

/-- Equality within one form: an integer never equals a float. -/
def same : Number → Number → Bool
  | .int m, .int n => m == n
  | .float x, .float y => x.sameValue y
  | _, _ => false

/-- Equality across forms: exact between signed integers, as floats otherwise. -/
def alike (m n : Number) : Bool :=
  match m.signed?, n.signed? with
  | some x, some y => x == y
  | _, _ => m.toBinary64.sameValue n.toBinary64

end Number

mutual

/-- Equality of documents, in which member order is of no account. -/
def same (a b : Json) : Bool :=
  match a, b with
  | .null, .null => true
  | .bool x, .bool y => x == y
  | .num x, .num y => x.same y
  | .str x, .str y => x == y
  | .arr xs, .arr ys => sameItems xs ys
  | .obj xs, .obj ys => xs.length == ys.length && sameMembers xs ys
  | _, _ => false
termination_by structural a

def sameItems (xs ys : List Json) : Bool :=
  match xs, ys with
  | [], [] => true
  | x :: xs, y :: ys => same x y && sameItems xs ys
  | _, _ => false
termination_by structural xs

/-- Every member of `xs` stands in `ys` with the same value. -/
def sameMembers (xs ys : Members) : Bool :=
  match xs with
  | [] => true
  | (key, x) :: xs => (ys.get? key).any (same x) && sameMembers xs ys
termination_by structural xs

end

mutual

/-- Equality in which numbers count by value, so that `1` is like `1.0`; it reaches into lists but
not into objects. -/
def alike (a b : Json) : Bool :=
  match a, b with
  | .num x, .num y => x.alike y
  | .arr xs, .arr ys => alikeItems xs ys
  | a, b => same a b
termination_by structural a

def alikeItems (xs ys : List Json) : Bool :=
  match xs, ys with
  | [], [] => true
  | x :: xs, y :: ys => alike x y && alikeItems xs ys
  | _, _ => false
termination_by structural xs

end

/-- Whether the list holds a value like the given one. -/
def isAmong (value : Json) (list : List Json) : Bool := list.any (alike · value)

end DocModel.Json
