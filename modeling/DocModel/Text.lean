namespace DocModel.Text

/-- The code points with the Unicode property White_Space, as closed ranges. -/
def blankRanges : List (Nat × Nat) :=
  [(0x09, 0x0D), (0x20, 0x20), (0x85, 0x85), (0xA0, 0xA0), (0x1680, 0x1680), (0x2000, 0x200A),
    (0x2028, 0x2029), (0x202F, 0x202F), (0x205F, 0x205F), (0x3000, 0x3000)]

def isBlank (c : Char) : Bool :=
  blankRanges.any fun (low, high) => decide (low ≤ c.toNat) && decide (c.toNat ≤ high)

def dropBlanks (text : List Char) : List Char := text.dropWhile isBlank

/-- The text without the white space at either end. -/
def trim (text : List Char) : List Char := (dropBlanks (dropBlanks text).reverse).reverse

/-- A problem at a byte offset of a text. -/
structure Located (π : Type) where
  problem : π
  offset : Nat
deriving DecidableEq

/-- The line, counted from one, and the byte column of an offset. -/
def lineColumn (text : List Char) (offset : Nat) : Nat × Nat := go text offset 1 0
where
  go : List Char → Nat → Nat → Nat → Nat × Nat
    | [], left, line, column => (line, column + left)
    | c :: rest, left, line, column =>
      if left < c.utf8Size then (line, column + left)
      else if c = '\n' then go rest (left - 1) (line + 1) 0
      else go rest (left - c.utf8Size) line (column + c.utf8Size)

def byteLength (text : List Char) : Nat := text.foldl (fun length c => length + c.utf8Size) 0

def Located.message {π : Type} (render : π → String) (text : List Char)
    (fault : Located π) : String :=
  let (line, column) := lineColumn text fault.offset
  s!"{render fault.problem} at line {line} column {column}"

end DocModel.Text
