import DocModel.Json.Printer
import DocModel.Proofs.Json.Members

namespace DocModel

/-- The characters that numbers are written with. -/
def isNumeral (c : Char) : Bool := c.isDigit || c == '-' || c == '+' || c == '.' || c == 'e'

/-- The text is made of such characters. -/
def Numeric (text : String) : Prop := ∀ c ∈ text.toList, isNumeral c

instance (text : String) : Decidable (Numeric text) :=
  List.decidableBAll (isNumeral · = true) text.toList

namespace Numeric

variable {first second : String}

theorem append (h : Numeric first) (h' : Numeric second) : Numeric (first ++ second) := by
  intro c mem
  rw [String.toList_append, List.mem_append] at mem
  exact mem.elim (h c) (h' c)

theorem ite {condition : Prop} [Decidable condition] (h : Numeric first) (h' : Numeric second) :
    Numeric (if condition then first else second) := by
  split
  · exact h
  · exact h'

theorem ofList {characters : List Char} (h : ∀ c ∈ characters, isNumeral c) :
    Numeric (String.ofList characters) := by
  rwa [Numeric, String.toList_ofList]

end Numeric

theorem isNumeral_of_mem_toDigits {n : Nat} {c : Char} (mem : c ∈ Nat.toDigits 10 n) :
    isNumeral c := by
  simp [isNumeral, Nat.isDigit_of_mem_toDigits (by decide) (by decide) mem]

theorem numeric_repr (n : Nat) : Numeric n.repr := by
  intro c mem
  rw [Nat.toList_repr] at mem
  exact isNumeral_of_mem_toDigits mem

theorem numeric_toString (n : Int) : Numeric (toString n) := by
  cases n with
  | ofNat n => exact numeric_repr n
  | negSucc n => exact Numeric.append (by decide) (numeric_repr (n + 1))

namespace Decimal

variable {d : Decimal}

theorem isNumeral_digits {c : Char} (mem : c ∈ d.digits) : isNumeral c :=
  isNumeral_of_mem_toDigits mem

theorem isNumeral_replicate {count : Nat} {c : Char} (mem : c ∈ List.replicate count '0') :
    isNumeral c := by
  rw [List.eq_of_mem_replicate mem]
  decide

theorem isNumeral_positional (d : Decimal) :
    (∀ c ∈ d.positional.1, isNumeral c) ∧ ∀ c ∈ d.positional.2, isNumeral c := by
  rw [positional]
  split
  · refine ⟨List.forall_mem_singleton.2 rfl, fun c mem => ?_⟩
    exact (List.mem_append.1 mem).elim isNumeral_replicate isNumeral_digits
  · refine ⟨fun c mem => ?_, fun c mem => isNumeral_digits (List.mem_of_mem_drop mem)⟩
    exact (List.mem_append.1 mem).elim (fun mem => isNumeral_digits (List.mem_of_mem_take mem))
      isNumeral_replicate

end Decimal

namespace Binary64

theorem numeric_digitsText {layout : Layout} (whole : Numeric layout.wholeMark) (d : Decimal) :
    Numeric (digitsText layout d) := by
  obtain ⟨before, behind⟩ := d.isNumeral_positional
  have point : Numeric "." := by decide
  have digits : ∀ characters : List Char, characters ⊆ d.digits →
      Numeric (String.ofList characters) :=
    fun _ subset => .ofList fun c mem => Decimal.isNumeral_digits (subset mem)
  rw [digitsText]
  split
  · dsimp only
    split
    · exact (Numeric.ofList before).append whole
    · exact ((Numeric.ofList before).append point).append (.ofList behind)
  · have fraction := digits _ (List.drop_subset 1 d.digits)
    have leading := digits _ (List.take_subset 1 d.digits)
    have exponent : Numeric (toString d.scale.natAbs) := numeric_repr _
    exact (((leading.append (.ite (by decide) (point.append fraction))).append
      (by decide)).append (.ite (by decide) (by decide))).append exponent

theorem numeric_text {layout : Layout} (whole : Numeric layout.wholeMark) (x : Binary64) :
    Numeric (x.text layout) := by
  have magnitude : Numeric (if x.units = 0 then "0" ++ layout.wholeMark
      else digitsText layout (shortest layout.tie x.units)) :=
    .ite (Numeric.append (by decide) whole) (numeric_digitsText whole _)
  exact .ite (Numeric.append (by decide) magnitude) magnitude

end Binary64

theorem ne_of_isNumeral {c other : Char} (h : isNumeral c) (apart : isNumeral other = false) :
    c ≠ other := by
  rintro rfl
  rw [h] at apart
  cases apart

namespace Json

theorem Number.numeric_render (n : Number) : Numeric n.render := by
  cases n with
  | int n => exact numeric_toString n
  | float x => exact x.numeric_text (by decide)

theorem hexDigit_ne_newline {n : Nat} (h : n < 16) : hexDigit n ≠ '\n' := by
  have all : ∀ n < 16, hexDigit n ≠ '\n' := by decide
  exact all n h

/-- A character stands for itself, or for it stands a backslash with something behind that breaks no
line. -/
theorem escape_cases (c : Char) :
    (escape c = [c] ∧ c ≠ '"' ∧ c ≠ '\\' ∧ c ≠ '\n') ∨
      ∃ rest, escape c = '\\' :: rest ∧ '\n' ∉ rest := by
  unfold escape
  split
  · exact .inr ⟨_, rfl, by decide⟩
  · exact .inr ⟨_, rfl, by decide⟩
  · exact .inr ⟨_, rfl, by decide⟩
  · exact .inr ⟨_, rfl, by decide⟩
  · exact .inr ⟨_, rfl, by decide⟩
  · exact .inr ⟨_, rfl, by decide⟩
  · exact .inr ⟨_, rfl, by decide⟩
  · rename_i notQuote notBackslash _ _ notNewline _ _
    split
    · rename_i control
      right
      have small : c.toNat < 32 := control
      refine ⟨_, rfl, ?_⟩
      simp only [List.mem_cons, List.not_mem_nil, or_false, not_or]
      exact ⟨by decide, by decide, by decide, (hexDigit_ne_newline (by omega)).symm,
        (hexDigit_ne_newline (by omega)).symm⟩
    · exact .inl ⟨rfl, notQuote, notBackslash, notNewline⟩

theorem toList_quote (text : String) :
    (quote text).toList = '"' :: (text.toList.flatMap escape ++ ['"']) := by
  rw [quote, String.toList_ofList, List.cons_append]

theorem newline_notMem_quote (text : String) : '\n' ∉ (quote text).toList := by
  simp only [toList_quote, List.mem_cons, List.mem_append, List.mem_flatMap, List.not_mem_nil,
    or_false, not_or]
  refine ⟨by decide, ?_, by decide⟩
  intro inside
  obtain ⟨c, -, mem⟩ := inside
  obtain ⟨same, -, -, apart⟩ | ⟨rest, same, fine⟩ := escape_cases c
  · rw [same, List.mem_singleton] at mem
    exact apart mem.symm
  · rw [same] at mem
    exact (List.mem_cons.1 mem).elim (by decide) fine

/-- The characters of the text stand for themselves. -/
def Literal (text : List Char) : Prop := ∀ c ∈ text, escape c = [c]

instance (text : List Char) : Decidable (Literal text) :=
  List.decidableBAll (fun c => escape c = [c]) text

theorem Literal.flatMap_escape {text : List Char} (h : Literal text) :
    text.flatMap escape = text := by
  induction text with
  | nil => rfl
  | cons c text ih =>
    rw [List.flatMap_cons, h c List.mem_cons_self,
      ih fun c mem => h c (List.mem_cons_of_mem _ mem)]
    rfl

theorem Literal.flatMap_escape_inj {plain other behind behind' : List Char}
    (literal : Literal plain)
    (h : other.flatMap escape ++ '"' :: behind' = plain ++ '"' :: behind) :
    other = plain ∧ behind' = behind := by
  induction other generalizing plain with
  | nil =>
    cases plain with
    | nil => exact ⟨rfl, (List.cons.inj h).2⟩
    | cons c plain =>
      have quoted := literal c List.mem_cons_self
      rw [← (List.cons.inj h).1] at quoted
      exact absurd quoted (by decide)
  | cons d other ih =>
    rw [List.flatMap_cons] at h
    obtain ⟨same, notQuote, -, -⟩ | ⟨rest, same, -⟩ := escape_cases d
    · rw [same, List.append_assoc, List.singleton_append] at h
      cases plain with
      | nil => exact absurd (List.cons.inj h).1 notQuote
      | cons c plain =>
        obtain ⟨rfl, rest⟩ := List.cons.inj h
        obtain ⟨rfl, rfl⟩ := ih (fun c mem => literal c (List.mem_cons_of_mem _ mem)) rest
        exact ⟨rfl, rfl⟩
    · rw [same] at h
      cases plain with
      | nil => exact absurd (List.cons.inj h).1 (by decide)
      | cons c plain =>
        have escaped := literal c List.mem_cons_self
        rw [← (List.cons.inj h).1] at escaped
        exact absurd escaped (by decide)

theorem Literal.quote_inj {plain other : String} {behind behind' : List Char}
    (literal : Literal plain.toList)
    (h : (quote other).toList ++ behind' = (quote plain).toList ++ behind) :
    other = plain ∧ behind' = behind := by
  rw [toList_quote, toList_quote, literal.flatMap_escape] at h
  simp only [List.cons_append, List.append_assoc, List.nil_append, List.cons.injEq, true_and] at h
  obtain ⟨same, rest⟩ := literal.flatMap_escape_inj h
  exact ⟨String.toList_inj.1 same, rest⟩

theorem toList_intercalate_cons (first : String) (rest : List String) :
    (",".intercalate (first :: rest)).toList =
      first.toList ++ rest.flatMap fun text => ',' :: text.toList := by
  induction rest generalizing first with
  | nil => simp
  | cons second rest ih =>
    rw [String.intercalate_cons_cons, String.toList_append, String.toList_append, ih]
    simp

theorem newline_notMem_intercalate {texts : List String}
    (each : ∀ text ∈ texts, '\n' ∉ text.toList) : '\n' ∉ (",".intercalate texts).toList := by
  cases texts with
  | nil => decide
  | cons first rest =>
    rw [toList_intercalate_cons, List.mem_append, not_or]
    refine ⟨each first List.mem_cons_self, ?_⟩
    intro mem
    obtain ⟨text, listed, mem⟩ := List.mem_flatMap.1 mem
    exact (List.mem_cons.1 mem).elim (by decide) (each text (List.mem_cons_of_mem _ listed))

mutual

theorem newline_notMem_render (value : Json) : '\n' ∉ value.render.toList := by
  match value with
  | .null => decide
  | .bool true => decide
  | .bool false => decide
  | .num n =>
    intro mem
    exact ne_of_isNumeral (n.numeric_render _ mem) (by decide) rfl
  | .str text => exact newline_notMem_quote text
  | .arr items =>
    rw [render, String.toList_append, String.toList_append, List.mem_append, List.mem_append,
      not_or, not_or]
    exact ⟨⟨by decide, newline_notMem_intercalate (newline_notMem_renderItems items)⟩, by decide⟩
  | .obj members =>
    rw [render, String.toList_append, String.toList_append, List.mem_append, List.mem_append,
      not_or, not_or]
    exact ⟨⟨by decide, newline_notMem_intercalate (newline_notMem_renderMembers members)⟩,
      by decide⟩

theorem newline_notMem_renderItems (items : List Json) :
    ∀ text ∈ renderItems items, '\n' ∉ text.toList := by
  match items with
  | [] => simp [renderItems]
  | item :: items =>
    rw [renderItems, List.forall_mem_cons]
    exact ⟨newline_notMem_render item, newline_notMem_renderItems items⟩

theorem newline_notMem_renderMembers (members : Members) :
    ∀ text ∈ renderMembers members, '\n' ∉ text.toList := by
  match members with
  | [] => simp [renderMembers]
  | (key, value) :: members =>
    rw [renderMembers, List.forall_mem_cons]
    refine ⟨?_, newline_notMem_renderMembers members⟩
    rw [String.toList_append, String.toList_append, List.mem_append, List.mem_append, not_or,
      not_or]
    exact ⟨⟨newline_notMem_quote key, by decide⟩, newline_notMem_render value⟩

end

/-- What is written of an object behind its first member. -/
def closing (members : Members) : List Char :=
  ((renderMembers members).flatMap fun text => ',' :: text.toList) ++ ['\x7d']

theorem toList_render_cons (key : String) (value : Json) (members : Members) :
    (Json.obj ((key, value) :: members)).render.toList =
      '\x7b' :: ((quote key).toList ++ ':' :: (value.render.toList ++ closing members)) := by
  rw [render, renderMembers, String.toList_append, String.toList_append, toList_intercalate_cons,
    String.toList_append, String.toList_append, closing]
  simp

theorem head?_closing (members : Members) : (closing members).head? ≠ some '"' := by
  cases members with
  | nil => decide
  | cons member members => simp [closing, renderMembers]

theorem exists_eq_str_of_head? {value : Json} {behind : List Char}
    (notQuote : behind.head? ≠ some '"')
    (h : (value.render.toList ++ behind).head? = some '"') : ∃ text, value = .str text := by
  cases value with
  | str text => exact ⟨text, rfl⟩
  | null => exact absurd h (by simp [render])
  | bool value => cases value <;> exact absurd h (by simp [render])
  | arr items => exact absurd h (by simp [render])
  | obj members => exact absurd h (by simp [render])
  | num n =>
    cases written : n.render.toList with
    | nil =>
      rw [render, written] at h
      exact absurd h notQuote
    | cons c rest =>
      rw [render, written] at h
      have numeral := n.numeric_render c (by rw [written]; exact List.mem_cons_self)
      exact absurd (Option.some.inj h) (ne_of_isNumeral numeral (by decide))

/-- Of an object whose first member is a literal text, every reading has that member. -/
theorem get?_of_render_eq {members others : Members} {key text : String}
    (literal : Literal key.toList) (literal' : Literal text.toList)
    (h : (Json.obj members).render = (Json.obj ((key, .str text) :: others)).render) :
    members.get? key = some (.str text) := by
  have spelt := congrArg String.toList h
  rw [toList_render_cons] at spelt
  cases members with
  | nil =>
    rw [toList_quote] at spelt
    exact absurd spelt (by simp [render, renderMembers])
  | cons member members =>
    obtain ⟨key', value⟩ := member
    rw [toList_render_cons] at spelt
    obtain ⟨rfl, behind⟩ := literal.quote_inj (List.cons.inj spelt).2
    have same := (List.cons.inj behind).2
    obtain ⟨text', rfl⟩ := exists_eq_str_of_head? (head?_closing members) (by
      rw [same, render, toList_quote]
      rfl)
    obtain ⟨rfl, -⟩ := literal'.quote_inj same
    simp [Members.get?]

end Json

end DocModel
