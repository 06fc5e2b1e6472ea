import DocModel.Json.Reader
import DocModel.Proofs.Json.Insert
import DocModel.Proofs.Json.Render

namespace DocModel.Json

section

variable {c : Char} {read rest : List Char} {offset : Nat}

-- Both scanners have many equations; they are generated here, once for all lemmas on them.
attribute [local simp] scan scanQuoted

theorem hexValue?_control {n : Nat} (h : n < 32) :
    hexValue? ['0', '0', hexDigit (n / 16), hexDigit (n % 16)] = some n := by
  have all : ∀ n < 32, hexValue? ['0', '0', hexDigit (n / 16), hexDigit (n % 16)] = some n := by
    decide
  exact all n h

theorem pushUnit_control {n : Nat} (h : n < 32) :
    (Decoding.mk read none).pushUnit n offset = .ok ⟨Char.ofNat n :: read, none⟩ := by
  have notLead : ¬(0xD800 ≤ n ∧ n < 0xDC00) := by omega
  have notTrail : ¬(0xDC00 ≤ n ∧ n < 0xE000) := by omega
  simp [Decoding.pushUnit, notLead, notTrail, Decoding.push]

theorem scanQuoted_letter {letter : Char} (notUnit : letter ≠ 'u')
    (stands : escapeOf? letter = some c) :
    scanQuoted (.ok ⟨read, none⟩) offset ('\\' :: letter :: rest) =
      scanQuoted (.ok ⟨c :: read, none⟩) (offset + 2) rest := by
  rw [scanQuoted, stands]
  · rfl
  · simp [notUnit]
  · simp [notUnit]

theorem scanQuoted_control (control : c < ' ') :
    scanQuoted (.ok ⟨read, none⟩) offset
        ('\\' :: 'u' :: '0' :: '0' :: hexDigit (c.toNat / 16) :: hexDigit (c.toNat % 16) :: rest) =
      scanQuoted (.ok ⟨c :: read, none⟩) (offset + 6) rest := by
  have small : c.toNat < 32 := control
  rw [scanQuoted, hexValue?_control small]
  simp only [bind, Except.bind, pushUnit_control small, Char.ofNat_toNat]

theorem scanQuoted_plain (notQuote : c ≠ '"') (notBackslash : c ≠ '\\') (visible : ¬c < ' ') :
    scanQuoted (.ok ⟨read, none⟩) offset (c :: rest) =
      scanQuoted (.ok ⟨c :: read, none⟩) (offset + c.utf8Size) rest := by
  rw [scanQuoted, if_neg visible]
  · rfl
  · simp [notQuote]
  · simp [notBackslash]
  · simp [notBackslash]
  · simp [notBackslash]
  · simp [notBackslash]

theorem scanQuoted_escape (c : Char) (read : List Char) (offset : Nat) (rest : List Char) :
    ∃ stop, scanQuoted (.ok ⟨read, none⟩) offset (escape c ++ rest) =
      scanQuoted (.ok ⟨c :: read, none⟩) stop rest := by
  unfold escape
  split
  case h_8 notQuote notBackslash _ _ _ _ _ =>
    split
    · next control => exact ⟨_, scanQuoted_control control⟩
    · next visible => exact ⟨_, scanQuoted_plain notQuote notBackslash visible⟩
  all_goals exact ⟨_, scanQuoted_letter (by decide) rfl⟩

theorem scanQuoted_text (text read : List Char) (offset : Nat) (rest : List Char) :
    ∃ stop, scanQuoted (.ok ⟨read, none⟩) offset (text.flatMap escape ++ '"' :: rest) =
      .closed (.ok (String.ofList (read.reverse ++ text))) stop rest := by
  induction text generalizing read offset with
  | nil =>
    refine ⟨offset + 1, ?_⟩
    simp [Decoding.settled, Decoding.text, bind, Except.bind, pure, Except.pure]
  | cons c text ih =>
    obtain ⟨next, same⟩ := scanQuoted_escape c read offset (text.flatMap escape ++ '"' :: rest)
    obtain ⟨stop, closed⟩ := ih (c :: read) next
    refine ⟨stop, ?_⟩
    rw [List.flatMap_cons, List.append_assoc, same, closed]
    simp

theorem scan_quote (text : String) (offset : Nat) (rest : List Char) :
    ∃ stop, scan offset ((quote text).toList ++ rest) =
      ⟨offset, stop, .string (.ok text)⟩ :: scan stop rest := by
  obtain ⟨stop, closed⟩ := scanQuoted_text text.toList [] (offset + 1) rest
  rw [List.reverse_nil, List.nil_append, String.ofList_toList] at closed
  refine ⟨stop, ?_⟩
  rw [toList_quote, List.cons_append, List.append_assoc, List.singleton_append, scan]
  split
  · next scanned =>
    cases scanned.symm.trans closed
    rfl
  · next scanned => cases scanned.symm.trans closed

theorem scan_comma (offset : Nat) (rest : List Char) :
    scan offset (',' :: rest) = ⟨offset, offset + 1, .comma⟩ :: scan (offset + 1) rest := by
  simp

theorem scan_colon (offset : Nat) (rest : List Char) :
    scan offset (':' :: rest) = ⟨offset, offset + 1, .colon⟩ :: scan (offset + 1) rest := by
  simp

theorem scan_openObject (offset : Nat) (rest : List Char) :
    scan offset ('\x7b' :: rest) =
      ⟨offset, offset + 1, .openObject⟩ :: scan (offset + 1) rest := by
  simp

theorem scan_closeObject (offset : Nat) :
    scan offset ['\x7d'] = [⟨offset, offset + 1, .closeObject⟩] := by
  simp

end

/-- Every value of the object is a text. -/
def Members.Textual (members : Members) : Prop := ∀ member ∈ members, ∃ text, member.2 = .str text

theorem read_member {before : Members} {key : String} (fresh : key ∉ before.keys) (isFirst : Bool)
    (text : String) (offset : Nat) (rest : List Char) :
    ∃ stop,
      (scan offset ((quote key).toList ++ ':' :: ((quote text).toList ++ rest))).foldlM
          Reading.step (.member isFirst before []) =
        (scan stop rest).foldlM Reading.step (.objectEnd (before ++ [(key, .str text)]) []) := by
  obtain ⟨afterKey, keyRead⟩ := scan_quote key offset (':' :: ((quote text).toList ++ rest))
  obtain ⟨afterText, textRead⟩ := scan_quote text (afterKey + 1) rest
  refine ⟨afterText, ?_⟩
  rw [keyRead, scan_colon, textRead, ← Members.insert_of_notMem fresh]
  rfl

theorem closing_cons (key text : String) (members : Members) :
    closing ((key, .str text) :: members) =
      ',' :: ((quote key).toList ++ ':' :: ((quote text).toList ++ closing members)) := by
  simp [closing, renderMembers, render]

/-- What is written of an object behind its first members is read into them. -/
theorem read_closing {before members : Members} (textual : members.Textual)
    (distinct : (Members.keys (before ++ members)).Nodup) (offset : Nat) :
    (scan offset (closing members)).foldlM Reading.step (.objectEnd before []) =
      .ok (.finished (.obj (before ++ members))) := by
  induction members generalizing before offset with
  | nil =>
    rw [closing, renderMembers, List.flatMap_nil, List.nil_append, scan_closeObject,
      List.append_nil]
    rfl
  | cons member members ih =>
    obtain ⟨key, value⟩ := member
    obtain ⟨⟨text, rfl⟩, rest⟩ := List.forall_mem_cons.1 textual
    have fresh : key ∉ before.keys := by
      rw [Members.keys, List.map_append, List.map_cons, List.nodup_middle, List.nodup_cons,
        List.mem_append, not_or] at distinct
      exact distinct.1.1
    obtain ⟨stop, same⟩ := read_member fresh false text (offset + 1) (closing members)
    have split : before ++ (key, .str text) :: members =
        before ++ [(key, .str text)] ++ members := by simp
    rw [closing_cons, scan_comma, split]
    exact same.trans (ih rest (split ▸ distinct) stop)

/-- An object of texts under distinct keys is read as it was written. -/
theorem parse_render_of_textual {members : Members} (textual : members.Textual)
    (distinct : members.keys.Nodup) : parse (Json.obj members).render = .ok (.obj members) := by
  have read : (scan 0 (Json.obj members).render.toList).foldlM Reading.step (.due []) =
      .ok (.finished (.obj members)) := by
    cases members with
    | nil =>
      have written : (Json.obj []).render.toList = ['\x7b', '\x7d'] := by
        simp [render, renderMembers]
      rw [written, scan_openObject, scan_closeObject]
      rfl
    | cons member members =>
      obtain ⟨key, value⟩ := member
      obtain ⟨⟨text, rfl⟩, rest⟩ := List.forall_mem_cons.1 textual
      have fresh : key ∉ Members.keys [] := List.not_mem_nil
      obtain ⟨stop, same⟩ := read_member fresh true text 1 (closing members)
      rw [toList_render_cons, render, scan_openObject]
      exact same.trans (read_closing rest distinct stop)
  rw [parse, Json.read, read]
  rfl

end DocModel.Json
