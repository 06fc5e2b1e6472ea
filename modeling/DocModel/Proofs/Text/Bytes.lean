import Mathlib.Tactic.SplitIfs

namespace DocModel.Text

/-- The bytes of a text in UTF-8. -/
def bytes (text : String) : List UInt8 := text.toUTF8.data.toList

theorem bytes_ofList (characters : List Char) :
    bytes (String.ofList characters) = characters.flatMap String.utf8EncodeChar := by
  rw [bytes, String.toUTF8_eq_toByteArray, String.toByteArray_ofList, List.utf8Encode,
    List.toList_data_toByteArray]

/-- A character that comes before another is written with lesser bytes, whatever stands behind the
two. -/
theorem utf8EncodeChar_append_lt {c d : Char} (h : c < d) (behind behind' : List UInt8) :
    String.utf8EncodeChar c ++ behind < String.utf8EncodeChar d ++ behind' := by
  have lt : c.toNat < d.toNat := h
  have bound : d.toNat < 0x110000 := by
    obtain low | ⟨-, high⟩ := d.valid
    · exact Nat.lt_trans low (by decide)
    · exact high
  simp only [String.utf8EncodeChar, Char.toNat_val]
  -- A longer encoding begins with a greater byte; two of one length differ in a digit to base 64.
  split_ifs
  all_goals
    simp only [List.cons_append, List.nil_append, List.cons_lt_cons_iff, UInt8.lt_iff_toNat_lt,
      ← UInt8.toNat_inj, UInt8.toNat_ofNat']
    simp (disch := omega) only [Nat.mod_eq_of_lt]
    omega

theorem flatMap_utf8EncodeChar_lt {first second : List Char} (h : first < second) :
    first.flatMap String.utf8EncodeChar < second.flatMap String.utf8EncodeChar := by
  induction h with
  | nil =>
    rename_i c rest
    have written : String.utf8EncodeChar c ≠ [] := String.utf8EncodeChar_ne_nil
    obtain ⟨byte, others, encoded⟩ := List.exists_cons_of_ne_nil written
    rw [List.flatMap_cons, encoded]
    exact .nil
  | rel lt => exact utf8EncodeChar_append_lt lt _ _
  | cons _ ih => exact List.append_left_lt ih

theorem bytes_lt_of_lt {first second : String} (h : first < second) :
    bytes first < bytes second := by
  have spelled := flatMap_utf8EncodeChar_lt (String.lt_iff.1 h)
  rwa [← bytes_ofList, ← bytes_ofList, String.ofList_toList, String.ofList_toList] at spelled

theorem bytes_lt_of_le_of_ne {first second : String} (le : first ≤ second) (ne : first ≠ second) :
    bytes first < bytes second :=
  bytes_lt_of_lt (String.not_le.1 fun back => ne (String.le_antisymm le back))

end DocModel.Text
