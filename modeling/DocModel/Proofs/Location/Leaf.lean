import Mathlib.Data.List.DropRight
import DocModel.Proofs.Location

namespace DocModel

theorem takeWhile_append_of_not {α : Type} {test : α → Bool} {c : α} (ends : test c = false)
    (front behind : List α) :
    (front ++ c :: behind).takeWhile test = front.takeWhile test := by
  induction front with
  | nil => simp [ends]
  | cons d front ih => simp only [List.cons_append, List.takeWhile_cons, ih]

theorem rtakeWhile_append_of_not {α : Type} {test : α → Bool} {c : α} (ends : test c = false)
    (front behind : List α) :
    (front ++ c :: behind).rtakeWhile test = behind.rtakeWhile test := by
  have turned : (front ++ c :: behind).reverse = behind.reverse ++ c :: front.reverse := by simp
  rw [List.rtakeWhile, turned, takeWhile_append_of_not ends]
  rfl

theorem rtakeWhile_append_of_forall {α : Type} {test : α → Bool} {behind : List α}
    (each : ∀ c ∈ behind, test c) (front : List α) :
    (front ++ behind).rtakeWhile test = front.rtakeWhile test ++ behind := by
  induction behind using List.reverseRecOn with
  | nil => simp
  | append_singleton behind c ih =>
    rw [List.forall_mem_append, List.forall_mem_singleton] at each
    rw [← List.append_assoc, List.rtakeWhile_concat_pos _ _ _ each.2, ih each.1, List.append_assoc]

theorem toList_leafName (path : String) :
    (leafName path).toList = (path.toList.rtakeWhile (· != '.')).takeWhile (· != '[') := by
  rw [leafName, String.toList_ofList]
  rfl

theorem leafName_append_point (front name : String) :
    leafName (front ++ "." ++ name) = leafName name := by
  have spelt : (front ++ "." ++ name).toList = front.toList ++ '.' :: name.toList := by simp
  rw [← String.toList_inj, toList_leafName, toList_leafName, spelt, rtakeWhile_append_of_not rfl]

theorem leafName_append_index (path : String) (i : Nat) :
    leafName (path ++ "[" ++ i.repr ++ "]") = leafName path := by
  have pointless : ∀ c ∈ '[' :: (Nat.toDigits 10 i ++ [']']), (c != '.') = true := by
    intro c mem
    rw [List.mem_cons, List.mem_append, List.mem_singleton] at mem
    rcases mem with rfl | digit | rfl
    · rfl
    · have inner := isInner_of_isDigit (Nat.isDigit_of_mem_toDigits (by decide) (by decide) digit)
      exact (Bool.and_eq_true_iff.1 inner).1
    · rfl
  have spelt : (path ++ "[" ++ i.repr ++ "]").toList =
      path.toList ++ '[' :: (Nat.toDigits 10 i ++ [']']) := by simp
  rw [← String.toList_inj, toList_leafName, toList_leafName, spelt,
    rtakeWhile_append_of_forall pointless, takeWhile_append_of_not rfl]

theorem leafName_eq_self_iff {name : String} :
    leafName name = name ↔ '.' ∉ name.toList ∧ '[' ∉ name.toList := by
  rw [← String.toList_inj, toList_leafName]
  constructor
  · intro same
    constructor
    · intro point
      rw [← same] at point
      cases List.mem_rtakeWhile_imp ((List.takeWhile_sublist _).subset point)
    · intro bracket
      rw [← same] at bracket
      cases List.mem_takeWhile_imp bracket
  · rintro ⟨pointless, bracketless⟩
    have whole : name.toList.rtakeWhile (· != '.') = name.toList := by
      rw [List.rtakeWhile_eq_self_iff]
      rintro c mem
      rw [bne_iff_ne]
      rintro rfl
      exact pointless mem
    rw [whole, List.takeWhile_eq_self_iff]
    intro c mem
    rw [bne_iff_ne]
    rintro rfl
    exact bracketless mem

namespace Location

theorem render_concat (location : Location) (step : Step) :
    Location.render (location ++ [step]) = extend location.render step := by
  rw [render, List.foldl_append]
  rfl

theorem leafName_extend_key (path name : String) :
    leafName (extend path (.key name)) = leafName name := by
  by_cases empty : path = ""
  · rw [empty]
    rfl
  · rw [extend_key empty, leafName_append_point]

theorem leafName_extend_index (path : String) (i : Nat) :
    leafName (extend path (.index i)) = leafName path := leafName_append_index path i

/-- The last key on the way, whichever positions of a list are behind it. -/
def lastKey? (location : Location) : Option String :=
  location.foldl (fun last step => match step with | .key name => some name | .index _ => last) none

theorem lastKey?_concat_key (location : Location) (name : String) :
    Location.lastKey? (location ++ [.key name]) = some name := by
  rw [lastKey?, List.foldl_append]
  rfl

theorem lastKey?_concat_index (location : Location) (i : Nat) :
    Location.lastKey? (location ++ [.index i]) = location.lastKey? := by
  rw [lastKey?, List.foldl_append]
  rfl

theorem leafName_render {location : Location} {name : String}
    (last : location.lastKey? = some name) : leafName location.render = leafName name := by
  induction location using List.reverseRecOn with
  | nil => cases last
  | append_singleton location step ih =>
    rw [render_concat]
    cases step with
    | key other =>
      rw [lastKey?_concat_key] at last
      cases last
      exact leafName_extend_key _ _
    | index i =>
      rw [lastKey?_concat_index] at last
      rw [leafName_extend_index]
      exact ih last

end Location

end DocModel
