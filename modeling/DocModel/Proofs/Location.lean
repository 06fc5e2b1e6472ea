import DocModel.Violation

namespace DocModel

/-- Whether a written path keeps a name apart from the steps around it. -/
def isPlain (name : String) : Bool :=
  !name.isEmpty && name.toList.all fun c => c != '.' && c != '['

namespace Step

/-- The keys among the steps are plain. -/
def Plain : Step → Prop
  | key name => isPlain name
  | index _ => True

/-- The mark with which a step begins, behind another one. -/
def mark : Step → Char
  | key _ => '.'
  | index _ => '['

/-- What follows the mark of a step. -/
def body : Step → List Char
  | key name => name.toList
  | index i => Nat.toDigits 10 i ++ [']']

/-- A step as it is written behind another one. -/
def text (step : Step) : List Char := step.mark :: step.body

end Step

/-- The characters with which no step begins. -/
def isInner (c : Char) : Bool := c != '.' && c != '['

theorem isInner_of_isDigit {c : Char} (h : c.isDigit) : isInner c := by
  have notPoint : c ≠ '.' := by
    rintro rfl
    cases h
  have notBracket : c ≠ '[' := by
    rintro rfl
    cases h
  simp [isInner, notPoint, notBracket]

theorem Step.isInner_of_mem_body {step : Step} (plain : step.Plain) {c : Char}
    (mem : c ∈ step.body) : isInner c := by
  cases step with
  | key name => exact List.all_eq_true.1 (Bool.and_eq_true_iff.1 plain).2 c mem
  | index i =>
    obtain digit | bracket := List.mem_append.1 mem
    · exact isInner_of_isDigit (Nat.isDigit_of_mem_toDigits (by decide) (by decide) digit)
    · cases List.mem_singleton.1 bracket
      decide

theorem eq_of_toDigits_eq {i j : Nat} (h : Nat.toDigits 10 i = Nat.toDigits 10 j) : i = j := by
  rw [← Nat.ofDigitChars_ten_toDigits (n := i), h, Nat.ofDigitChars_ten_toDigits]

theorem Step.eq_of_mark_of_body {step other : Step} (mark : step.mark = other.mark)
    (body : step.body = other.body) : step = other := by
  cases step with
  | key name =>
    cases other with
    | key name' => rw [String.toList_inj.1 body]
    | index i => cases mark
  | index i =>
    cases other with
    | key name => cases mark
    | index j => rw [eq_of_toDigits_eq (List.append_cancel_right body)]

/-- What is written behind a run of inner characters begins with the mark of a step. -/
def Breaks (text : List Char) : Prop := ∀ c ∈ text.head?, isInner c = false

theorem breaks_flatMap (location : Location) : Breaks (location.flatMap Step.text) := by
  cases location with
  | nil => simp [Breaks]
  | cons step rest => cases step <;> simp [Breaks, Step.text, Step.mark, isInner]

theorem append_inj_of_breaks {first other behind behind' : List Char}
    (inner : ∀ c ∈ first, isInner c) (inner' : ∀ c ∈ other, isInner c)
    (breaks : Breaks behind) (breaks' : Breaks behind') (h : first ++ behind = other ++ behind') :
    first = other ∧ behind = behind' := by
  induction first generalizing other with
  | nil =>
    cases other with
    | nil => exact ⟨rfl, h⟩
    | cons c other =>
      have ends := breaks c (by rw [show behind = c :: (other ++ behind') from h]; simp)
      rw [inner' c List.mem_cons_self] at ends
      cases ends
  | cons c first ih =>
    cases other with
    | nil =>
      have ends := breaks' c (by rw [show behind' = c :: (first ++ behind) from h.symm]; simp)
      rw [inner c List.mem_cons_self] at ends
      cases ends
    | cons d other =>
      rw [List.cons_append, List.cons_append, List.cons.injEq] at h
      obtain ⟨rfl, h⟩ := h
      obtain ⟨rfl, rfl⟩ := ih (fun c mem => inner c (List.mem_cons_of_mem _ mem))
        (fun c mem => inner' c (List.mem_cons_of_mem _ mem)) h
      exact ⟨rfl, rfl⟩

namespace Location

/-- All keys on the way are plain. -/
def Plain (location : Location) : Prop := ∀ step ∈ location, step.Plain

theorem flatMap_text_inj {location other : Location} (plain : location.Plain)
    (plain' : other.Plain) (h : location.flatMap Step.text = other.flatMap Step.text) :
    location = other := by
  induction location generalizing other with
  | nil =>
    cases other with
    | nil => rfl
    | cons step rest => cases h
  | cons step rest ih =>
    cases other with
    | nil => cases h
    | cons step' rest' =>
      rw [List.flatMap_cons, List.flatMap_cons, Step.text, Step.text, List.cons_append,
        List.cons_append, List.cons.injEq] at h
      obtain ⟨mark, h⟩ := h
      obtain ⟨body, h⟩ := append_inj_of_breaks
        (fun c => Step.isInner_of_mem_body (plain step List.mem_cons_self))
        (fun c => Step.isInner_of_mem_body (plain' step' List.mem_cons_self))
        (breaks_flatMap rest) (breaks_flatMap rest') h
      rw [Step.eq_of_mark_of_body mark body,
        ih (fun step mem => plain step (List.mem_cons_of_mem _ mem))
          (fun step mem => plain' step (List.mem_cons_of_mem _ mem)) h]

/-- The characters of a written path: a key in front stands without its mark. -/
def written : Location → List Char
  | .key name :: rest => name.toList ++ rest.flatMap Step.text
  | location => location.flatMap Step.text

theorem extend_key {path : String} (nonempty : path ≠ "") (name : String) :
    extend path (.key name) = path ++ "." ++ name := by
  rw [extend, if_neg (by simpa using nonempty)]
  rfl

theorem extend_index (path : String) (i : Nat) :
    extend path (.index i) = path ++ "[" ++ i.repr ++ "]" := rfl

theorem extend_ne_empty {path : String} (nonempty : path ≠ "") (step : Step) :
    extend path step ≠ "" := by
  cases step with
  | key name => simp [extend_key nonempty]
  | index i => simp [extend_index]

theorem toList_extend {path : String} (nonempty : path ≠ "") (step : Step) :
    (extend path step).toList = path.toList ++ step.text := by
  cases step with
  | key name => simp [extend_key nonempty, Step.text, Step.mark, Step.body]
  | index i => simp [extend_index, Step.text, Step.mark, Step.body]

theorem toList_foldl_extend {path : String} (nonempty : path ≠ "") (location : Location) :
    (location.foldl extend path).toList = path.toList ++ location.flatMap Step.text := by
  induction location generalizing path with
  | nil => simp
  | cons step rest ih =>
    rw [List.foldl_cons, ih (extend_ne_empty nonempty step), toList_extend nonempty,
      List.flatMap_cons, List.append_assoc]

theorem toList_render {location : Location} (plain : location.Plain) :
    location.render.toList = location.written := by
  cases location with
  | nil => rfl
  | cons step rest =>
    cases step with
    | key name =>
      have named : name ≠ "" := by
        simpa using (Bool.and_eq_true_iff.1 (plain _ List.mem_cons_self)).1
      exact toList_foldl_extend named rest
    | index i =>
      have begun : extend "" (.index i) ≠ "" := by simp [extend_index]
      rw [render, List.foldl_cons, toList_foldl_extend begun, extend_index]
      simp [written, Step.text, Step.mark, Step.body]

theorem not_breaks_of_isPlain {name : String} (plain : isPlain name) (behind : List Char) :
    ¬ Breaks (name.toList ++ behind) := by
  intro breaks
  obtain ⟨named, inner⟩ := Bool.and_eq_true_iff.1 plain
  cases spelt : name.toList with
  | nil =>
    rw [String.toList_eq_nil_iff] at spelt
    rw [spelt] at named
    cases named
  | cons c cs =>
    have ends := breaks c (by rw [spelt]; rfl)
    rw [spelt] at inner
    rw [isInner, List.all_eq_true.1 inner c List.mem_cons_self] at ends
    cases ends

/-- How a path begins tells whether a mark is left out there. -/
theorem written_cases {location : Location} (plain : location.Plain) :
    (¬ Breaks location.written ∧ location.flatMap Step.text = '.' :: location.written) ∨
      Breaks location.written ∧ location.flatMap Step.text = location.written := by
  cases location with
  | nil => exact .inr ⟨breaks_flatMap [], rfl⟩
  | cons step rest =>
    cases step with
    | key name => exact .inl ⟨not_breaks_of_isPlain (plain _ List.mem_cons_self) _, rfl⟩
    | index i => exact .inr ⟨breaks_flatMap (.index i :: rest), rfl⟩

/-- A path can be read in one way only, where no name is empty or has points or brackets. -/
theorem render_inj {location other : Location} (plain : location.Plain) (plain' : other.Plain)
    (h : location.render = other.render) : location = other := by
  have same : location.written = other.written := by
    rw [← toList_render plain, ← toList_render plain', h]
  apply flatMap_text_inj plain plain'
  obtain ⟨inside, marked⟩ | ⟨breaks, unmarked⟩ := written_cases plain
  · obtain ⟨-, marked'⟩ | ⟨breaks', -⟩ := written_cases plain'
    · rw [marked, marked', same]
    · exact absurd (same ▸ breaks') inside
  · obtain ⟨inside', -⟩ | ⟨-, unmarked'⟩ := written_cases plain'
    · exact absurd (same ▸ breaks) inside'
    · rw [unmarked, unmarked', same]

end Location

end DocModel
