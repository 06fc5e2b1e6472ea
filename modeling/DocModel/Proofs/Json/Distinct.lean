import DocModel.Json.Reader
import DocModel.Proofs.Except
import DocModel.Proofs.Json.Members

namespace DocModel.Json

/-- What is read so far of an open list or object has no two members of one key. -/
def Frame.Distinct : Frame → Prop
  | list items => ∀ item ∈ items, item.Distinct
  | object members _ => (Json.obj members).Distinct

namespace Reading

def Distinct : Reading → Prop
  | due frames => ∀ frame ∈ frames, frame.Distinct
  | item _ items frames | listEnd items frames =>
    (∀ item ∈ items, item.Distinct) ∧ ∀ frame ∈ frames, frame.Distinct
  | member _ members frames | colon members _ frames | objectEnd members frames =>
    (Json.obj members).Distinct ∧ ∀ frame ∈ frames, frame.Distinct
  | finished value => value.Distinct

variable {value : Json} {members : Members} {frames : List Frame} {key : String} {token : Token}
  {reading next : Reading}

theorem distinct_insert (h : (Json.obj members).Distinct) (good : value.Distinct) :
    (Json.obj (members.insert key value)).Distinct := by
  cases h with
  | obj nodup each =>
    rw [Members.insert]
    split
    · constructor
      · rw [Members.keys_set]
        exact nodup
      · intro member mem
        obtain ⟨old, listed, rfl⟩ := List.mem_map.1 mem
        split
        · exact good
        · exact each old listed
    · rename_i fresh
      constructor
      · rw [Members.keys, List.map_append, List.nodup_append]
        refine ⟨nodup, by simp, ?_⟩
        intro a mem b single same
        rw [same, List.mem_singleton.1 single] at mem
        exact fresh mem
      · rw [List.forall_mem_append, List.forall_mem_singleton]
        exact ⟨each, good⟩

theorem distinct_settle (good : value.Distinct) (h : ∀ frame ∈ frames, frame.Distinct) :
    (settle value frames).Distinct := by
  cases frames with
  | nil => exact good
  | cons frame frames =>
    rw [List.forall_mem_cons] at h
    cases frame with
    | list items => exact ⟨List.forall_mem_cons.2 ⟨good, h.1⟩, h.2⟩
    | object members key => exact ⟨distinct_insert h.1 good, h.2⟩

theorem distinct_begin (h : ∀ frame ∈ frames, frame.Distinct)
    (begun : begin token frames = .ok next) : next.Distinct := by
  unfold begin at begun
  split at begun
  · cases begun
    exact distinct_settle .null h
  · cases begun
    exact distinct_settle (.bool _) h
  · obtain ⟨n, -, rfl⟩ := map_eq_ok.1 begun
    exact distinct_settle (.num n) h
  · obtain ⟨s, -, rfl⟩ := map_eq_ok.1 begun
    exact distinct_settle (.str s) h
  · obtain ⟨-, rfl⟩ := ite_eq_ok.1 begun
    exact ⟨by simp, h⟩
  · obtain ⟨-, rfl⟩ := ite_eq_ok.1 begun
    exact ⟨.obj .nil (by simp), h⟩
  all_goals cases begun

theorem distinct_step (h : reading.Distinct) (stepped : reading.step token = .ok next) :
    next.Distinct := by
  unfold step at stepped
  split at stepped
  · exact distinct_begin h stepped
  · rename_i isFirst items frames _
    cases isFirst with
    | true =>
      cases stepped
      exact distinct_settle (.arr fun item mem => h.1 item (List.mem_reverse.1 mem)) h.2
    | false => cases stepped
  · apply distinct_begin _ stepped
    exact List.forall_mem_cons.2 h
  · rename_i isFirst members frames _
    cases isFirst with
    | true =>
      cases stepped
      exact distinct_settle h.1 h.2
    | false => cases stepped
  · obtain ⟨key, -, rfl⟩ := map_eq_ok.1 stepped
    exact h
  · cases stepped
  · cases stepped
  · cases stepped
    change ∀ frame ∈ _, Frame.Distinct frame
    rw [List.forall_mem_cons]
    exact h
  · cases stepped
  · cases stepped
    exact h
  · cases stepped
    exact distinct_settle (.arr fun item mem => h.1 item (List.mem_reverse.1 mem)) h.2
  · cases stepped
  · cases stepped
    exact h
  · cases stepped
    exact distinct_settle h.1 h.2
  · cases stepped
  · cases stepped

end Reading

/-- A document that is read from a text has no two members of one key. -/
theorem distinct_of_parse {text : String} {document : Json} (h : parse text = .ok document) :
    document.Distinct := by
  rw [parse, mapError_eq_ok, read, bind_eq_ok] at h
  obtain ⟨reading, run, finished⟩ := h
  have good : reading.Distinct := by
    apply foldlM_invariant _ run
    · intro frame mem
      cases mem
    · intro before token after stepped good
      exact Reading.distinct_step good stepped
  unfold Reading.finish at finished
  split at finished
  · cases finished
    exact good
  all_goals cases finished

end DocModel.Json
