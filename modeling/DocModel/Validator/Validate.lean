import DocModel.Validator.Check
import DocModel.Validator.Clean

namespace DocModel

/-- The cleaned document or the rejection, and what happened on the way. -/
structure Verdict where
  result : Except Rejection Json
  activities : List Activity

namespace Validator

def reject (validator : Validator) (violations : List Violation) (activities : List Activity) :
    Verdict :=
  let rejection := (Rejection.ofViolations? validator.typeName violations).getD
    ⟨validator.typeName, ⟨Location.root, .invalidDocument⟩, []⟩
  ⟨.error rejection, activities ++ [.rejected validator.typeName rejection.first.path]⟩

/-- Checks a document and, once all of it has passed, cleans it. -/
def validate (validator : Validator) (oracle : Option Oracle) (document : Json) : Verdict :=
  match validator.check [] document with
  | .error violations => validator.reject violations []
  | .ok checked =>
    match (validator.clean oracle [] checked).run {} with
    | .error violation sweep => validator.reject [violation] sweep.activities
    | .ok cleaned sweep =>
      ⟨.ok cleaned, sweep.activities ++
        [.cleaned validator.typeName sweep.stats, .validated validator.typeName]⟩

end Validator

end DocModel
