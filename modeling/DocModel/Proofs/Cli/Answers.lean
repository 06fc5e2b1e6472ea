import DocModel.Proofs.Compile.Described
import DocModel.Proofs.Json.Render

namespace DocModel.Cli

/-- The text is one line, and it holds an object with these members. -/
def HoldsLine (text : String) (members : Json.Members) : Prop :=
  '\n' ∉ (Json.obj members).render.toList ∧ text = (Json.obj members).render ++ "\n"

theorem holdsLine_line (members : Json.Members) : HoldsLine (Response.line members) members :=
  ⟨Json.newline_notMem_render _, rfl⟩

theorem not_holdsLine_empty (members : Json.Members) : ¬ HoldsLine "" members := by
  intro holds
  have spelt := congrArg String.toList holds.2
  rw [String.toList_append] at spelt
  simp at spelt

/-- However a line that begins with a status is read, it has that status. -/
theorem status_of_holdsLine {status : String} {others members : Json.Members}
    (literal : Json.Literal status.toList)
    (h : HoldsLine (Response.line (("status", .str status) :: others)) members) :
    members.get? "status" = some (.str status) := by
  have spelt := congrArg String.toList h.2
  rw [Response.line, String.toList_append, String.toList_append] at spelt
  apply Json.get?_of_render_eq (by decide) literal
  exact String.toList_inj.1 (List.append_cancel_right spelt).symm

/-- What a command that succeeds makes: the summary of a definition, or the document that the
validator returns for the one on the standard input. -/
inductive Command.Yields (command : Command) (tree : FileTree) (stdin : ByteArray) : Json → Prop
  | check {config : Config} {level : Log.Severity} {summary : Json} (verb : command.verb = .check)
    (load : Config.load tree command.config = .ok (config, level))
    (described : ((config.compiler tree).describe 0 command.typeName).result = .ok summary) :
    Yields command tree stdin summary
  | validate {config : Config} {level : Log.Severity} {document cleaned : Json}
    {compiled : Compiled} (verb : command.verb = .validate)
    (load : Config.load tree command.config = .ok (config, level))
    (read : readDocument stdin = .ok document)
    (compiles : ((config.compiler tree).compile 0 command.typeName).result = .ok compiled)
    (returned : (compiled.validator.validate none document).result = .ok cleaned) :
    Yields command tree stdin cleaned

/-- What a command fails with: the first of its steps that fails. -/
inductive Command.Fails (command : Command) (tree : FileTree) (stdin : ByteArray) : Error → Prop
  | config {fault : Config.Fault} (load : Config.load tree command.config = .error fault) :
    Fails command tree stdin (.config fault)
  | undescribed {config : Config} {level : Log.Severity} {failure : Failure}
    (verb : command.verb = .check) (load : Config.load tree command.config = .ok (config, level))
    (described : ((config.compiler tree).describe 0 command.typeName).result = .error failure) :
    Fails command tree stdin (.definition failure.reported)
  | input {config : Config} {level : Log.Severity} {fault : InputFault}
    (verb : command.verb = .validate)
    (load : Config.load tree command.config = .ok (config, level))
    (read : readDocument stdin = .error fault) : Fails command tree stdin (.input fault)
  | uncompiled {config : Config} {level : Log.Severity} {document : Json} {failure : Failure}
    (verb : command.verb = .validate)
    (load : Config.load tree command.config = .ok (config, level))
    (read : readDocument stdin = .ok document)
    (compiles : ((config.compiler tree).compile 0 command.typeName).result = .error failure) :
    Fails command tree stdin (.definition failure.reported)
  | rejected {config : Config} {level : Log.Severity} {document : Json} {compiled : Compiled}
    {rejection : Rejection} (verb : command.verb = .validate)
    (load : Config.load tree command.config = .ok (config, level))
    (read : readDocument stdin = .ok document)
    (compiles : ((config.compiler tree).compile 0 command.typeName).result = .ok compiled)
    (refused : (compiled.validator.validate none document).result = .error rejection) :
    Fails command tree stdin (.validation rejection)

/-- What a command answers on the standard output when it fails; the two commands name the error of
a definition differently. -/
def Verb.answer (verb : Verb) : Error → String
  | .config _ | .input _ => ""
  | .definition error =>
    match verb with
    | .check => Response.error (Error.definition error).code.text (Error.definition error).message
    | .validate => Response.error error.code.text error.message
  | .validation rejection => Response.violations rejection

theorem Verb.answer_cases (verb : Verb) (error : Error) :
    verb.answer error = "" ∨
      ∃ others, verb.answer error = Response.line (("status", .str "error") :: others) := by
  cases error with
  | config fault => exact .inl rfl
  | input fault => exact .inl rfl
  | definition error => cases verb <;> exact .inr ⟨_, rfl⟩
  | validation rejection => exact .inr ⟨_, rfl⟩

/-- What an answer tells of a violation. -/
def violationEntry (violation : Violation) : Json :=
  .obj [("path", .str violation.path), ("message", .str violation.message)]

/-- On the standard output stands what is due for an error: nothing if no definition was asked for,
or else one line, with the violations of a document in their order. -/
def Error.Told (error : Error) (stdout : String) : Prop :=
  match error with
  | .config _ | .input _ => stdout = ""
  | .definition _ =>
    ∃ members, HoldsLine stdout members ∧ members.get? "status" = some (.str "error")
  | .validation rejection =>
    ∃ members, HoldsLine stdout members ∧ members.get? "status" = some (.str "error") ∧
      members.get? "violations" = some (.arr (rejection.violations.map violationEntry))

theorem Verb.told_answer (verb : Verb) (error : Error) : error.Told (verb.answer error) := by
  cases error with
  | config fault => exact rfl
  | input fault => exact rfl
  | definition error =>
    obtain ⟨others, told⟩ : ∃ others, verb.answer (.definition error) =
        Response.line (("status", .str "error") :: others) := by
      cases verb <;> exact ⟨_, rfl⟩
    refine ⟨("status", .str "error") :: others, ?_, by simp [Json.Members.get?]⟩
    rw [told]
    exact holdsLine_line _
  | validation rejection =>
    refine ⟨[("status", .str "error"), ("code", .str Rejection.code.text),
      ("violations", .arr (rejection.violations.map violationEntry))], ?_, ?_, ?_⟩
    · exact holdsLine_line _
    · simp [Json.Members.get?]
    · simp [Json.Members.get?, lookup_cons_eq_ite]

section

variable {config : Config} {tree : FileTree} {typeName : String} {stdin : ByteArray}

theorem result_check_of_ok {summary : Json}
    (h : (summarize config tree typeName).result = .ok summary) :
    (check config tree typeName).result = .ok () := by
  unfold check
  dsimp only
  rw [h]

theorem stdout_check_of_error {failure : Failure}
    (h : (summarize config tree typeName).result = .error failure) :
    (check config tree typeName).stdout = Verb.check.answer (.definition failure.reported) := by
  unfold check
  dsimp only
  rw [h]
  rfl

theorem validate_of_input {fault : InputFault} (read : readDocument stdin = .error fault) :
    validate config tree typeName stdin = ⟨.error (.input fault), "", []⟩ := by
  rw [validate, read]

theorem stdout_validate_of_error {document : Json} {failure : Failure}
    (read : readDocument stdin = .ok document)
    (h : ((config.compiler tree).compile 0 typeName).result = .error failure) :
    (validate config tree typeName stdin).stdout =
      Verb.validate.answer (.definition failure.reported) := by
  rw [validate, read]
  dsimp only
  rw [h]
  rfl

section

variable {document : Json} {compiled : Compiled} (read : readDocument stdin = .ok document)
  (compiles : ((config.compiler tree).compile 0 typeName).result = .ok compiled)

include read compiles

theorem validate_of_ok {cleaned : Json}
    (h : (compiled.validator.validate none document).result = .ok cleaned) :
    (validate config tree typeName stdin).result = .ok () ∧
      (validate config tree typeName stdin).stdout = Response.ok cleaned := by
  rw [validate, read]
  dsimp only
  rw [compiles]
  dsimp only
  rw [h]
  exact ⟨rfl, rfl⟩

theorem validate_of_rejection {rejection : Rejection}
    (h : (compiled.validator.validate none document).result = .error rejection) :
    (validate config tree typeName stdin).result = .error (.validation rejection) ∧
      (validate config tree typeName stdin).stdout =
        Verb.validate.answer (.validation rejection) := by
  rw [validate, read]
  dsimp only
  rw [compiles]
  dsimp only
  rw [h]
  exact ⟨rfl, rfl⟩

end

end

namespace Command

variable {command : Command} {tree : FileTree} {stdin : ByteArray}

/-- What a command answers once its configuration is loaded. -/
def answer (command : Command) (config : Config) (tree : FileTree) (stdin : ByteArray) : Answer :=
  match command.verb with
  | .check => Cli.check config tree command.typeName
  | .validate => Cli.validate config tree command.typeName stdin

section

variable {config : Config} {level : Log.Severity}
  (load : Config.load tree command.config = .ok (config, level))

include load

theorem run_of_ok (ok : (command.answer config tree stdin).result = .ok ()) :
    (command.run tree stdin).exit = 0 ∧
      (command.run tree stdin).stdout = (command.answer config tree stdin).stdout := by
  obtain ⟨verb, path, typeName⟩ := command
  cases verb with
  | check =>
    dsimp only [answer] at ok ⊢
    rw [run, load]
    dsimp only
    rw [ok]
    exact ⟨rfl, rfl⟩
  | validate =>
    dsimp only [answer] at ok ⊢
    rw [run, load]
    dsimp only
    rw [ok]
    exact ⟨rfl, rfl⟩

theorem run_of_error {error : Error}
    (failed : (command.answer config tree stdin).result = .error error) :
    (command.run tree stdin).exit = 1 ∧
      (command.run tree stdin).stdout = (command.answer config tree stdin).stdout ∧
      ∃ log, (command.run tree stdin).stderr = log ++ error.display ++ "\n" := by
  obtain ⟨verb, path, typeName⟩ := command
  cases verb with
  | check =>
    dsimp only [answer] at failed ⊢
    rw [run, load]
    dsimp only
    rw [failed]
    exact ⟨rfl, rfl, _, rfl⟩
  | validate =>
    dsimp only [answer] at failed ⊢
    rw [run, load]
    dsimp only
    rw [failed]
    exact ⟨rfl, rfl, _, rfl⟩

end

theorem answer_cases {config : Config} {level : Log.Severity}
    (load : Config.load tree command.config = .ok (config, level)) (stdin : ByteArray) :
    (∃ data, command.Yields tree stdin data ∧
      (command.answer config tree stdin).result = .ok () ∧
      (command.answer config tree stdin).stdout = Response.ok data) ∨
    ∃ error, command.Fails tree stdin error ∧
      (command.answer config tree stdin).result = .error error ∧
      (command.answer config tree stdin).stdout = command.verb.answer error := by
  cases verb : command.verb with
  | check =>
    simp only [answer, verb]
    cases described : (summarize config tree command.typeName).result with
    | ok summary =>
      exact .inl ⟨summary, .check verb load described, result_check_of_ok described,
        stdout_check described⟩
    | error error =>
      exact .inr ⟨_, .undescribed verb load described, result_check described,
        stdout_check_of_error described⟩
  | validate =>
    simp only [answer, verb]
    cases read : readDocument stdin with
    | error fault =>
      rw [validate_of_input read]
      exact .inr ⟨_, .input verb load read, rfl, rfl⟩
    | ok document =>
      cases compiles : ((config.compiler tree).compile 0 command.typeName).result with
      | error error =>
        exact .inr ⟨_, .uncompiled verb load read compiles, result_validate read compiles,
          stdout_validate_of_error read compiles⟩
      | ok compiled =>
        cases returned : (compiled.validator.validate none document).result with
        | ok cleaned =>
          exact .inl ⟨cleaned, .validate verb load read compiles returned,
            validate_of_ok read compiles returned⟩
        | error rejection =>
          exact .inr ⟨_, .rejected verb load read compiles returned,
            validate_of_rejection read compiles returned⟩

/-- A command yields something and answers with it, or fails and answers to that. -/
theorem run_cases (command : Command) (tree : FileTree) (stdin : ByteArray) :
    (∃ data, command.Yields tree stdin data ∧ (command.run tree stdin).exit = 0 ∧
      (command.run tree stdin).stdout = Response.ok data) ∨
    ∃ error log, command.Fails tree stdin error ∧ (command.run tree stdin).exit = 1 ∧
      (command.run tree stdin).stdout = command.verb.answer error ∧
      (command.run tree stdin).stderr = log ++ error.display ++ "\n" := by
  cases load : Config.load tree command.config with
  | error fault =>
    right
    refine ⟨.config fault, "", .config load, ?_⟩
    rw [run, load, String.empty_append]
    exact ⟨rfl, rfl, rfl⟩
  | ok loaded =>
    obtain ⟨config, level⟩ := loaded
    obtain ⟨data, yields, ok, stdout⟩ | ⟨error, fails, failed, stdout⟩ :=
      command.answer_cases load stdin
    · obtain ⟨exit, same⟩ := run_of_ok load ok
      exact .inl ⟨data, yields, exit, same.trans stdout⟩
    · obtain ⟨exit, same, log, stderr⟩ := run_of_error load failed
      exact .inr ⟨error, log, fails, exit, same.trans stdout, stderr⟩

end Command

/-- A command line that can be read is answered once. Its exit code is zero exactly if one line
stands on the standard output that holds an object of status `ok` with what the command yields. Any
other exit code is one, the standard error ends with the error that the command fails with, and on
the standard output stands what is due for it. -/
theorem command_line_is_answered_once {arguments : List String} {command : Command}
    (parses : Request.ofArguments? arguments = some (.command command)) (tree : FileTree)
    (stdin : ByteArray) :
    ((run arguments tree stdin).exit = 0 ↔ ∃ members data,
      HoldsLine (run arguments tree stdin).stdout members ∧
      members.get? "status" = some (.str "ok") ∧ members.get? "data" = some data ∧
      command.Yields tree stdin data) ∧
    ((run arguments tree stdin).exit ≠ 0 → (run arguments tree stdin).exit = 1 ∧
      ∃ error log, command.Fails tree stdin error ∧
        (run arguments tree stdin).stderr = log ++ error.display ++ "\n" ∧
        error.Told (run arguments tree stdin).stdout) := by
  have same : run arguments tree stdin = command.run tree stdin := by
    rw [run, parses]
  rw [same]
  obtain ⟨data, yields, exit, stdout⟩ | ⟨error, log, fails, exit, stdout, stderr⟩ :=
    command.run_cases tree stdin
  · rw [exit, stdout]
    refine ⟨iff_of_true rfl ?_, absurd rfl⟩
    exact ⟨_, data, holdsLine_line _, rfl, rfl, yields⟩
  · rw [exit, stdout]
    refine ⟨iff_of_false (by decide) ?_, fun _ => ⟨rfl, error, log, fails, stderr, ?_⟩⟩
    · rintro ⟨members, data, holds, ok, -, -⟩
      obtain silent | ⟨others, told⟩ := command.verb.answer_cases error
      · rw [silent] at holds
        exact not_holdsLine_empty members holds
      · rw [told] at holds
        rw [status_of_holdsLine (by decide) holds] at ok
        simp at ok
    · exact command.verb.told_answer error

/-- The posts, with a configuration by which they are found. -/
def configuredPosts : FileTree :=
  posts.addFile "modelgen.json" (Json.obj [("search_roots", .arr [.str "/"])]).render.toUTF8

/-- A document on the standard input with a single member. -/
def written (key : String) : ByteArray := (Json.obj [(key, .num (.int 1))]).render.toUTF8

theorem command_line_is_answered_once_posts :
    Request.ofArguments? ["validate", "--type", "Post"] =
        some (.command ⟨.validate, "./modelgen.json", "Post"⟩) ∧
      (∃ members data,
        HoldsLine (run ["validate", "--type", "Post"] configuredPosts (written "at")).stdout
          members ∧
        members.get? "status" = some (.str "ok") ∧ members.get? "data" = some data) ∧
      (run ["validate", "--type", "Post"] configuredPosts (written "to")).exit = 1 := by
  have parses : Request.ofArguments? ["validate", "--type", "Post"] =
      some (.command ⟨.validate, "./modelgen.json", "Post"⟩) := by decide +kernel
  refine ⟨parses, ?_, ?_⟩
  · have exit : (run ["validate", "--type", "Post"] configuredPosts (written "at")).exit = 0 := by
      decide +kernel
    obtain ⟨members, data, holds, status, found, -⟩ :=
      (command_line_is_answered_once parses _ _).1.1 exit
    exact ⟨members, data, holds, status, found⟩
  · have failed : (run ["validate", "--type", "Post"] configuredPosts (written "to")).exit ≠ 0 := by
      decide +kernel
    exact ((command_line_is_answered_once parses _ _).2 failed).1

end DocModel.Cli
