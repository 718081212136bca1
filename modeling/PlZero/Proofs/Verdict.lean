import PlZero.Proofs.Faults
import PlZero.Proofs.Printed

/-!
# One verdict

A program can be read with or without the demand for its period, and it can be checked by
the command. All of these judge alike. The stricter reading refuses what was read without
a period at the place where the reading stopped, and has the same answer otherwise. The
command succeeds on a file exactly if its text is accepted. Else it says the fault and
nothing of success, also when it has listed the tokens before.
-/

namespace PlZero

set_option autoImplicit false

namespace Parser

def lackOfPeriod (taken left : List LocatedToken) : Fault :=
  .violation .missingPeriod (lineBetween taken left)
    ((left.head?.map LocatedToken.token).bind Token.identifier?)

/-- A call that demands no period and one that does, over the same tokens. -/
structure OneVerdict (tokens : List LocatedToken) (mild : EStateM.Result Fault State Outcome)
    (strict : EStateM.Result Fault State Block) : Prop where
  stream : (stateAfter strict).stream = (stateAfter mild).stream
  table : (stateAfter strict).table = (stateAfter mild).table
  accepted : ∀ block, result strict = .ok block ↔ result mild = .ok ⟨block, true⟩
  unaccepted : ∃ taken, tokens = taken ++ (stateAfter mild).stream.tokens ∧
    (result strict = .error (lackOfPeriod taken (stateAfter mild).stream.tokens) ↔
      ∃ block, result mild = .ok ⟨block, false⟩)
  failed : ∀ fault, result mild = .error fault ↔
    result strict = .error fault ∧ fault.violation? ≠ some .missingPeriod

/-- A call without the demand never misses the period. -/
theorem fault_of_parse {limit : Nat} {tokens : List LocatedToken} {table : SymbolTable}
    {fault : Fault} {after : State}
    (failed : parse limit (start tokens table) = .error fault after) :
    fault.violation? ≠ some .missingPeriod := by
  have foreseen : Call.parse.MayFailWith fault := mayFail_of_failed failed
  cases fault with
  | violation broken line name? =>
    intro missing
    obtain rfl : broken = .missingPeriod := Option.some.inj missing
    cases foreseen.2.2.2 rfl
  | _ => exact fun missing => by cases missing

theorem oneVerdict (limit : Nat) (tokens : List LocatedToken) (table : SymbolTable) :
    OneVerdict tokens (parse limit (start tokens table))
      (parseProgram limit (start tokens table)) := by
  have place : ∃ taken,
      tokens = taken ++ (stateAfter (parse limit (start tokens table))).stream.tokens ∧
      (stateAfter (parse limit (start tokens table))).stream.line =
        lineBetween taken (stateAfter (parse limit (start tokens table))).stream.tokens :=
    place_of_call .parse limit tokens table
  rw [parseProgram, bind_apply]
  cases outcome : parse limit (start tokens table) with
  | error fault after =>
    rw [outcome] at place
    obtain ⟨taken, split, _⟩ := place
    have other := fault_of_parse outcome
    have differs : fault ≠ lackOfPeriod taken after.stream.tokens := by
      rintro rfl
      exact other rfl
    refine ⟨rfl, rfl, fun block => ?_, ⟨taken, split, ?_⟩, fun found => ?_⟩
    · simp [result]
    · simpa [result, stateAfter] using differs
    · simp only [result, Except.error.injEq, iff_self_and]
      rintro rfl
      exact other
  | ok answer after =>
    obtain ⟨block, accepted⟩ := answer
    rw [outcome] at place
    obtain ⟨taken, split, line⟩ := place
    cases accepted with
    | true =>
      simp only [if_true, pure_apply]
      refine ⟨rfl, rfl, fun found => ?_, ⟨taken, split, ?_⟩, fun found => ?_⟩
      · simp [result]
      · simp [result]
      · simp [result]
    | false =>
      have refused : Fault.violation .missingPeriod after.stream.line
          (after.stream.peek?.bind Token.identifier?) =
          lackOfPeriod taken after.stream.tokens := by
        have line : after.stream.line = lineBetween taken after.stream.tokens := line
        rw [line]
        rfl
      simp only [Bool.false_eq_true, if_false, fail_apply, refused]
      refine ⟨rfl, rfl, fun found => ?_, ⟨taken, split, ?_⟩, fun found => ?_⟩
      · simp [result]
      · simp [result, stateAfter]
      · simp only [result, Except.error.injEq]
        constructor
        · intro same
          cases same
        · rintro ⟨rfl, other⟩
          exact (other rfl).elim

end Parser

theorem Source.decode_toUTF8 (source : String) : decode source.toUTF8 = .ok source := by
  have valid : source.toUTF8.IsValidUTF8 := source.isValidUTF8
  have same : String.fromUTF8? source.toUTF8 = some source := by
    rw [String.fromUTF8?, dif_pos valid]
    rfl
  rw [decode, same]

/-- A file with the extension of the language is read as the text that its bytes spell. -/
theorem Source.read_file {folder : Folder} {path source : String}
    (wanted : Path.extension? path = some wantedExtension)
    (found : folder.find path = .ok (.file source.toUTF8)) : read folder path = .ok source := by
  have taken : checkPath path = .ok () := if_pos wanted
  rw [read, taken, found]
  exact decode_toUTF8 source

namespace Command.Report

structure Succeeds (report : Report) : Prop where
  exitCode : report.exitCode = 0
  said : success.toList ++ ['\n'] <:+ printed report.output

/-- The command ends with a fault, and has said nothing of success. -/
structure RefusesOver (report : Report) (fault : Fault) : Prop where
  exitCode : report.exitCode = 1
  unsaid : ¬ success.toList <:+: printed report.output
  errors : report.errors = ["Error: " ++ fault.message]

theorem refusesOver_failure {output : List String} (lacks : ∀ line ∈ output, LacksSuccess line)
    (fault : Fault) (events : List Event) : (failure output fault events).RefusesOver fault :=
  ⟨rfl, not_printed_of_lacks lacks, rfl⟩

theorem succeeds_of_last {report : Report} {output : List String} (ended : report.exitCode = 0)
    (last : report.output = output ++ [success]) : report.Succeeds := by
  refine ⟨ended, printed output, ?_⟩
  rw [last]
  simp [printed]

theorem not_succeeds_of_refusal {report : Report} {fault : Fault}
    (refused : report.RefusesOver fault) : ¬ report.Succeeds := by
  intro succeeded
  have code := refused.exitCode
  rw [succeeded.exitCode] at code
  cases code

/-- A check of a text succeeds with what the text is read as, or refuses over the fault. -/
theorem answer_of_ofSource (options : Options) (times? : Option Times) (source : String) :
    match (Run.ofSource options.limit source).result with
    | .ok _ => (ofSource options times? source).Succeeds
    | .error fault => (ofSource options times? source).RefusesOver fault := by
  unfold ofSource Run.ofSource
  cases scanned : (Scan.ofSource firstLine source).result with
  | error fault =>
    simp only [scanned]
    exact refusesOver_failure (fun line member => by cases member) fault _
  | ok tokens =>
    have lexical := Scan.result_isLexical scanned
    simp only [scanned]
    cases Parser.result (Parser.parseProgram options.limit (Parser.start tokens .empty)) with
    | ok block => exact succeeds_of_last rfl rfl
    | error fault =>
      refine refusesOver_failure (fun line member => ?_) fault _
      unfold listing at member
      split at member
      · exact tokenLines_lack lexical line member
      · cases member

/-- The report on a file with this text agrees with a check of the text. A text that was read
without a period is refused at the place where the reading stopped. -/
structure AnswersTo (report : Report) (limit : Nat) (source : String) : Prop where
  accepted : report.Succeeds ↔ ∃ block, check limit source = .ok ⟨block, true⟩
  unaccepted : ∀ block, check limit source = .ok ⟨block, false⟩ →
    ∃ tokens taken, (Scan.ofSource firstLine source).result = .ok tokens ∧
      let after := Parser.stateAfter (Parser.parse limit (Parser.start tokens .empty))
      tokens = taken ++ after.stream.tokens ∧
        report.RefusesOver (Parser.lackOfPeriod taken after.stream.tokens)
  failed : ∀ fault, check limit source = .error fault → report.RefusesOver fault

theorem answersTo_ofSource (options : Options) (times? : Option Times) (source : String) :
    (ofSource options times? source).AnswersTo options.limit source := by
  have answer := answer_of_ofSource options times? source
  rw [result_of_run] at answer
  cases scanned : (Scan.ofSource firstLine source).result with
  | error fault =>
    have checked : check options.limit source = .error fault := by rw [check, scanned]; rfl
    rw [scanned] at answer
    have refused : (ofSource options times? source).RefusesOver fault := answer
    constructor
    · simp [checked, not_succeeds_of_refusal refused]
    · simp [checked]
    · simpa [checked] using refused
  | ok tokens =>
    have verdict := Parser.oneVerdict options.limit tokens .empty
    have checked : check options.limit source =
        Parser.result (Parser.parse options.limit (Parser.start tokens .empty)) := by
      rw [check, scanned]
      rfl
    rw [scanned] at answer
    simp only [Except.bind] at answer
    obtain ⟨taken, split, unaccepted⟩ := verdict.unaccepted
    have answersFault {fault : Fault}
        (refused : Parser.result (Parser.parseProgram options.limit
          (Parser.start tokens .empty)) = .error fault) :
        (ofSource options times? source).RefusesOver fault := by
      rw [refused] at answer
      exact answer
    constructor
    · constructor
      · intro succeeded
        cases strict : Parser.result (Parser.parseProgram options.limit
            (Parser.start tokens .empty)) with
        | ok block => exact ⟨block, checked.trans ((verdict.accepted block).mp strict)⟩
        | error fault => exact (not_succeeds_of_refusal (answersFault strict) succeeded).elim
      · rintro ⟨block, accepted⟩
        rw [(verdict.accepted block).mpr (checked.symm.trans accepted)] at answer
        exact answer
    · intro block without
      have refused := unaccepted.mpr ⟨block, checked.symm.trans without⟩
      exact ⟨tokens, taken, scanned, split, answersFault refused⟩
    · intro fault failed
      exact answersFault ((verdict.failed fault).mp (checked.symm.trans failed)).1

end Command.Report

/-- The calls with and without the demand for a period agree over any tokens, and the command
agrees with them on any file, whatever it is asked to list. -/
theorem all_give_one_verdict (limit : Nat) :
    (∀ (tokens : List LocatedToken) (table : SymbolTable),
      Parser.OneVerdict tokens (Parser.parse limit (Parser.start tokens table))
        (Parser.parseProgram limit (Parser.start tokens table))) ∧
    ∀ (folder : Folder) (path source : String) (switches : List Command.Switch)
      (times? : Option Command.Times),
      Path.extension? path = some Source.wantedExtension →
      folder.find path = .ok (.file source.toUTF8) →
        (Command.Report.ofRequest (Source.read folder) times?
          (.check ⟨path, switches, limit⟩)).AnswersTo limit source := by
  refine ⟨Parser.oneVerdict limit, ?_⟩
  intro folder path source switches times? wanted found
  have contents : Source.read folder path = .ok source := Source.read_file wanted found
  rw [Command.Report.ofRequest, contents]
  exact Command.Report.answersTo_ofSource ⟨path, switches, limit⟩ times? source

def unended : String := "VAR a;\na = 1 a"

def unendedTokens : List LocatedToken :=
  [⟨.keyword .varKw, 1⟩, ⟨.identifier "a", 1⟩, ⟨.symbol ';', 1⟩, ⟨.identifier "a", 2⟩,
    ⟨.symbol '=', 2⟩, ⟨.number 1, 2⟩, ⟨.identifier "a", 2⟩]

theorem components_of_plain : Path.components "a.pl0" = ["a.pl0"] := by
  rw [Path.components, String.splitOn, if_neg (by decide)]
  -- none of the five characters is a slash
  iterate 5 rw [String.splitOnAux, if_neg (by decide +kernel), if_neg (by decide +kernel)]
  rw [String.splitOnAux, if_pos (by decide +kernel)]
  decide +kernel

/-- The command lists the tokens and then refuses the block, for there is no period on line 2. -/
theorem unended_is_refused :
    let folder := Folder.holding "a.pl0" (.file unended.toUTF8)
    let report := Command.Report.ofRequest (Source.read folder) none
      (.check ⟨"a.pl0", [.showTokens], 8⟩)
    Path.extension? "a.pl0" = some Source.wantedExtension ∧
      folder.find "a.pl0" = .ok (.file unended.toUTF8) ∧
      check 8 unended = .ok ⟨.statement (.assign "a" (.number 1)), false⟩ ∧
      report.RefusesOver (.violation .missingPeriod 2 (some "a")) := by
  intro folder report
  have wanted : Path.extension? "a.pl0" = some Source.wantedExtension := by
    rw [Path.extension?, Path.fileName?, components_of_plain]
    decide +kernel
  have found : folder.find "a.pl0" = .ok (.file unended.toUTF8) := by
    simp only [folder, Folder.find, Folder.holding, Place.ofPath, components_of_plain]
    rfl
  have checked : check 8 unended = .ok ⟨.statement (.assign "a" (.number 1)), false⟩ := by
    decide +kernel
  have tokens : (Scan.ofSource firstLine unended).result = .ok unendedTokens := by
    decide +kernel
  have answers := (all_give_one_verdict 8).2 folder "a.pl0" unended [.showTokens] none wanted found
  obtain ⟨_, taken, scanned, _, refused⟩ := answers.unaccepted _ checked
  rw [tokens] at scanned
  cases scanned
  exact ⟨wanted, found, checked, refused⟩

end PlZero
