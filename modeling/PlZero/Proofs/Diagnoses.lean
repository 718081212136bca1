import PlZero.Proofs.Faults
import PlZero.Proofs.Telling

/-!
# Reports of broken rules

A broken rule is reported once, and the report is the last thing that is told of a run. For
it travels outwards through productions that do not catch it, and no scope or level that is
closed on the way tells anything. A run that comes to anything else than a broken rule
reports none. What is reported cannot be mistaken for what else is told, since the sentences
begin with other letters.
-/

namespace PlZero

set_option autoImplicit false

/-- The sentence in which a broken rule is reported: which name was declared twice and on which
line, which name was not declared, or the rule with its code and the line. -/
def Fault.diagnosis? : Fault → Option String
  | .violation .doubleDeclaration line name? =>
    name?.map fun name => s!"double declaration of '{name}' in line {line}"
  | .violation .undeclared _ (some name) => some s!"identifier '{name}' not declared"
  | .violation broken line _ => some s!"{broken.code} ({broken.message}) in line {line}"
  | _ => none

def LacksDiagnoses (events : List Event) : Prop :=
  ∀ event ∈ events, ∀ fault : Fault, fault.diagnosis? ≠ some event.message

namespace Event

def isDiagnosis : Event → Bool
  | undeclared _ | doubleDeclaration .. | violation .. => true
  | _ => false

def IsPlain (event : Event) : Prop := event.isDiagnosis = false

end Event

theorem Fault.diagnosis?_eq_told (fault : Fault) :
    fault.diagnosis? = fault.told?.map Event.message := by
  cases fault with
  | violation broken line name? => cases broken <;> cases name? <;> rfl
  | _ => rfl

theorem Fault.told?_isDiagnosis {fault : Fault} {event : Event} (told : fault.told? = some event) :
    event.isDiagnosis = true := by
  unfold told? at told
  split at told
  · obtain ⟨name, _, rfl⟩ := Option.map_eq_some_iff.mp told
    rfl
  · cases told
    rfl
  · cases told
    rfl
  · cases told

/-- A broken rule is told of, unless it is a second declaration of no name. -/
theorem Fault.exists_told {broken : Violation} {line : Nat} {name? : Option String}
    (named : broken = .doubleDeclaration → name?.isSome = true) :
    ∃ event, (violation broken line name?).told? = some event := by
  cases broken with
  | doubleDeclaration =>
    obtain ⟨name, rfl⟩ := Option.isSome_iff_exists.mp (named rfl)
    exact ⟨_, rfl⟩
  | undeclared => cases name? <;> exact ⟨_, rfl⟩
  | _ => exact ⟨_, rfl⟩

section Letters

def Begins (char : Char) (text : String) : Prop := text.toList.head? = some char

theorem begins_append {char : Char} {first second : String} (begins : Begins char first) :
    Begins char (first ++ second) := by
  rw [Begins] at begins
  rw [Begins, String.toList_append, List.head?_append, begins]
  rfl

theorem begins_number (number : Nat) :
    ∃ char, char.isDigit = true ∧ Begins char (toString number) := by
  have digits : (toString number).toList = Nat.toDigits 10 number := Nat.toList_repr
  cases written : Nat.toDigits 10 number with
  | nil => exact (Nat.toDigits_ne_nil written).elim
  | cons first rest =>
    have member : first ∈ Nat.toDigits 10 number := by
      rw [written]
      exact List.mem_cons_self
    have digit := Nat.isDigit_of_mem_toDigits (by decide) (by decide) member
    exact ⟨first, digit, by rw [Begins, digits, written]; rfl⟩

/-- The letters with which reports of broken rules begin. The codes of the rules begin with the
last two. -/
def diagnosisLetters : List Char := ['d', 'i', 'S', 'T']

theorem code_begins (broken : Violation) :
    ∃ char ∈ diagnosisLetters, Begins char broken.code := by
  by_cases form : broken.isSyntactic = true
  · refine ⟨'S', by decide, ?_⟩
    cases broken <;> first | rfl | cases form
  · refine ⟨'T', by decide, ?_⟩
    cases broken <;> first | rfl | exact absurd rfl form

theorem diagnosis_begins {event : Event} (wrong : event.isDiagnosis = true) :
    ∃ char ∈ diagnosisLetters, Begins char event.message := by
  cases event with
  | undeclared name =>
    refine ⟨'i', by decide, ?_⟩
    repeat apply begins_append
    rfl
  | doubleDeclaration name line =>
    refine ⟨'d', by decide, ?_⟩
    repeat apply begins_append
    rfl
  | violation broken line =>
    obtain ⟨char, letter, begins⟩ := code_begins broken
    refine ⟨char, letter, ?_⟩
    repeat apply begins_append
    exact begins
  | _ => cases wrong

theorem plain_begins {event : Event} (plain : event.IsPlain) :
    ∃ char, char ∉ diagnosisLetters ∧ Begins char event.message := by
  cases event with
  | tokenRead | scanned =>
    refine ⟨'l', by decide, ?_⟩
    repeat apply begins_append
    rfl
  | parsing | procedureDeclared | parsed =>
    refine ⟨'p', by decide, ?_⟩
    repeat apply begins_append
    rfl
  | blockEntered =>
    refine ⟨'b', by decide, ?_⟩
    repeat apply begins_append
    rfl
  | trailing tokens =>
    obtain ⟨char, digit, begins⟩ := begins_number tokens
    refine ⟨char, fun letter => ?_, begins_append begins⟩
    simp only [diagnosisLetters, List.mem_cons, List.not_mem_nil, or_false] at letter
    rcases letter with rfl | rfl | rfl | rfl <;> cases digit
  | undeclared | doubleDeclaration | violation => cases plain

/-- A report of a broken rule is told apart from what is told else by its first letter. -/
theorem lacksDiagnoses_of_plain {events : List Event} (plain : ∀ event ∈ events, event.IsPlain) :
    LacksDiagnoses events := by
  intro event member fault reported
  rw [Fault.diagnosis?_eq_told] at reported
  obtain ⟨report, told, same⟩ := Option.map_eq_some_iff.mp reported
  obtain ⟨char, letter, begins⟩ := diagnosis_begins (Fault.told?_isDiagnosis told)
  obtain ⟨other, noLetter, begun⟩ := plain_begins (plain event member)
  rw [same] at begins
  obtain rfl : char = other := Option.some.inj (begins.symm.trans begun)
  exact noLetter letter

end Letters

namespace Parser

variable {limit : Nat} {tokens : List LocatedToken}

theorem adds_block (levels : Nat) (state : State) :
    Adds Event.IsPlain state (block levels state) :=
  ((tells_descent (fun _ => rfl) fun _ _ => rfl).block levels _).adds state rfl

theorem adds_plain (event : Event) (plain : event.isDiagnosis = false) (state : State) :
    Adds Event.IsPlain state (tell event state) := adds_tell plain state

theorem adds_period (state : State) : Adds Event.IsPlain state (period state) := by
  refine adds_bind (adds_silent rfl) fun found middle _ => ?_
  cases found with
  | false => exact adds_silent rfl
  | true =>
    refine adds_bind (adds_advance middle) fun _ last _ => ?_
    refine adds_bind (adds_silent rfl) fun final _ _ => ?_
    by_cases left : final.stream.length ≠ 0
    · rw [if_pos left]
      exact adds_bind (adds_plain _ rfl _) fun _ _ _ => adds_silent rfl
    · rw [if_neg left]
      exact adds_silent rfl

theorem adds_parseProgram (limit : Nat) (state : State) :
    Adds Event.IsPlain state (parseProgram limit state) := by
  refine adds_bind ?_ fun outcome middle _ => ?_
  · refine adds_bind (adds_silent rfl) fun _ _ _ => ?_
    refine adds_bind (adds_plain _ rfl _) fun _ _ _ => ?_
    refine adds_bind (adds_block _ _) fun _ _ _ => ?_
    refine adds_bind (adds_period _) fun _ _ _ => ?_
    exact adds_bind (adds_plain _ rfl _) fun _ _ _ => adds_silent rfl
  · split
    · exact adds_silent rfl
    -- that a period is missing is told in the words of the rule
    · exact adds_silent rfl

/-- What a program is told to have broken is reported. -/
theorem told_of_failed {table : SymbolTable} {broken : Violation} {line : Nat}
    {name? : Option String} {after : State}
    (failed : parseProgram limit (start tokens table) =
      .error (.violation broken line name?) after) :
    ∃ event, (Fault.violation broken line name?).told? = some event := by
  have called : Call.program.run limit (start tokens table) =
      .error (.violation broken line name?) after := failed
  rcases failure_of_call called with blame | ⟨_, lacking⟩
  · generalize own : Fault.violation broken line name? = fault at blame
    cases blame with
    | head other arises =>
      apply Fault.exists_told
      rintro rfl
      cases arises
    | nesting => cases own
    | name before name line split alone => exact ⟨_, rfl⟩
  · rw [lacking]
    exact ⟨_, rfl⟩

end Parser

def Run.report? (run : Run) : Option Event :=
  match run.result with
  | .ok _ => none
  | .error fault => fault.told?

theorem Scan.events_plain (scan : Scan) : ∀ event ∈ scan.events, event.IsPlain := by
  refine List.forall_mem_append.mpr ⟨?_, ?_⟩
  · intro event member
    obtain ⟨located, _, rfl⟩ := List.mem_map.mp member
    rfl
  · cases scan.fault? with
    | none => exact List.forall_mem_singleton.mpr rfl
    | some fault => exact List.forall_mem_nil _

/-- A run tells plain events, and at the end what it has to report. -/
theorem events_of_run (limit : Nat) (source : String) :
    ∃ plain, (∀ event ∈ plain, event.IsPlain) ∧
      (Run.ofSource limit source).events =
        plain ++ (Run.ofSource limit source).report?.toList := by
  have told := Scan.events_plain (Scan.ofSource firstLine source)
  cases scanned : (Scan.ofSource firstLine source).result with
  | error fault =>
    obtain ⟨digits, line, rfl⟩ := Scan.fault?_ofPieces (Scan.fault?_of_result scanned)
    rw [Run.ofSource_unscanned scanned]
    exact ⟨_, told, (List.append_nil _).symm⟩
  | ok tokens =>
    have adds := Parser.adds_parseProgram limit (Parser.start tokens .empty)
    generalize parsed : Parser.parseProgram limit (Parser.start tokens .empty) = outcome at adds
    obtain ⟨news, plain, log⟩ := adds
    rw [Run.ofSource_scanned scanned parsed]
    refine ⟨(Scan.ofSource firstLine source).events ++ news.reverse, ?_, ?_⟩
    · refine List.forall_mem_append.mpr ⟨told, fun event member => ?_⟩
      exact plain event (List.mem_reverse.mp member)
    · have unread : (Parser.start tokens .empty).log = [] := rfl
      rw [log, unread, List.append_nil, List.reverse_append, List.append_assoc]
      cases outcome with
      | ok block after => rfl
      | error fault after =>
        simp only [Parser.lastWord, Run.report?, Parser.result]
        cases fault.told? <;> rfl

/-- A rule that a run is found to break is told of. -/
theorem told_of_run {limit : Nat} {source : String} {broken : Violation} {line : Nat}
    {name? : Option String}
    (failed : (Run.ofSource limit source).result = .error (.violation broken line name?)) :
    ∃ event, (Fault.violation broken line name?).told? = some event := by
  rw [result_of_run] at failed
  cases scanned : (Scan.ofSource firstLine source).result with
  | error fault =>
    rw [scanned] at failed
    cases failed
    obtain ⟨digits, line, own⟩ := Scan.fault?_ofPieces (Scan.fault?_of_result scanned)
    cases own
  | ok tokens =>
    rw [scanned] at failed
    obtain ⟨after, outcome⟩ := Parser.error_of_result failed
    exact Parser.told_of_failed outcome

/-- A run that broke no rule has nothing to report. -/
theorem Run.report?_of_other {run : Run}
    (other : ∀ broken line name?, run.result ≠ .error (.violation broken line name?)) :
    run.report? = none := by
  unfold report?
  cases ended : run.result with
  | ok block => rfl
  | error fault =>
    cases fault with
    | violation broken line name? => exact absurd ended (other broken line name?)
    | _ => rfl

theorem Event.level_of_diagnosis {event : Event} (wrong : event.isDiagnosis = true) :
    event.level = .debug := by
  cases event <;> first | rfl | cases wrong

theorem Run.report?_isDiagnosis {run : Run} {event : Event} (report : run.report? = some event) :
    event.isDiagnosis = true := by
  unfold report? at report
  split at report
  · cases report
  · exact Fault.told?_isDiagnosis report

/-- A listing without the tokens holds the report if there is one, and no other. -/
theorem listing_of_run (limit : Nat) (source : String) :
    ∃ before, LacksDiagnoses before ∧
      (Run.ofSource limit source).listing (some .debug) =
        before ++ (Run.ofSource limit source).report?.toList := by
  obtain ⟨plain, allPlain, events⟩ := events_of_run limit source
  refine ⟨plain.filter fun event => event.isShownAt .debug, ?_, ?_⟩
  · exact lacksDiagnoses_of_plain fun event member => allPlain event (List.mem_filter.mp member).1
  · rw [Run.listing, events, List.filter_append]
    apply congrArg
    refine List.filter_eq_self.mpr fun event member => ?_
    have wrong := Run.report?_isDiagnosis (Option.mem_toList.mp member)
    rw [Event.isShownAt, Event.level_of_diagnosis wrong]
    decide

/-- The listing of a run that tells everything but the tokens ends with the report of the rule that
was broken. That is the only report, and there is none if no rule was broken. -/
theorem broken_rule_is_reported_once_and_last (limit : Nat) (source : String) :
    let run := Run.ofSource limit source
    match run.result with
    | .error (.violation broken line name?) =>
      ∃ before last, run.listing (some .debug) = before ++ [last] ∧ last.level = .debug ∧
        (Fault.violation broken line name?).diagnosis? = some last.message ∧
        LacksDiagnoses before
    | _ => LacksDiagnoses (run.listing (some .debug)) := by
  intro run
  obtain ⟨before, lacks, listed⟩ := listing_of_run limit source
  split
  · next broken line name? failed =>
    obtain ⟨last, told⟩ := told_of_run failed
    have report : run.report? = some last := by
      unfold Run.report?
      rw [failed]
      exact told
    have level := Event.level_of_diagnosis (Run.report?_isDiagnosis report)
    refine ⟨before, last, ?_, level, ?_, lacks⟩
    · rw [listed, report, Option.toList_some]
    · rw [Fault.diagnosis?_eq_told, told, Option.map_some]
  · next other =>
    rw [listed, Run.report?_of_other other, Option.toList_none, List.append_nil]
    exact lacks

def callOfVariable : String := "VAR a;\nBEGIN a = 1; CALL a END."

theorem call_of_variable_is_reported :
    let run := Run.ofSource 8 callOfVariable
    run.result = .error (.violation .notProcedure 2 (some "a")) ∧
      ∃ before last, run.listing (some .debug) = before ++ [last] ∧
        last.message = "TYP_ONLY_PROC (Type-Error: Can only call a procedure) in line 2" ∧
        LacksDiagnoses before := by
  have failed : (Run.ofSource 8 callOfVariable).result =
      .error (.violation .notProcedure 2 (some "a")) := by decide +kernel
  have reported := broken_rule_is_reported_once_and_last 8 callOfVariable
  dsimp only at reported
  rw [failed] at reported
  obtain ⟨before, last, listed, _, message, lacks⟩ := reported
  refine ⟨failed, before, last, listed, ?_, lacks⟩
  exact (Option.some.inj message).symm.trans (by decide +kernel)

end PlZero
