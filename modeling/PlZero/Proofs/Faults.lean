import PlZero.Proofs.Blame
import PlZero.Proofs.LineEnds
import PlZero.Proofs.Program

/-!
# Which faults arise, and on which lines

The parser cannot run out of tokens in the middle of a step, nor leave a scope that it did
not enter, and four of the rules are never the one that is broken. So a call fails over the
nesting or over one of the other rules. When it was given the tokens of a source text, the
line that it reports is one of the lines of that text.
-/

namespace PlZero

set_option autoImplicit false

/-- The line of a fault that a source text can cause lies between the first line and the one
after the last line end. Nothing else than these three can go wrong with a text. -/
def Fault.IsPlacedIn (source : String) : Fault → Prop
  | .invalidNumber _ line | .nestingTooDeep _ line | .violation _ line _ =>
    firstLine ≤ line ∧ line ≤ firstLine + Text.lineEnds source.toList
  | _ => False

namespace Parser

variable {α : Type}

/-- The faults that are left to a call when it is known what cannot happen. That a period is
missing is found by a call for a whole program only. -/
def Call.MayFailWith (call : Call) : Fault → Prop
  | .nestingTooDeep _ _ => True
  | .violation broken _ _ =>
    broken ≠ .missingDeclaredName ∧ broken ≠ .missingBlockSeparator ∧
      broken ≠ .malformedStatement ∧ (broken = .missingPeriod → call = .program)
  | _ => False

/-- A call fails in its block, or at the place of the period that a program needs. -/
theorem failure_of_call {call : Call} {limit : Nat} {tokens : List LocatedToken}
    {table : SymbolTable} {fault : Fault} {after : State}
    (failed : call.run limit (start tokens table) = .error fault after) :
    Blame (block limit) limit (fresh tokens table) after fault ∨
      call = .program ∧ fault = .violation .missingPeriod after.stream.line
        (after.stream.peek?.bind Token.identifier?) := by
  rcases failed_call failed with outcome | lacking
  · have blame := blamesAt_block limit (fresh tokens table) fault after outcome
    have levels : (fresh tokens table).depth + limit = limit := Nat.zero_add limit
    rw [levels] at blame
    exact .inl blame
  · exact .inr lacking

theorem mayFail_of_arises (call : Call) {broken : Violation} (arises : broken.arisesAtHead = true)
    (line : Nat) (name? : Option String) : call.MayFailWith (.violation broken line name?) := by
  refine ⟨?_, ?_, ?_, ?_⟩
  -- No step arises over one of these four.
  all_goals
    rintro rfl
    cases arises

theorem mayFail_of_blame (call : Call) {production : Parser α} {limit : Nat} {state after : State}
    {fault : Fault} (blame : Blame production limit state after fault) :
    call.MayFailWith fault := by
  cases blame with
  | head broken arises => exact mayFail_of_arises call arises _ _
  | nesting => trivial
  | name before name line split alone =>
    exact ⟨by decide, by decide, by decide, fun period => by cases period⟩

theorem mayFail_of_failed {call : Call} {limit : Nat} {tokens : List LocatedToken}
    {table : SymbolTable} {fault : Fault} {after : State}
    (failed : call.run limit (start tokens table) = .error fault after) :
    call.MayFailWith fault := by
  rcases failure_of_call failed with blame | ⟨whole, rfl⟩
  · exact mayFail_of_blame call blame
  · exact ⟨by decide, by decide, by decide, fun _ => whole⟩

theorem lineBetween_bounds {first last : Nat} {taken left : List LocatedToken}
    (within : ∀ located ∈ taken ++ left, first ≤ located.line ∧ located.line ≤ last)
    (own : first ≤ firstLine ∧ firstLine ≤ last) :
    first ≤ lineBetween taken left ∧ lineBetween taken left ≤ last := by
  unfold lineBetween
  cases here : left.head?.or taken.getLast? with
  | none => exact own
  | some located =>
    apply within located
    rcases Option.or_eq_some_iff.mp here with ahead | ⟨_, behind⟩
    · exact List.mem_append_right taken (List.mem_of_mem_head? ahead)
    · exact List.mem_append_left left (List.mem_of_getLast? behind)

/-- Over tokens that stand on the lines of a text, the fault of a call is on one of them. -/
theorem placed_of_failed {call : Call} {limit : Nat} {tokens : List LocatedToken}
    {table : SymbolTable} {fault : Fault} {after : State} {source : String}
    (failed : call.run limit (start tokens table) = .error fault after)
    (within : ∀ located ∈ tokens,
      firstLine ≤ located.line ∧ located.line ≤ firstLine + Text.lineEnds source.toList) :
    fault.IsPlacedIn source := by
  have place := place_of_call call limit tokens table
  rw [failed] at place
  obtain ⟨taken, split, between⟩ : ∃ taken, tokens = taken ++ after.stream.tokens ∧
    after.stream.line = lineBetween taken after.stream.tokens := place
  have here : firstLine ≤ after.stream.line ∧
      after.stream.line ≤ firstLine + Text.lineEnds source.toList := by
    rw [between]
    apply lineBetween_bounds _ ⟨Nat.le_refl _, Nat.le_add_right _ _⟩
    rwa [← split]
  rcases failure_of_call failed with blame | ⟨_, rfl⟩
  · cases blame with
    | head broken arises => exact here
    | nesting => exact here
    | name before name line split alone =>
      have named : tokens = before ++ ⟨.identifier name, line⟩ :: after.stream.tokens := split
      apply within ⟨.identifier name, line⟩
      rw [named]
      exact List.mem_append_right before List.mem_cons_self
  · exact here

end Parser

theorem Scan.fault?_of_result {scan : Scan} {fault : Fault} (failed : scan.result = .error fault) :
    scan.fault? = some fault := by
  unfold result at failed
  split at failed
  · cases failed
  · next own =>
    cases failed
    exact own

theorem Scan.fault?_of_scanned {scan : Scan} {tokens : List LocatedToken}
    (scanned : scan.result = .ok tokens) : scan.fault? = none ∧ scan.tokens = tokens := by
  unfold result at scanned
  split at scanned
  · next none =>
    cases scanned
    exact ⟨none, rfl⟩
  · cases scanned

section Runs

variable {source : String}

theorem Run.ofSource_unscanned {fault : Fault}
    (unscanned : (Scan.ofSource firstLine source).result = .error fault) (limit : Nat) :
    ofSource limit source =
      ⟨Scan.ofSource firstLine source, .error fault, (Scan.ofSource firstLine source).events⟩ := by
  unfold ofSource
  simp only [unscanned]

theorem Run.ofSource_scanned {tokens : List LocatedToken} {limit : Nat}
    {outcome : EStateM.Result Fault Parser.State Block}
    (scanned : (Scan.ofSource firstLine source).result = .ok tokens)
    (parsed : Parser.parseProgram limit (Parser.start tokens .empty) = outcome) :
    ofSource limit source =
      ⟨Scan.ofSource firstLine source, Parser.result outcome,
        (Scan.ofSource firstLine source).events ++ (Parser.stateAfter outcome).log.reverse⟩ := by
  unfold ofSource
  simp only [scanned, parsed]

end Runs

theorem result_of_run (limit : Nat) (source : String) :
    (Run.ofSource limit source).result =
      (Scan.ofSource firstLine source).result.bind fun tokens =>
        Parser.result (Parser.parseProgram limit (Parser.start tokens .empty)) := by
  cases scanned : (Scan.ofSource firstLine source).result with
  | error own =>
    rw [Run.ofSource_unscanned scanned]
    rfl
  | ok tokens =>
    rw [Run.ofSource_scanned scanned rfl]
    rfl

/-- A scan that fails does so on a line of the text, and so does a call over what was scanned. -/
theorem placed_of_source {limit : Nat} {source : String} {fault : Fault} (call : Parser.Call)
    (inMemory : Text.FitsInMemory source)
    (failed : ((Scan.ofSource firstLine source).result.bind fun tokens =>
      Parser.result (call.run limit (Parser.start tokens .empty))) = .error fault) :
    fault.IsPlacedIn source := by
  have lines := Scan.ofSource_staysWithin (Text.lines_fit inMemory)
  cases scanned : (Scan.ofSource firstLine source).fault? with
  | some own =>
    obtain ⟨digits, line, rfl, bounds⟩ := lines.fault own scanned
    rw [Scan.result, scanned] at failed
    cases failed
    exact bounds
  | none =>
    rw [Scan.result, scanned] at failed
    cases outcome : call.run limit
        (Parser.start (Scan.ofSource firstLine source).tokens .empty) with
    | ok answer after =>
      simp only [Except.bind, outcome] at failed
      cases failed
    | error other after =>
      simp only [Except.bind, outcome] at failed
      cases failed
      exact Parser.placed_of_failed outcome lines.tokens

/-- A call fails over the nesting or a broken rule, and over four of the rules never. Whatever is
wrong with a text in memory, it is reported on one of its lines. -/
theorem faults_are_foreseen_and_placed (limit : Nat) :
    (∀ (tokens : List LocatedToken) (table : SymbolTable) (call : Parser.Call) (fault : Fault),
      Parser.result (call.run limit (Parser.start tokens table)) = .error fault →
        call.MayFailWith fault) ∧
    ∀ (source : String) (fault : Fault), Text.FitsInMemory source →
      check limit source = .error fault ∨ (Run.ofSource limit source).result = .error fault →
        fault.IsPlacedIn source := by
  constructor
  · intro tokens table call fault failed
    cases outcome : call.run limit (Parser.start tokens table) with
    | ok answer after =>
      rw [outcome] at failed
      cases failed
    | error other after =>
      rw [outcome] at failed
      cases failed
      exact Parser.mayFail_of_failed outcome
  · rintro source fault inMemory (failed | failed)
    · exact placed_of_source .parse inMemory failed
    · rw [result_of_run] at failed
      exact placed_of_source .program inMemory failed

instance decidableEqOutcome {ε α : Type} [DecidableEq ε] [DecidableEq α] :
    DecidableEq (Except ε α)
  | .ok value, .ok other => decidable_of_iff (value = other) (by simp)
  | .error fault, .error other => decidable_of_iff (fault = other) (by simp)
  | .ok _, .error _ => isFalse (by simp)
  | .error _, .ok _ => isFalse (by simp)

def lostName : String := "VAR a;\r\nBEGIN\n  b = 1"

/-- The name is reported on the last line of the text. A program of no tokens only lacks its
period. -/
theorem fault_on_last_line :
    check 8 lostName = .error (.violation .undeclared 3 (some "b")) ∧
      firstLine + Text.lineEnds lostName.toList = 3 ∧
      Fault.IsPlacedIn lostName (.violation .undeclared 3 (some "b")) ∧
      Parser.Call.program.MayFailWith (.violation .missingPeriod 1 none) := by
  have foreseen := faults_are_foreseen_and_placed 8
  have checked : check 8 lostName = .error (.violation .undeclared 3 (some "b")) := by
    decide +kernel
  have lines : firstLine + Text.lineEnds lostName.toList = 3 := by decide +kernel
  have inMemory : Text.FitsInMemory lostName := by
    unfold Text.FitsInMemory
    decide +kernel
  have placed : Fault.IsPlacedIn lostName (.violation .undeclared 3 (some "b")) :=
    foreseen.2 lostName _ inMemory (.inl checked)
  have failed : Parser.result (Parser.Call.program.run 8 (Parser.start [] .empty)) =
      .error (.violation .missingPeriod 1 none) := rfl
  exact ⟨checked, lines, placed, foreseen.1 [] .empty .program _ failed⟩

end PlZero
