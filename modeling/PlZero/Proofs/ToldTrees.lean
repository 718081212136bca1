import PlZero.Proofs.Diagnoses
import PlZero.Proofs.Narration
import PlZero.Syntax.Node

/-!
# Trees that are told

What a successful run tells mirrors the tree that it gives, though the one is told on the
way into the blocks and the other is folded together on the way out. After the block of the
program there is one pair of messages for each procedure, in the preorder of the tree: its
name with the line where the name stands, and that its body was entered. The number of open
scopes is that of the procedure bodies around, and two more for the block of the program and
the body itself.
-/

namespace PlZero

set_option autoImplicit false

/-- A procedure of a program: its name, the line where the name is declared, and how many procedure
bodies lie around the declaration. -/
structure ProcedureSite where
  name : String
  line : Nat
  around : Nat
  deriving DecidableEq, Repr

def ProcedureSite.events (site : ProcedureSite) : List Event :=
  [.procedureDeclared site.name site.line, .blockEntered (site.around + 2)]

def ProcedureSite.messages (site : ProcedureSite) : List String :=
  [s!"procedure '{site.name}' declared in line {site.line}",
    s!"block entered, {site.around + 2} scopes open"]

/-- The procedures of a block with the number of bodies around each: a procedure, then those in its
body, then those that come after it. -/
def Block.declared (around : Nat) : Block → List (String × Nat)
  | procedure name body rest =>
    (name, around) :: (body.declared (around + 1) ++ rest.declared around)
  | statement _ => []

def Mark.procedure? : Mark → Option (String × Nat)
  | declare .procedure name line => some (name, line)
  | _ => none

def Node.procedureName? : Node → Option String
  | block (.procedure name _ _) => some name
  | _ => none

section Preorder

theorem Expression.preorder_unnamed (expression : Expression) :
    ∀ node ∈ expression.preorder, node.procedureName? = none := by
  induction expression with
  | number value | identifier name => exact List.forall_mem_singleton.mpr rfl
  | arithmetic operator left right ihLeft ihRight | relation comparison left right ihLeft ihRight =>
    exact List.forall_mem_cons.mpr ⟨rfl, List.forall_mem_append.mpr ⟨ihLeft, ihRight⟩⟩
  | negate operand ih | odd operand ih => exact List.forall_mem_cons.mpr ⟨rfl, ih⟩

theorem Statement.preorder_unnamed (statement : Statement) :
    ∀ node ∈ statement.preorder, node.procedureName? = none := by
  induction statement with
  | ifThen condition body ih | whileDo condition body ih =>
    exact List.forall_mem_cons.mpr
      ⟨rfl, List.forall_mem_append.mpr ⟨condition.preorder_unnamed, ih⟩⟩
  | assign name value | print value =>
    exact List.forall_mem_cons.mpr ⟨rfl, value.preorder_unnamed⟩
  | pair first second ihFirst ihSecond =>
    exact List.forall_mem_cons.mpr ⟨rfl, List.forall_mem_append.mpr ⟨ihFirst, ihSecond⟩⟩
  | call name | read name | pass => exact List.forall_mem_singleton.mpr rfl

/-- The procedures of a block are its procedure nodes in preorder. -/
theorem Block.declared_names (block : Block) (around : Nat) :
    (block.declared around).map Prod.fst = block.preorder.filterMap Node.procedureName? := by
  induction block generalizing around with
  | procedure name body rest ihBody ihRest =>
    simp only [declared, preorder, List.map_cons, List.map_append, List.filterMap_cons,
      List.filterMap_append, Node.procedureName?, ihBody, ihRest]
  | statement final =>
    have inside : final.preorder.filterMap Node.procedureName? = [] :=
      List.filterMap_eq_nil_iff.mpr final.preorder_unnamed
    rw [preorder, List.filterMap_cons, inside]
    rfl

end Preorder

/-- The procedures that some marks of a derivation declare where so many scopes are open, on the
lines where the marks have them and as deep as they stand in a tree. Each is told of in turn, and
as many scopes are open after the marks. -/
structure Lists (depth : Nat) (marks : List Mark) (sites : List ProcedureSite)
    (declared : List (String × Nat)) : Prop where
  lines : sites.map (fun site => (site.name, site.line)) = marks.filterMap Mark.procedure?
  nesting : sites.map (fun site => (site.name, site.around)) = declared
  told : toldOf depth marks = sites.flatMap ProcedureSite.events
  depth : depthAfterAll depth marks = depth

section Derivations

theorem lists_append {depth : Nat} {sites more : List ProcedureSite} {marks others : List Mark}
    {declared further : List (String × Nat)} (one : Lists depth marks sites declared)
    (other : Lists depth others more further) :
    Lists depth (marks ++ others) (sites ++ more) (declared ++ further) where
  lines := by rw [List.map_append, List.filterMap_append, one.lines, other.lines]
  nesting := by rw [List.map_append, one.nesting, other.nesting]
  told := by rw [toldOf_append, one.depth, one.told, other.told, List.flatMap_append]
  depth := by rw [depthAfterAll_append, one.depth, other.depth]

theorem Mark.procedures_bordered (marks : List Mark) :
    (enter :: (marks ++ [leave])).filterMap procedure? = marks.filterMap procedure? := by
  have tail : [leave].filterMap procedure? = [] := rfl
  have head : (enter :: (marks ++ [leave])).filterMap procedure? =
      (marks ++ [leave]).filterMap procedure? := rfl
  rw [head, List.filterMap_append, tail, List.append_nil]

theorem Mark.IsData.procedure? {mark : Mark} (isData : mark.IsData) : mark.procedure? = none := by
  cases mark with
  | declare kind name line => cases kind <;> first | rfl | exact isData.elim
  | _ => rfl

theorem lists_data (depth : Nat) {marks : List Mark} (isData : MadeOf Mark.IsData marks) :
    Lists depth marks [] [] where
  lines := (List.filterMap_eq_nil_iff.mpr fun mark member => (isData mark member).procedure?).symm
  nesting := rfl
  told := toldOf_data isData depth
  depth := depthAfterAll_data isData depth

/-- A declaration of a procedure tells its head, that the body is entered, and what is told
inside. -/
theorem lists_procedure {around : Nat} {inner : List Mark} {sites : List ProcedureSite}
    {declared : List (String × Nat)} (inside : Lists (around + 2) inner sites declared)
    (text : String) (line : Nat) (name : String) (nameLine opening closing : Nat) :
    Lists (around + 1)
      (.keyword .procedureKw text line :: .declare .procedure name nameLine ::
        .symbol ';' opening :: ((.enter :: (inner ++ [.leave])) ++ [.symbol ';' closing]))
      (⟨name, nameLine, around⟩ :: sites) ((name, around) :: declared) where
  lines := by
    have head (rest : List Mark) : List.filterMap Mark.procedure?
        (.keyword .procedureKw text line :: .declare .procedure name nameLine ::
          .symbol ';' opening :: rest) = (name, nameLine) :: rest.filterMap Mark.procedure? := rfl
    have tail : List.filterMap Mark.procedure? [.symbol ';' closing] = [] := rfl
    rw [head, List.filterMap_append, Mark.procedures_bordered, tail, List.append_nil,
      List.map_cons, inside.lines]
  nesting := by rw [List.map_cons, inside.nesting]
  told := by
    have head (rest : List Mark) : toldOf (around + 1)
        (.keyword .procedureKw text line :: .declare .procedure name nameLine ::
          .symbol ';' opening :: rest) =
        .procedureDeclared name nameLine :: toldOf (around + 1) rest := rfl
    have tail (depth : Nat) : toldOf depth [.symbol ';' closing] = [] := rfl
    rw [head, toldOf_append, toldOf_bordered, inside.told, tail, List.append_nil]
    rfl
  depth := by
    have whole (rest : List Mark) : depthAfterAll (around + 1)
        (.keyword .procedureKw text line :: .declare .procedure name nameLine ::
          .symbol ';' opening :: rest) = depthAfterAll (around + 1) rest := rfl
    rw [whole, depthAfterAll_append, depthAfterAll_bordered, inside.depth]
    rfl

def ListsBlocks (grammar : Grammar Block) : Prop :=
  ∀ marks block, grammar marks block → ∀ around, ∃ inner sites,
    marks = .enter :: (inner ++ [.leave]) ∧ Lists (around + 1) inner sites (block.declared around)

theorem lists_procedures {grammar : Grammar Block} (inside : ListsBlocks grammar)
    {marks : List Mark} {declared : List (String × Block)}
    (derived : Repeated (IsProcedure grammar) marks declared) (final : Statement) (around : Nat) :
    ∃ sites, Lists (around + 1) marks sites
      ((Block.ofProcedures declared final).declared around) := by
  induction derived with
  | none => exact ⟨[], lists_data _ madeOf_nil⟩
  | more first others ih =>
    obtain ⟨more, further⟩ := ih
    cases first with
    | mk text line name nameLine opening closing one =>
      obtain ⟨inner, sites, rfl, body⟩ := inside _ _ one (around + 1)
      exact ⟨_, lists_append (lists_procedure body text line name nameLine opening closing) further⟩

theorem lists_block (height : Nat) : ListsBlocks (IsBlock height) := by
  induction height with
  | zero => exact fun _ _ derived => derived.elim
  | succ height ih =>
    intro marks block derived around
    cases derived with
    | mk inside =>
      cases inside with
      | @mk _ _ _ _ _ final first second third last =>
        have variablePart := lists_data (around + 1) <|
          declarationPart_consistsOf Mark.data_ordinary .varKw
            (variable_consistsOf fun _ _ => trivial) _ _ first
        have constantPart := lists_data (around + 1) <|
          declarationPart_consistsOf Mark.data_ordinary .constKw
            (constant_consistsOf Mark.data_ordinary fun _ _ => trivial) _ _ second
        have statement := lists_data (around + 1) <|
          statement_consistsOf Mark.data_ordinary height _ _ last
        obtain ⟨sites, procedures⟩ := lists_procedures ih third final around
        have whole := lists_append variablePart <| lists_append constantPart <|
          lists_append procedures statement
        rw [List.append_nil, List.append_nil] at whole
        exact ⟨_, sites, rfl, whole⟩

end Derivations

namespace Parser

variable {limit : Nat} {tokens : List LocatedToken} {table : SymbolTable}

def toldOfRest (rest : List LocatedToken) : List Event :=
  if rest.length ≠ 0 then [.trailing rest.length] else []

theorem log_of_finish (block : Block) {state : State} {line : Nat} {rest : List LocatedToken}
    (ahead : state.stream.tokens = ⟨.symbol '.', line⟩ :: rest) :
    ∃ after, finish block state = .ok ⟨block, true⟩ after ∧
      after.log = .parsed true :: (toldOfRest rest ++ state.log) := by
  have found : (Token.symbol '.').isSymbol '.' = true := rfl
  rw [finish, bind_apply, period, bind_apply, atSymbol_apply, peek?_of_tokens ahead,
    Option.any_some, found]
  simp only [if_true]
  rw [advance_then ahead]
  cases rest with
  | nil => exact ⟨_, rfl, rfl⟩
  | cons head tail => exact ⟨_, rfl, rfl⟩

/-- A program that is read tells how many tokens it was given, what the marks of its block say, what
is left behind the period, and that it was accepted. -/
theorem log_of_program {block : Block} {after : State}
    (ran : parseProgram limit (start tokens table) = .ok block after) :
    ∃ marks line rest, IsBlock limit marks block ∧
      tokens = tokensOf marks ++ ⟨.symbol '.', line⟩ :: rest ∧
      after.log.reverse =
        .parsing tokens.length ::
          (toldOf table.depth marks ++ (toldOfRest rest ++ [.parsed true])) := by
  obtain ⟨outcome, middle, parsed, ended⟩ := ok_of_bind ran
  rw [parse_apply] at parsed
  obtain ⟨value, inside, ranBlock, finished⟩ := ok_of_bind parsed
  obtain ⟨marks, derived, tale, _⟩ := narrates_block limit _ value inside ranBlock
  obtain ⟨line, rest, ahead⟩ | other := period_ahead_or_other inside.stream.tokens
  · obtain ⟨last, accepted, log⟩ := log_of_finish value ahead
    rw [accepted] at finished
    cases finished
    cases ended
    refine ⟨marks, line, rest, derived, ?_, ?_⟩
    · rw [← ahead]
      exact tale.tokens
    · have told : inside.log = (toldOf table.depth marks).reverse ++ [.parsing tokens.length] :=
        tale.log
      have once : (toldOfRest rest).reverse = toldOfRest rest := by
        unfold toldOfRest
        split <;> rfl
      rw [log, told]
      simp [once]
  · obtain ⟨last, refused, _⟩ := finish_of_other value other
    rw [refused] at finished
    cases finished
    cases ended

end Parser

theorem ProcedureSite.events_shown (sites : List ProcedureSite) :
    ∀ event ∈ sites.flatMap events, event.isShownAt .debug = true := by
  intro event member
  obtain ⟨site, _, own⟩ := List.mem_flatMap.mp member
  simp only [events, List.mem_cons, List.not_mem_nil, or_false] at own
  rcases own with rfl | rfl <;> rfl

theorem ProcedureSite.messages_of_events (sites : List ProcedureSite) :
    (sites.flatMap events).map Event.message = sites.flatMap messages := by
  rw [List.map_flatMap]
  rfl

/-- Of a scan that came to the end of the text, a listing without the tokens holds the totals
only. -/
theorem Scan.events_shown {scan : Scan} {tokens : List LocatedToken}
    (scanned : scan.result = .ok tokens) :
    (scan.events.filter fun event => event.isShownAt .debug) =
      [.scanned tokens.length scan.line] := by
  obtain ⟨none, rfl⟩ := fault?_of_scanned scanned
  have hidden : ((scan.tokens.map Event.tokenRead).filter fun event =>
      event.isShownAt .debug) = [] := by
    refine List.filter_eq_nil_iff.mpr fun event member => ?_
    obtain ⟨located, _, rfl⟩ := List.mem_map.mp member
    exact Bool.false_ne_true
  rw [events, none, List.filter_append, hidden]
  rfl

def ignoredMessages (rest : List LocatedToken) : List String :=
  if rest.length = 0 then [] else [s!"{rest.length} tokens after '.' ignored"]

theorem toldOfRest_shown (rest : List LocatedToken) :
    ∀ event ∈ Parser.toldOfRest rest, event.isShownAt .debug = true := by
  unfold Parser.toldOfRest
  split
  · exact List.forall_mem_singleton.mpr rfl
  · exact List.forall_mem_nil _

theorem messages_of_rest (rest : List LocatedToken) :
    (Parser.toldOfRest rest).map Event.message = ignoredMessages rest := by
  rw [Parser.toldOfRest, ignoredMessages, ite_not]
  split <;> rfl

/-- A run that succeeds tells of each procedure of the tree once, in preorder. -/
theorem told_in_preorder (limit : Nat) (source : String) (block : Block)
    (accepted : (Run.ofSource limit source).result = .ok block) :
    let run := Run.ofSource limit source
    ∃ (marks : List Mark) (line : Nat) (rest : List LocatedToken) (sites : List ProcedureSite),
      IsBlock limit marks block ∧
      run.scan.tokens = tokensOf marks ++ ⟨.symbol '.', line⟩ :: rest ∧
      sites.map (fun site => (site.name, site.line)) = marks.filterMap Mark.procedure? ∧
      sites.map (fun site => (site.name, site.around)) = block.declared 0 ∧
      (block.declared 0).map Prod.fst = block.preorder.filterMap Node.procedureName? ∧
      (run.listing (some .debug)).map Event.message =
        s!"lexer produced {run.scan.tokens.length} tokens over {run.scan.line} lines" ::
          s!"parsing {run.scan.tokens.length} tokens" :: "block entered, 1 scopes open" ::
            (sites.flatMap ProcedureSite.messages ++
              (ignoredMessages rest ++ ["parse finished, accepted: true"])) := by
  intro run
  have result := result_of_run limit source
  cases scanned : (Scan.ofSource firstLine source).result with
  | error fault =>
    rw [accepted, scanned] at result
    cases result
  | ok tokens =>
    rw [accepted, scanned] at result
    obtain ⟨after, ran⟩ := Parser.ok_of_result result.symm
    obtain ⟨_, read⟩ := Scan.fault?_of_scanned scanned
    obtain ⟨marks, line, rest, derived, split, log⟩ := Parser.log_of_program ran
    obtain ⟨inner, sites, rfl, lists⟩ := lists_block limit marks block derived 0
    have whole : run = ⟨Scan.ofSource firstLine source, .ok block,
        (Scan.ofSource firstLine source).events ++ after.log.reverse⟩ :=
      Run.ofSource_scanned scanned ran
    have own : toldOf SymbolTable.empty.depth (.enter :: (inner ++ [.leave])) =
        .blockEntered 1 :: sites.flatMap ProcedureSite.events := by
      rw [← lists.told]
      exact toldOf_bordered 0 inner
    rw [whole]
    refine ⟨_, line, rest, sites, derived, read.trans split, ?_, lists.nesting,
      block.declared_names 0, ?_⟩
    · rw [lists.lines, Mark.procedures_bordered]
    · have shown : ∀ event ∈ after.log.reverse, event.isShownAt .debug = true := by
        rw [log, own, List.cons_append, List.forall_mem_cons, List.forall_mem_cons,
          List.forall_mem_append, List.forall_mem_append, List.forall_mem_singleton]
        exact ⟨rfl, rfl, ProcedureSite.events_shown sites, toldOfRest_shown rest, rfl⟩
      rw [Run.listing, List.filter_append, Scan.events_shown scanned,
        List.filter_eq_self.mpr shown, log, own]
      simp only [List.map_cons, List.map_append, List.cons_append, List.map_nil, List.nil_append,
        ProcedureSite.messages_of_events, messages_of_rest, read]
      rfl

/-- A procedure with one inside it, a second one whose name is on another line than its reserved
word, and a word behind the period. -/
def nestedProcedures : String :=
  "VAR a;\nPROCEDURE p;\n  PROCEDURE q; a = 1;\n  CALL q;\nPROCEDURE\n  r; PASS;\nCALL p. a"

def nestedTree : Block :=
  .procedure "p" (.procedure "q" (.statement (.assign "a" (.number 1))) (.statement (.call "q")))
    (.procedure "r" (.statement .pass) (.statement (.call "p")))

theorem nested_procedures_are_told :
    (Run.ofSource 8 nestedProcedures).result = .ok nestedTree ∧
      ∃ (marks : List Mark) (sites : List ProcedureSite), IsBlock 8 marks nestedTree ∧
        sites.map (fun site => (site.name, site.line)) = marks.filterMap Mark.procedure? ∧
        sites.map (fun site => (site.name, site.around)) = [("p", 0), ("q", 1), ("r", 0)] ∧
        ((Run.ofSource 8 nestedProcedures).listing (some .debug)).map Event.message =
          ["lexer produced 25 tokens over 7 lines", "parsing 25 tokens",
            "block entered, 1 scopes open",
            "procedure 'p' declared in line 2", "block entered, 2 scopes open",
            "procedure 'q' declared in line 3", "block entered, 3 scopes open",
            "procedure 'r' declared in line 6", "block entered, 2 scopes open",
            "1 tokens after '.' ignored", "parse finished, accepted: true"] := by
  have accepted : (Run.ofSource 8 nestedProcedures).result = .ok nestedTree := by decide +kernel
  obtain ⟨marks, _, _, sites, derived, _, lines, nesting, _, _⟩ :=
    told_in_preorder 8 nestedProcedures nestedTree accepted
  exact ⟨accepted, marks, sites, derived, lines, nesting, by decide +kernel⟩

end PlZero
