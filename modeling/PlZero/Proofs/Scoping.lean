import PlZero.Parser.Steps
import PlZero.Proofs.Grammar

/-!
# The rules about names

A pass over the marks of a derivation, in token order, that checks every name
under lexical scoping. A block has one scope. A name may be declared once in a
scope, and a use means the innermost binding there is at that point; what no scope
binds is left to the surroundings. The pass ends at the first name that breaks a
rule. A derivation obeys the rules if every mark of it is in order with the scopes
that are open before it, and that is so exactly if the pass meets nothing.

While a program is read, the scopes of its blocks lie as segments on top of the
symbol table it was started with, whatever that table looks like inside.
-/

namespace PlZero

set_option autoImplicit false

/-- The open scopes of a program, innermost first, each newest binding first. -/
abbrev Scopes := List (List Symbol)

def Usage.violation? : Usage → Option SymbolKind → Option Violation
  | _, none => some .undeclared
  | .integer, some .procedure => some .notInteger
  | .integer, some _ => none
  | .procedure, some .procedure => none
  | .procedure, some _ => some .notProcedure

namespace Scopes

/-- What the innermost binding of a name stands for, with what the surroundings bind. -/
def lookup? (outer : String → Option SymbolKind) (scopes : Scopes) (name : String) :
    Option SymbolKind :=
  match scopes.flatten.find? fun symbol => symbol.name == name with
  | some symbol => some symbol.kind
  | none => outer name

/-- The rule about names that a mark breaks where it stands, if it breaks one. -/
def fault? (outer : String → Option SymbolKind) (scopes : Scopes) : Mark → Option Fault
  | .declare _ name line =>
    if (scopes.headD []).any fun symbol => symbol.name == name then
      some (.violation .doubleDeclaration line (some name))
    else
      none
  | .use usage name line =>
    (usage.violation? (lookup? outer scopes name)).map fun broken =>
      .violation broken line (some name)
  | _ => none

def after (scopes : Scopes) : Mark → Scopes
  | .declare kind name line => (⟨name, kind, line⟩ :: scopes.headD []) :: scopes.tail
  | .enter => [] :: scopes
  | .leave => scopes.tail
  | _ => scopes

def afterAll (scopes : Scopes) (marks : List Mark) : Scopes := marks.foldl after scopes

end Scopes

/-- Each mark of a whole derivation is in order with the scopes that are open before it. -/
def ObeysScoping (outer : String → Option SymbolKind) (marks : List Mark) : Prop :=
  ∀ before mark rest, marks = before ++ mark :: rest →
    Scopes.fault? outer (Scopes.afterAll [] before) mark = none

/-- The first name that breaks a rule, and the marks that are not read by then. A name is
read before it is declared, and used before it is read. -/
structure Finding where
  fault : Fault
  unread : List Mark

def Mark.unread (mark : Mark) (rest : List Mark) : List Mark :=
  match mark with
  | .declare .. => rest
  | _ => mark :: rest

/-- The pass over the names of some marks. It ends with the scopes that are open after them
or at the first finding. -/
def Scopes.pass (outer : String → Option SymbolKind) (scopes : Scopes) :
    List Mark → Except Finding Scopes
  | [] => .ok scopes
  | mark :: rest =>
    match fault? outer scopes mark with
    | some fault => .error ⟨fault, mark.unread rest⟩
    | none => pass outer (scopes.after mark) rest

namespace Scopes

variable {outer : String → Option SymbolKind}

theorem fault?_declare (scope : List Symbol) (around : Scopes) (kind : SymbolKind) (name : String)
    (line : Nat) :
    fault? outer (scope :: around) (.declare kind name line) =
      if scope.any fun symbol => symbol.name == name then
        some (.violation .doubleDeclaration line (some name))
      else
        none := rfl

theorem pass_append (scopes : Scopes) (first second : List Mark) :
    pass outer scopes (first ++ second) =
      match pass outer scopes first with
      | .ok middle => pass outer middle second
      | .error finding => .error ⟨finding.fault, finding.unread ++ second⟩ := by
  induction first generalizing scopes with
  | nil => rfl
  | cons mark first ih =>
    simp only [List.cons_append, pass]
    cases fault? outer scopes mark with
    | none => exact ih (scopes.after mark)
    | some fault => cases mark <;> rfl

theorem pass_bordered (scopes : Scopes) (marks : List Mark) :
    pass outer scopes (.enter :: (marks ++ [.leave])) =
      match pass outer ([] :: scopes) marks with
      | .ok last => .ok last.tail
      | .error finding => .error ⟨finding.fault, finding.unread ++ [.leave]⟩ := by
  have entered : pass outer scopes (.enter :: (marks ++ [.leave])) =
      pass outer ([] :: scopes) (marks ++ [.leave]) := rfl
  rw [entered, pass_append]
  rfl

theorem pass_eq_afterAll {scopes last : Scopes} {marks : List Mark}
    (clean : pass outer scopes marks = .ok last) : last = afterAll scopes marks := by
  induction marks generalizing scopes with
  | nil =>
    cases clean
    rfl
  | cons mark marks ih =>
    simp only [pass] at clean
    cases found : fault? outer scopes mark with
    | none =>
      rw [found] at clean
      exact ih clean
    | some fault =>
      rw [found] at clean
      cases clean

theorem pass_clean_iff (scopes : Scopes) (marks : List Mark) :
    pass outer scopes marks = .ok (afterAll scopes marks) ↔
      ∀ before mark rest, marks = before ++ mark :: rest →
        fault? outer (afterAll scopes before) mark = none := by
  induction marks generalizing scopes with
  | nil => simp [pass, afterAll]
  | cons mark marks ih =>
    simp only [pass]
    constructor
    · intro clean before other rest split
      cases found : fault? outer scopes mark with
      | some fault =>
        rw [found] at clean
        cases clean
      | none =>
        rw [found] at clean
        cases before with
        | nil =>
          obtain ⟨rfl, _⟩ := List.cons.inj split
          exact found
        | cons first before =>
          obtain ⟨rfl, inner⟩ := List.cons.inj split
          exact (ih (scopes.after mark)).mp clean before other rest inner
    · intro inOrder
      have found : fault? outer scopes mark = none := inOrder [] mark marks rfl
      rw [found]
      apply (ih (scopes.after mark)).mpr
      intro before other rest split
      exact inOrder (mark :: before) other rest (by rw [split, List.cons_append])

/-- A finding of the pass is about the first mark that is not in order where it stands. -/
theorem pass_finding_iff (scopes : Scopes) (marks : List Mark) (finding : Finding) :
    pass outer scopes marks = .error finding ↔
      ∃ before mark rest, marks = before ++ mark :: rest ∧
        pass outer scopes before = .ok (afterAll scopes before) ∧
        fault? outer (afterAll scopes before) mark = some finding.fault ∧
        finding.unread = mark.unread rest := by
  constructor
  · intro found
    induction marks generalizing scopes with
    | nil => cases found
    | cons mark marks ih =>
      rw [pass] at found
      cases judged : fault? outer scopes mark with
      | some fault =>
        rw [judged] at found
        cases found
        exact ⟨[], mark, marks, rfl, rfl, judged, rfl⟩
      | none =>
        rw [judged] at found
        obtain ⟨before, other, rest, rfl, clean, violated, left⟩ := ih _ found
        refine ⟨mark :: before, other, rest, rfl, ?_, violated, left⟩
        rw [pass, judged]
        exact clean
  · rintro ⟨before, mark, rest, rfl, clean, violated, left⟩
    rw [pass_append, clean]
    simp only [pass, violated, ← left]

def Allows (outer : String → Option SymbolKind) (scopes : Scopes) (usage : Usage) (name : String) :
    Prop := usage.violation? (lookup? outer scopes name) = none

theorem pass_then {scopes middle last : Scopes} {first second : List Mark}
    (one : pass outer scopes first = .ok middle) (other : pass outer middle second = .ok last) :
    pass outer scopes (first ++ second) = .ok last := by
  rw [pass_append, one]
  exact other

@[simp] theorem pass_nil (scopes : Scopes) : pass outer scopes [] = .ok scopes := rfl

@[simp] theorem pass_plain (scopes : Scopes) (located : LocatedToken) (rest : List Mark) :
    pass outer scopes (.plain located :: rest) = pass outer scopes rest := rfl

@[simp] theorem pass_symbol (scopes : Scopes) (char : Char) (line : Nat) (rest : List Mark) :
    pass outer scopes (.symbol char line :: rest) = pass outer scopes rest := rfl

@[simp] theorem pass_keyword (scopes : Scopes) (keyword : Keyword) (text : String) (line : Nat)
    (rest : List Mark) :
    pass outer scopes (.keyword keyword text line :: rest) = pass outer scopes rest := rfl

theorem pass_use {scopes : Scopes} {usage : Usage} {name : String}
    (allowed : Allows outer scopes usage name) (line : Nat) (rest : List Mark) :
    pass outer scopes (.use usage name line :: rest) = pass outer scopes rest := by
  have inOrder : fault? outer scopes (.use usage name line) = none := by
    rw [fault?, allowed]
    rfl
  rw [pass, inOrder]
  rfl

theorem pass_declare {scope : List Symbol} {name : String}
    (fresh : name ∉ scope.map Symbol.name) (around : Scopes) (kind : SymbolKind) (line : Nat)
    (rest : List Mark) :
    pass outer (scope :: around) (.declare kind name line :: rest) =
      pass outer ((⟨name, kind, line⟩ :: scope) :: around) rest := by
  have inOrder : ¬ (scope.any fun symbol => symbol.name == name) = true := by
    simpa [List.any_eq_true] using fun symbol member same =>
      fresh (List.mem_map.mpr ⟨symbol, member, same⟩)
  rw [pass, fault?_declare, if_neg inOrder]
  rfl

theorem lookup?_declared (scope : List Symbol) (around : Scopes) (symbol : Symbol) (name : String) :
    lookup? outer ((symbol :: scope) :: around) name =
      if symbol.name = name then some symbol.kind else lookup? outer (scope :: around) name := by
  unfold lookup?
  by_cases same : symbol.name = name <;> simp [same]

theorem clean_cons {scopes last : Scopes} {mark : Mark} {rest : List Mark}
    (clean : pass outer scopes (mark :: rest) = .ok last) :
    fault? outer scopes mark = none ∧ pass outer (scopes.after mark) rest = .ok last := by
  rw [pass] at clean
  cases judged : fault? outer scopes mark with
  | none =>
    rw [judged] at clean
    exact ⟨rfl, clean⟩
  | some fault =>
    rw [judged] at clean
    cases clean

theorem clean_append {scopes last : Scopes} {first second : List Mark}
    (clean : pass outer scopes (first ++ second) = .ok last) :
    ∃ middle, pass outer scopes first = .ok middle ∧ pass outer middle second = .ok last := by
  rw [pass_append] at clean
  cases early : pass outer scopes first with
  | ok middle =>
    rw [early] at clean
    exact ⟨middle, rfl, clean⟩
  | error finding =>
    rw [early] at clean
    cases clean

theorem clean_bordered {scopes last : Scopes} {marks : List Mark}
    (clean : pass outer scopes (.enter :: (marks ++ [.leave])) = .ok last) :
    ∃ inner, pass outer ([] :: scopes) marks = .ok inner ∧ last = inner.tail := by
  rw [pass_bordered] at clean
  cases inside : pass outer ([] :: scopes) marks with
  | ok inner =>
    rw [inside] at clean
    cases clean
    exact ⟨inner, rfl, rfl⟩
  | error finding =>
    rw [inside] at clean
    cases clean

theorem fresh_of_declare {scope : List Symbol} {around : Scopes} {kind : SymbolKind}
    {name : String} {line : Nat}
    (clean : fault? outer (scope :: around) (.declare kind name line) = none) :
    name ∉ scope.map Symbol.name := by
  intro bound
  obtain ⟨symbol, member, own⟩ := List.mem_map.mp bound
  have found : (scope.any fun symbol => symbol.name == name) = true :=
    List.any_eq_true.mpr ⟨symbol, member, beq_iff_eq.mpr own⟩
  rw [fault?_declare, if_pos found] at clean
  cases clean

/-- Names that are declared each once do not meet in their scope. -/
theorem fresh_behind {scope : List Symbol} {name : String} {names : List String}
    (notLater : name ∉ names) (fresh : ∀ other ∈ names, other ∉ scope.map Symbol.name)
    (kind : SymbolKind) (line : Nat) :
    ∀ other ∈ names, other ∉ (⟨name, kind, line⟩ :: scope : List Symbol).map Symbol.name := by
  intro other member
  simp only [List.map_cons, List.mem_cons, not_or]
  exact ⟨fun same => notLater (same ▸ member), fresh other member⟩

theorem allows_of_use {scopes : Scopes} {usage : Usage} {name : String} {line : Nat}
    (clean : fault? outer scopes (.use usage name line) = none) :
    Allows outer scopes usage name := Option.map_eq_none_iff.mp clean

end Scopes

theorem obeysScoping_iff_pass {outer : String → Option SymbolKind} {marks : List Mark} :
    ObeysScoping outer marks ↔ ∃ last, Scopes.pass outer [] marks = .ok last := by
  rw [ObeysScoping, ← Scopes.pass_clean_iff]
  constructor
  · exact fun clean => ⟨_, clean⟩
  · rintro ⟨last, clean⟩
    rw [clean, Scopes.pass_eq_afterAll clean]

namespace SymbolTable

def extend (base : SymbolTable) : Scopes → SymbolTable
  | [] => base
  | scope :: around =>
    ⟨scope ++ (base.extend around).entries,
      (base.extend around).entries.length :: (base.extend around).markers⟩

variable (base : SymbolTable)

theorem enterScope_extend (scopes : Scopes) :
    (base.extend scopes).enterScope = base.extend ([] :: scopes) := rfl

theorem innermost_extend (scope : List Symbol) (around : Scopes) :
    (base.extend (scope :: around)).innermost = scope := by
  simp [innermost, extend, entriesSince, currentStart]

theorem declare_extend (scope : List Symbol) (around : Scopes) (name : String)
    (kind : SymbolKind) (line : Nat) :
    (base.extend (scope :: around)).declare name kind line =
      if scope.any fun symbol => symbol.name == name then
        .error (.violation .doubleDeclaration line (some name))
      else
        .ok (base.extend ((⟨name, kind, line⟩ :: scope) :: around)) := by
  rw [declare, innermost_extend]
  rfl

theorem entries_extend (scopes : Scopes) :
    (base.extend scopes).entries = scopes.flatten ++ base.entries := by
  induction scopes with
  | nil => rfl
  | cons scope around ih =>
    simp only [extend, List.flatten_cons, List.append_assoc, ih]

theorem lookup?_extend (scopes : Scopes) (name : String) :
    (base.extend scopes).lookup? name = Scopes.lookup? base.lookup? scopes name := by
  unfold lookup? get? Scopes.lookup?
  rw [entries_extend, List.find?_append]
  cases scopes.flatten.find? fun symbol => symbol.name == name <;> rfl

end SymbolTable

namespace Parser

def checkOf : Usage → String → Parser Unit
  | .integer => resolveInteger
  | .procedure => resolveProcedure

theorem checkOf_clean {usage : Usage} {name : String} {state : State}
    (clean : usage.violation? (state.table.lookup? name) = none) :
    checkOf usage name state = .ok () state := by
  cases usage <;> rcases found : state.table.lookup? name with _ | (_ | _ | _) <;>
    rw [found] at clean <;> cases clean <;>
    simp [checkOf, resolveInteger, resolveProcedure, bind_apply, resolve_apply, found, pure_apply]

theorem checkOf_violation {usage : Usage} {name : String} {line : Nat} {state : State}
    {tail : List LocatedToken} {broken : Violation}
    (tokens : state.stream.tokens = ⟨.identifier name, line⟩ :: tail)
    (violated : usage.violation? (state.table.lookup? name) = some broken) :
    ∃ after, checkOf usage name state = .error (.violation broken line (some name)) after ∧
      after.stream = state.stream ∧ after.table = state.table := by
  have head : state.stream.peek? = some (.identifier name) := by
    rw [TokenStream.peek?, tokens]
    rfl
  have here : state.stream.line = line := by
    rw [TokenStream.line, tokens]
  cases usage <;> rcases found : state.table.lookup? name with _ | (_ | _ | _) <;>
    rw [found] at violated <;> cases violated <;>
    simp [checkOf, resolveInteger, resolveProcedure, bind_apply, resolve_apply, found, fail_apply,
      head, here]

theorem expectName_taken {name : String} {line : Nat} {tail : List LocatedToken} {state : State}
    (tokens : state.stream.tokens = ⟨.identifier name, line⟩ :: tail) (broken : Violation) :
    expectName broken state = .ok (name, line) { state with stream := ⟨tail, line⟩ } := by
  simp only [expectName, bind_apply, line_apply, peek?_apply, TokenStream.peek?, TokenStream.line,
    tokens, List.head?_cons, Option.map_some, Option.bind_some, Token.identifier?_identifier,
    advance_apply, pure_apply]

theorem expectName_refused {state : State}
    (unnamed : state.stream.peek?.bind Token.identifier? = none) (broken : Violation) :
    expectName broken state = fail broken state := by
  rw [expectName, bind_apply, line_apply]
  simp only [bind_apply, peek?_apply, unnamed]

end Parser

end PlZero
