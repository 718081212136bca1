import PlZero.Proofs.Frame

/-!
# How far a stream is along

Tokens leave a stream from the head, one after the other, and the line of the last one is
remembered. So what is left of a stream, and the line that it reports, are known from the
tokens that were taken.
-/

namespace PlZero

set_option autoImplicit false

/-- The line of the first token left, else of the last one taken, else the first line. -/
def lineBetween (taken left : List LocatedToken) : Nat :=
  ((left.head?.or taken.getLast?).map LocatedToken.line).getD firstLine

namespace TokenStream

/-- A stream comes to another one when these tokens are taken. -/
structure ComesTo (before : TokenStream) (taken : List LocatedToken) (after : TokenStream) :
    Prop where
  tokens : before.tokens = taken ++ after.tokens
  lastLine : after.lastLine = (taken.getLast?.map LocatedToken.line).getD before.lastLine

theorem comesTo_same (stream : TokenStream) : stream.ComesTo [] stream := ⟨rfl, rfl⟩

theorem comesTo_trans {first second third : TokenStream} {early late : List LocatedToken}
    (one : first.ComesTo early second) (other : second.ComesTo late third) :
    first.ComesTo (early ++ late) third where
  tokens := by rw [one.tokens, other.tokens, List.append_assoc]
  lastLine := by
    rw [other.lastLine, one.lastLine, List.getLast?_append]
    cases late.getLast? <;> rfl

theorem comesTo_tail (head : LocatedToken) (rest : List LocatedToken) (last : Nat) :
    ComesTo ⟨head :: rest, last⟩ [head] ⟨rest, head.line⟩ := ⟨rfl, rfl⟩

/-- The line of a stream is known from what was taken of it and what is left. -/
theorem line_of_comesTo {tokens taken : List LocatedToken} {after : TokenStream}
    (comes : (ofList tokens).ComesTo taken after) :
    after.line = lineBetween taken after.tokens := by
  have whole : tokens = taken ++ after.tokens := comes.tokens
  have last := comes.lastLine
  unfold line lineBetween
  cases left : after.tokens with
  | cons head rest => rfl
  | nil =>
    rw [left, List.append_nil] at whole
    subst whole
    rw [List.head?_nil, Option.none_or]
    simp only
    rw [last]
    cases final : tokens.getLast? with
    | some located => rfl
    | none =>
      -- nothing was there to be taken, so the stream still has the line it began with
      rw [List.getLast?_eq_none_iff.mp final]
      rfl

end TokenStream

namespace Parser

variable {α β σ : Type}

def Along (before after : State) : Prop := ∃ taken, before.stream.ComesTo taken after.stream

theorem along_of_same {before after : State} (same : after.stream = before.stream) :
    Along before after := ⟨[], by rw [same]; exact before.stream.comesTo_same⟩

theorem along_chained : Chained Along where
  same _ := along_of_same rfl
  joined early late := by
    obtain ⟨first, one⟩ := early
    obtain ⟨second, other⟩ := late
    exact ⟨first ++ second, TokenStream.comesTo_trans one other⟩

theorem along_advance : Leads Along advance := by
  intro state
  obtain ⟨⟨tokens, last⟩, table, depth, log⟩ := state
  cases tokens with
  | nil => exact along_of_same rfl
  | cons head rest => exact ⟨[head], TokenStream.comesTo_tail head rest last⟩

theorem along_declare (name : String) (kind : SymbolKind) (line : Nat) :
    Leads Along (declare name kind line) := by
  intro state
  rw [declare_apply]
  cases state.table.declare name kind line <;> exact along_of_same rfl

theorem along_resolve (name : String) : Leads Along (resolve name) := by
  intro state
  rw [resolve_apply]
  cases state.table.lookup? name <;> exact along_of_same rfl

theorem along_nested {production : Parser α} (inside : Leads Along production) :
    Leads Along (nested production) := by
  intro state
  have along := inside { state with depth := state.depth + 1 }
  rw [nested_apply]
  cases outcome : production { state with depth := state.depth + 1 } with
  | ok value after | error fault after =>
    rw [outcome] at along
    exact along

theorem along_inScope {production : Parser α} (inside : Leads Along production) :
    Leads Along (inScope production) := by
  intro state
  have along := inside state.entered
  rw [inScope_eq_closed]
  cases outcome : production state.entered with
  | ok value after | error fault after =>
    rw [outcome] at along
    simp only [closed]
    cases after.table.leaveScope <;> exact along

theorem along_steps : Steps fun production _ => Leads Along production where
  pure := along_chained.leads_pure
  bind := along_chained.leads_bind
  peek := along_chained.same
  line := along_chained.same
  advance := along_advance
  fail _ _ := along_of_same rfl
  tell _ _ _ := along_of_same rfl
  declare := along_declare
  resolve := along_resolve
  nested := along_nested
  inScope := along_inScope
  many select _ _ inside := along_chained.leads_many along_advance select inside

theorem along_block (levels : Nat) : Leads Along (block levels) :=
  (along_steps.descent along_chained.same).block levels none

end Parser

end PlZero
