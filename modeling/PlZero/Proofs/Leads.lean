import PlZero.Proofs.Congruence

/-!
# Where productions lead

Some facts compare the state in which a production starts with the one in which it
ends, whatever its outcome. A relation between states that every state has to itself,
and that can be chained, is kept by sequencing and by loops, so only the steps are left
to be looked at.
-/

namespace PlZero.Parser

set_option autoImplicit false

variable {α β σ : Type}

/-- Wherever it starts, and on both ways out, a production leads to a related state. -/
def Leads (related : State → State → Prop) (production : Parser α) : Prop :=
  ∀ state, related state (stateAfter (production state))

structure Chained (related : State → State → Prop) : Prop where
  same (state : State) : related state state
  joined {first second third : State} :
    related first second → related second third → related first third

namespace Chained

variable {related : State → State → Prop} (chain : Chained related)
include chain

theorem leads_pure (value : α) : Leads related (pure value) := chain.same

theorem leads_bind {first : Parser α} {next : α → Parser β} (firstLeads : Leads related first)
    (nextLeads : ∀ value, Leads related (next value)) : Leads related (first >>= next) := by
  intro state
  have early := firstLeads state
  rw [bind_apply]
  cases outcome : first state with
  | error fault after =>
    rw [outcome] at early
    exact early
  | ok value middle =>
    rw [outcome] at early
    exact chain.joined early (nextLeads value middle)

theorem leads_manyWithin {item? : Parser (Option α)} (inside : Leads related item?)
    (bound : List LocatedToken) : Leads related (manyWithin item? bound) := by
  induction bound with
  | nil => exact chain.leads_pure []
  | cons first bound ih =>
    apply chain.leads_bind inside
    intro value?
    cases value? with
    | none => exact chain.leads_pure []
    | some value => exact chain.leads_bind ih fun values => chain.leads_pure _

theorem leads_begun (taking : Leads related advance) (select : Token → Option σ)
    {body : σ → Parser α} (inside : ∀ choice, Leads related (body choice)) :
    Leads related (begun select body) := by
  refine chain.leads_bind chain.same fun head? => ?_
  cases head?.bind select with
  | none => exact chain.leads_pure none
  | some choice =>
    exact chain.leads_bind taking fun _ =>
      chain.leads_bind (inside choice) fun _ => chain.leads_pure _

theorem leads_many (taking : Leads related advance) (select : Token → Option σ)
    {body : σ → Parser α} (inside : ∀ choice, Leads related (body choice)) :
    Leads related (many (begun select body)) :=
  fun state => chain.leads_manyWithin (chain.leads_begun taking select inside)
    state.stream.tokens state

end Chained

end PlZero.Parser
