/-!
# Temporary names

A supply of names `t0`, `t1`, … for intermediate results. Numbers go up by one
with each name and start again only on request, so no name comes twice between
two restarts.
-/

namespace PlZero

set_option autoImplicit false

structure TempNames where
  /-- How many names were given out since the last restart. -/
  issued : Nat := 0
  deriving DecidableEq, Repr

namespace TempNames

def stem : String := "t"

def name (number : Nat) : String := stem ++ toString number

/-- A name that was not given out since the last restart. -/
def fresh (names : TempNames) : String × TempNames :=
  (name names.issued, ⟨names.issued + 1⟩)

def reset (_ : TempNames) : TempNames := {}

end TempNames

end PlZero
