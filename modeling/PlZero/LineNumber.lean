/-!
# Line numbers

A line number is a word of 64 bits that goes up by one where a line ends. The largest one is
followed by zero, which matters only to a count that is told to begin near the largest one: a
text in memory does not have that many line ends.
-/

namespace PlZero

set_option autoImplicit false

/-- How many line numbers there are. -/
def lineNumbers : Nat := Nat.pow 2 64

def firstLine : Nat := 1

def nextLine (line : Nat) : Nat := (line + 1) % lineNumbers

/-- The line reached from this one where so many lines end. -/
def lineAfter (line : Nat) : Nat → Nat
  | 0 => line
  | ends + 1 => nextLine (lineAfter line ends)

theorem lineAfter_add (line first second : Nat) :
    lineAfter line (first + second) = lineAfter (lineAfter line first) second := by
  induction second with
  | zero => rfl
  | succ second ih => exact congrArg nextLine ih

theorem lineAfter_eq_mod {line : Nat} (inRange : line < lineNumbers) (ends : Nat) :
    lineAfter line ends = (line + ends) % lineNumbers := by
  induction ends with
  | zero => exact (Nat.mod_eq_of_lt inRange).symm
  | succ ends ih => rw [lineAfter, ih, nextLine, Nat.mod_add_mod, Nat.add_assoc]

/-- Short of the largest line number, lines are counted as they are. -/
theorem lineAfter_of_fits {line ends : Nat} (fits : line + ends < lineNumbers) :
    lineAfter line ends = line + ends := by
  rw [lineAfter_eq_mod (Nat.lt_of_le_of_lt (Nat.le_add_right _ _) fits), Nat.mod_eq_of_lt fits]

end PlZero
