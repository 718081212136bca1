/-!
# Reserved words

The reserved words of PL/0 in table order. Each one has a spelling and a
number; the numbers start above the plain character codes and follow the order
of the table. The four comparison words at the end stand for operators that
take two characters in the source text.
-/

namespace PlZero

set_option autoImplicit false

/-- A reserved word. The last four are the operators `==`, `>=`, `<=` and `!=`. -/
inductive Keyword where
  | beginKw
  | callKw
  | constKw
  | doKw
  | endKw
  | ifKw
  | oddKw
  | printKw
  | procedureKw
  | readKw
  | thenKw
  | varKw
  | whileKw
  | passKw
  | eqKw
  | geKw
  | leKw
  | neKw
  deriving DecidableEq, Repr

namespace Keyword

def all : List Keyword :=
  [beginKw, callKw, constKw, doKw, endKw, ifKw, oddKw, printKw, procedureKw,
    readKw, thenKw, varKw, whileKw, passKw, eqKw, geKw, leKw, neKw]

/-- The word as it is written in a source text. Case matters. -/
def spelling : Keyword → String
  | beginKw => "BEGIN"
  | callKw => "CALL"
  | constKw => "CONST"
  | doKw => "DO"
  | endKw => "END"
  | ifKw => "IF"
  | oddKw => "ODD"
  | printKw => "PRINT"
  | procedureKw => "PROCEDURE"
  | readKw => "READ"
  | thenKw => "THEN"
  | varKw => "VAR"
  | whileKw => "WHILE"
  | passKw => "PASS"
  | eqKw => "EQ"
  | geKw => "GE"
  | leKw => "LE"
  | neKw => "NE"

def index : Keyword → Nat
  | beginKw => 0
  | callKw => 1
  | constKw => 2
  | doKw => 3
  | endKw => 4
  | ifKw => 5
  | oddKw => 6
  | printKw => 7
  | procedureKw => 8
  | readKw => 9
  | thenKw => 10
  | varKw => 11
  | whileKw => 12
  | passKw => 13
  | eqKw => 14
  | geKw => 15
  | leKw => 16
  | neKw => 17

/-- Numbers below this one are plain character codes. -/
def base : Nat := 256

def id (keyword : Keyword) : Nat :=
  base + keyword.index

def ofId? (number : Nat) : Option Keyword :=
  all.find? fun keyword => keyword.id == number

def ofSpelling? (word : String) : Option Keyword :=
  all.find? fun keyword => keyword.spelling == word

theorem ofId?_id (keyword : Keyword) : ofId? keyword.id = some keyword := by
  cases keyword <;> rfl

/-- Looking a number up finds exactly the word that owns it. -/
theorem ofId?_eq_some_iff {number : Nat} {keyword : Keyword} :
    ofId? number = some keyword ↔ keyword.id = number := by
  constructor
  · intro found
    simpa using List.find?_some found
  · rintro rfl
    exact ofId?_id keyword

theorem ofSpelling?_spelling (keyword : Keyword) :
    ofSpelling? keyword.spelling = some keyword := by
  cases keyword <;> decide +kernel

/-- Looking a spelling up finds exactly the word that is spelled so. -/
theorem ofSpelling?_eq_some_iff {word : String} {keyword : Keyword} :
    ofSpelling? word = some keyword ↔ keyword.spelling = word := by
  constructor
  · intro found
    simpa using List.find?_some found
  · rintro rfl
    exact ofSpelling?_spelling keyword

end Keyword

/-- The number that every name which is not reserved shares. -/
def identifierId : Nat := Keyword.base + Keyword.all.length

/-- The number that every number token shares. -/
def numberId : Nat := identifierId + 1

end PlZero
