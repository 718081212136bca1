import PlZero.Keyword

/-!
# Tokens

What the scanner hands to the parser: numbers, words and single characters,
each with the line on which it starts. A word carries the number of its
reserved word, or the number shared by all plain names. Nothing here forbids a
word whose text and number disagree; the parser looks at the number only.
-/

namespace PlZero

set_option autoImplicit false

inductive Token where
  | number (value : Int)
  /-- A name or a reserved word, with its number. -/
  | word (text : String) (id : Nat)
  | symbol (char : Char)
  deriving DecidableEq, Repr

namespace Token

def identifier (name : String) : Token :=
  .word name identifierId

def keyword (keyword : Keyword) : Token :=
  .word keyword.spelling keyword.id

/-- The token of a whole word: reserved if the table spells it so, else a name. -/
def ofWord (text : String) : Token :=
  match Keyword.ofSpelling? text with
  | some reserved => .word text reserved.id
  | none => identifier text

/-- The number that tells categories apart. Symbols have none. -/
def id? : Token → Option Nat
  | number _ => some numberId
  | word _ id => some id
  | symbol _ => none

def isKeyword (token : Token) (id : Nat) : Bool :=
  match token with
  | word _ own => own == id
  | _ => false

def isSymbol (token : Token) (char : Char) : Bool :=
  match token with
  | symbol own => own == char
  | _ => false

/-- The reserved word that a word token stands for, judged by its number. -/
def keyword? : Token → Option Keyword
  | word _ id => Keyword.ofId? id
  | _ => none

def identifier? : Token → Option String
  | word text id => if id = identifierId then some text else none
  | _ => none

def number? : Token → Option Int
  | number value => some value
  | _ => none

def text : Token → String
  | number value => s!"Number({value})"
  | word name id =>
    if id = identifierId then s!"Ident({name})" else s!"Keyword({name}, {id})"
  | symbol char => s!"Symbol('{char}')"

theorem isSymbol_iff {token : Token} {char : Char} :
    token.isSymbol char = true ↔ token = symbol char := by
  cases token <;> simp [isSymbol]

theorem isKeyword_iff {token : Token} {number : Nat} :
    token.isKeyword number = true ↔ ∃ text, token = word text number := by
  cases token <;> simp [isKeyword]

/-- A token stands for a reserved word exactly if it carries the number of the word. -/
theorem keyword?_eq_some_iff {token : Token} {reserved : Keyword} :
    token.keyword? = some reserved ↔ ∃ text, token = word text reserved.id := by
  cases token with
  | number value => simp [keyword?]
  | symbol char => simp [keyword?]
  | word text id =>
    rw [keyword?, Keyword.ofId?_eq_some_iff]
    constructor
    · intro own
      exact ⟨text, by rw [own]⟩
    · rintro ⟨_, same⟩
      exact (Token.word.inj same).2.symm

@[simp] theorem identifier?_identifier (name : String) :
    (identifier name).identifier? = some name := rfl

/-- Only the words numbered as names carry a name. -/
theorem identifier?_eq_some_iff {token : Token} {name : String} :
    token.identifier? = some name ↔ token = identifier name := by
  cases token with
  | number value => simp [identifier?, identifier]
  | symbol char => simp [identifier?, identifier]
  | word text id =>
    by_cases plain : id = identifierId <;> simp [identifier?, identifier, plain]

/-- No reserved word is a name. -/
theorem identifier?_eq_none_of_keyword? {token : Token} {reserved : Keyword}
    (known : token.keyword? = some reserved) : token.identifier? = none := by
  cases token with
  | number value => rfl
  | symbol char => rfl
  | word text id =>
    have own : reserved.id = id := Keyword.ofId?_eq_some_iff.mp known
    have different : id ≠ identifierId := by
      subst own
      cases reserved <;> decide
    simp [identifier?, different]

end Token

structure LocatedToken where
  token : Token
  line : Nat
  deriving DecidableEq, Repr

end PlZero
