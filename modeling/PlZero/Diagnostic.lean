/-!
# Diagnostics

What can be wrong with a program, and every way in which reading, scanning or
parsing it can fail. Violations are the rules of the language; each has a short
code and a sentence. Faults are the failures that a caller sees; only a broken
rule names a violation, with the line and, where one stands there, the name.
-/

namespace PlZero

set_option autoImplicit false

/-- A broken rule of the language, in the order of the diagnostic table: first
the twelve rules of form, then the six rules about names. -/
inductive Violation where
  | missingPeriod
  | missingAssign
  | missingDeclaredName
  | missingBlockSeparator
  | missingDeclarationSeparator
  | missingEnd
  | missingThen
  | missingDo
  | malformedStatement
  | missingComparison
  | missingCloseParen
  | missingOpenParen
  | constantNotNumber
  | undeclared
  | missingName
  | notProcedure
  | notInteger
  | doubleDeclaration
  deriving DecidableEq, Repr

namespace Violation

def all : List Violation :=
  [missingPeriod, missingAssign, missingDeclaredName, missingBlockSeparator,
    missingDeclarationSeparator, missingEnd, missingThen, missingDo, malformedStatement,
    missingComparison, missingCloseParen, missingOpenParen, constantNotNumber, undeclared,
    missingName, notProcedure, notInteger, doubleDeclaration]

def index : Violation → Nat
  | missingPeriod => 0
  | missingAssign => 1
  | missingDeclaredName => 2
  | missingBlockSeparator => 3
  | missingDeclarationSeparator => 4
  | missingEnd => 5
  | missingThen => 6
  | missingDo => 7
  | malformedStatement => 8
  | missingComparison => 9
  | missingCloseParen => 10
  | missingOpenParen => 11
  | constantNotNumber => 12
  | undeclared => 13
  | missingName => 14
  | notProcedure => 15
  | notInteger => 16
  | doubleDeclaration => 17

def code : Violation → String
  | missingPeriod => "SYN_END"
  | missingAssign => "SYN_MISS_ASS"
  | missingDeclaredName => "SYN_NO_ID"
  | missingBlockSeparator => "SYN_MISS_SEP"
  | missingDeclarationSeparator => "SYN_MISS_COM"
  | missingEnd => "SYN_MISS_END"
  | missingThen => "SYN_IF"
  | missingDo => "SYN_WHILE"
  | malformedStatement => "SYN_STMT"
  | missingComparison => "SYN_NO_COMP"
  | missingCloseParen => "SYN_MISS_CB"
  | missingOpenParen => "SYN_MISS_OB"
  | constantNotNumber => "TYP_CONST_NUM"
  | undeclared => "TYP_ID_NO_IN"
  | missingName => "TYP_NO_ID"
  | notProcedure => "TYP_ONLY_PROC"
  | notInteger => "TYP_ONLY_INT"
  | doubleDeclaration => "TYP_DOUB_DEC"

def message : Violation → String
  | missingPeriod => "Syntax-Error: Program must end with '.'"
  | missingAssign => "Syntax-Error: Missing assign operator '='"
  | missingDeclaredName =>
    "Syntax-Error: Missing identifier after CONST, VAR or PROCEDURE declaration"
  | missingBlockSeparator => "Syntax-Error: Missing block separator ';'"
  | missingDeclarationSeparator => "Syntax-Error: Missing ',' separator or ';' delimiter"
  | missingEnd => "Syntax-Error: Missing END or statement separator ';'"
  | missingThen => "Syntax-Error: After IF condition THEN statement must follow"
  | missingDo => "Syntax-Error: After WHILE condition DO statement must follow"
  | malformedStatement => "Syntax-Error: Wrong syntax in statement"
  | missingComparison => "Syntax-Error: No compare operator"
  | missingCloseParen => "Syntax-Error: Missing ')'"
  | missingOpenParen => "Syntax-Error: Missing '('"
  | constantNotNumber => "Type-Error: Can only assign number to constant"
  | undeclared => "Type-Error: Identifier not initialized"
  | missingName => "Type-Error: No identifier given"
  | notProcedure => "Type-Error: Can only call a procedure"
  | notInteger => "Type-Error: Operation only for Integer type"
  | doubleDeclaration => "Type-Error: Double declaration of identifier"

/-- The rules of form come before the rules about names. -/
def isSyntactic (violation : Violation) : Bool :=
  violation.index < constantNotNumber.index

end Violation

inductive FileFault where
  | notFound
  | notADirectory
  | isADirectory
  | nameTooLong
  | nameHoldsNul
  | notUtf8
  /-- Any other refusal, as it was reported. -/
  | other (report : String)
  deriving DecidableEq, Repr

def FileFault.message : FileFault → String
  | notFound => "No such file or directory (os error 2)"
  | notADirectory => "Not a directory (os error 20)"
  | isADirectory => "Is a directory (os error 21)"
  | nameTooLong => "File name too long (os error 36)"
  | nameHoldsNul => "file name contained an unexpected NUL byte"
  | notUtf8 => "stream did not contain valid UTF-8"
  | other report => report

/-- A failure of any stage, from the file to the finished tree. -/
inductive Fault where
  /-- The file was refused before it was opened. -/
  | refusedFile (reason : String)
  | file (cause : FileFault)
  /-- A run of digits whose value does not fit, as it was written. -/
  | invalidNumber (digits : String) (line : Nat)
  /-- A broken rule, its line, and the name that stands there if one does. -/
  | violation (broken : Violation) (line : Nat) (name? : Option String)
  | nestingTooDeep (limit : Nat) (line : Nat)
  | emptyTokenStream
  | scopeUnderflow
  deriving DecidableEq, Repr

namespace Fault

def message : Fault → String
  | refusedFile reason => s!"File read error: {reason}"
  | file cause => s!"I/O error: {cause.message}"
  | invalidNumber digits line => s!"Invalid number '{digits}' in line {line}"
  | violation broken line _ => s!"{broken.message} in line {line}"
  | nestingTooDeep limit line => s!"Nesting deeper than {limit} levels in line {line}"
  | emptyTokenStream => "Token stream is empty"
  | scopeUnderflow => "Cannot leave scope - scope underflow"

def violation? : Fault → Option Violation
  | violation broken _ _ => some broken
  | _ => none

def line? : Fault → Option Nat
  | violation _ line _ => some line
  | invalidNumber _ line => some line
  | nestingTooDeep _ line => some line
  | _ => none

def name? : Fault → Option String
  | violation _ _ name? => name?
  | _ => none

end Fault

end PlZero
