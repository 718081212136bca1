import PlZero.Diagnostic
import PlZero.Token

/-!
# Token streams

A queue of tokens that leave from the head exactly once. The stream also knows
a line at all times: that of its head, and once it has run dry that of the last
token taken, so a fault at the end of a program still points somewhere.
-/

namespace PlZero

set_option autoImplicit false

structure TokenStream where
  /-- The tokens not taken yet, head first. -/
  tokens : List LocatedToken
  /-- The line to report when no token is left. -/
  lastLine : Nat
  deriving DecidableEq, Repr

namespace TokenStream

def ofList (tokens : List LocatedToken) : TokenStream where
  tokens := tokens
  lastLine := (tokens.head?.map LocatedToken.line).getD 1

def empty : TokenStream := ofList []

def isEmpty (stream : TokenStream) : Bool := stream.tokens.isEmpty

def length (stream : TokenStream) : Nat := stream.tokens.length

def peek? (stream : TokenStream) : Option Token :=
  stream.tokens.head?.map LocatedToken.token

def current (stream : TokenStream) : Except Fault Token :=
  match stream.tokens with
  | [] => .error .emptyTokenStream
  | head :: _ => .ok head.token

def advance (stream : TokenStream) : Except Fault (Token × TokenStream) :=
  match stream.tokens with
  | [] => .error .emptyTokenStream
  | head :: rest => .ok (head.token, ⟨rest, head.line⟩)

def push (stream : TokenStream) (token : LocatedToken) : TokenStream :=
  { stream with tokens := stream.tokens ++ [token] }

/-- The line of the head, or of the last token taken. -/
def line (stream : TokenStream) : Nat :=
  match stream.tokens with
  | [] => stream.lastLine
  | head :: _ => head.line

@[simp] theorem line_cons (head : LocatedToken) (rest : List LocatedToken) (last : Nat) :
    line ⟨head :: rest, last⟩ = head.line := rfl

@[simp] theorem line_nil (last : Nat) : line ⟨[], last⟩ = last := rfl

@[simp] theorem peek?_cons (head : LocatedToken) (rest : List LocatedToken) (last : Nat) :
    peek? ⟨head :: rest, last⟩ = some head.token := rfl

@[simp] theorem peek?_nil (last : Nat) : peek? ⟨[], last⟩ = none := rfl

end TokenStream

end PlZero
