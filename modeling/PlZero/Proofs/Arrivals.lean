import PlZero.Proofs.Stream

/-!
# Tokens in order of arrival

A stream may be filled at its end while tokens are taken from its head, in any order of the
two. Whatever was done, the tokens that arrived are those that were given out and, behind
them, those that are left; and the line is known from these two parts. The remembered line is
set when the stream is made and when a token is taken, not when one arrives, so what carries
through a run is the line that the stream reports and not the one that it remembers.
-/

namespace PlZero

set_option autoImplicit false

inductive StreamOperation where
  | push (token : LocatedToken)
  | advance
  | current
  | peek
  deriving DecidableEq, Repr

namespace StreamOperation

def arriving : StreamOperation → List LocatedToken
  | push token => [token]
  | advance | current | peek => []

def needsHead : StreamOperation → Bool
  | advance | current => true
  | push _ | peek => false

end StreamOperation

inductive StreamAnswer where
  | done
  | failed (fault : Fault)
  /-- The head, which has left the stream. -/
  | given (token : Token)
  /-- The head, if there is one, which stays in the stream. -/
  | shown (head? : Option Token)
  deriving DecidableEq, Repr

/-- The tokens that leave the stream with an answer. -/
def StreamAnswer.leaving : StreamAnswer → List Token
  | given token => [token]
  | done | failed _ | shown _ => []

namespace TokenStream

def perform (stream : TokenStream) : StreamOperation → StreamAnswer × TokenStream
  | .push token => (.done, stream.push token)
  | .advance =>
    match stream.advance with
    | .ok (token, after) => (.given token, after)
    | .error fault => (.failed fault, stream)
  | .current =>
    match stream.current with
    | .ok token => (.shown (some token), stream)
    | .error fault => (.failed fault, stream)
  | .peek => (.shown stream.peek?, stream)

@[simp] theorem perform_push (stream : TokenStream) (token : LocatedToken) :
    stream.perform (.push token) = (.done, stream.push token) := rfl

@[simp] theorem perform_advance_nil (last : Nat) :
    perform ⟨[], last⟩ .advance = (.failed .emptyTokenStream, ⟨[], last⟩) := rfl

@[simp] theorem perform_advance_cons (head : LocatedToken) (rest : List LocatedToken)
    (last : Nat) :
    perform ⟨head :: rest, last⟩ .advance = (.given head.token, ⟨rest, head.line⟩) := rfl

@[simp] theorem perform_current_nil (last : Nat) :
    perform ⟨[], last⟩ .current = (.failed .emptyTokenStream, ⟨[], last⟩) := rfl

@[simp] theorem perform_current_cons (head : LocatedToken) (rest : List LocatedToken)
    (last : Nat) :
    perform ⟨head :: rest, last⟩ .current =
      (.shown (some head.token), ⟨head :: rest, last⟩) := rfl

@[simp] theorem perform_peek (stream : TokenStream) :
    stream.perform .peek = (.shown stream.peek?, stream) := rfl

def after (stream : TokenStream) : List StreamOperation → TokenStream
  | [] => stream
  | operation :: rest => (stream.perform operation).2.after rest

def answers (stream : TokenStream) : List StreamOperation → List StreamAnswer
  | [] => []
  | operation :: rest =>
    (stream.perform operation).1 :: (stream.perform operation).2.answers rest

/-- Of all tokens that arrived, the first were taken and the others are left. -/
structure HasGiven (stream : TokenStream) (arrived taken : List LocatedToken) : Prop where
  order : arrived = taken ++ stream.tokens
  line : stream.line = lineBetween taken stream.tokens

variable {stream : TokenStream} {arrived taken : List LocatedToken}

theorem hasGiven_ofList (tokens : List LocatedToken) : (ofList tokens).HasGiven tokens [] where
  order := rfl
  line := by cases tokens <;> rfl

/-- A token that arrives at a dry stream becomes its head, and the line is that of the token. -/
theorem HasGiven.pushed (holds : stream.HasGiven arrived taken) (token : LocatedToken) :
    (stream.push token).HasGiven (arrived ++ [token]) taken where
  order := by rw [holds.order, List.append_assoc, push]
  line := by
    obtain ⟨tokens, last⟩ := stream
    cases tokens <;> rfl

/-- The line of the token that is taken is remembered, so the stream may run dry. -/
theorem HasGiven.advanced {head : LocatedToken} {rest : List LocatedToken} {last : Nat}
    (holds : HasGiven ⟨head :: rest, last⟩ arrived taken) :
    HasGiven ⟨rest, head.line⟩ arrived (taken ++ [head]) where
  order := by rw [holds.order, List.append_assoc, List.singleton_append]
  line := by
    cases rest with
    | nil => simp [lineBetween]
    | cons next rest => rfl

theorem HasGiven.performed (holds : stream.HasGiven arrived taken)
    (operation : StreamOperation) :
    ∃ next, next.map LocatedToken.token = (stream.perform operation).1.leaving ∧
      (stream.perform operation).2.HasGiven (arrived ++ operation.arriving) (taken ++ next) := by
  obtain ⟨tokens, last⟩ := stream
  cases operation with
  | push token => exact ⟨[], rfl, by simpa [StreamOperation.arriving] using holds.pushed token⟩
  | advance =>
    cases tokens with
    | nil => exact ⟨[], rfl, by simpa [StreamOperation.arriving] using holds⟩
    | cons head rest =>
      exact ⟨[head], rfl, by simpa [StreamOperation.arriving] using holds.advanced⟩
  | current => cases tokens <;> exact ⟨[], rfl, by simpa [StreamOperation.arriving] using holds⟩
  | peek => exact ⟨[], rfl, by simpa [StreamOperation.arriving] using holds⟩

theorem HasGiven.after (holds : stream.HasGiven arrived taken)
    (operations : List StreamOperation) :
    ∃ later, later.map LocatedToken.token =
        (stream.answers operations).flatMap StreamAnswer.leaving ∧
      (stream.after operations).HasGiven
        (arrived ++ operations.flatMap StreamOperation.arriving) (taken ++ later) := by
  induction operations generalizing stream arrived taken with
  | nil => exact ⟨[], rfl, by simpa [after] using holds⟩
  | cons operation rest ih =>
    obtain ⟨next, given, step⟩ := holds.performed operation
    obtain ⟨later, givenLater, run⟩ := ih step
    refine ⟨next ++ later, ?_, ?_⟩
    · rw [List.map_append, given, givenLater, answers, List.flatMap_cons]
    · rw [List.flatMap_cons, ← List.append_assoc, ← List.append_assoc]
      exact run

theorem HasGiven.left (holds : stream.HasGiven arrived taken) :
    stream.tokens = arrived.drop taken.length := by
  rw [holds.order, List.drop_left]

theorem HasGiven.early (holds : stream.HasGiven arrived taken) :
    arrived.take taken.length = taken := by
  rw [holds.order, List.take_left]

/-- The head is the first token that was not taken yet. -/
theorem HasGiven.peek?_eq (holds : stream.HasGiven arrived taken) :
    stream.peek? = arrived[taken.length]?.map LocatedToken.token := by
  rw [peek?, holds.left, List.head?_drop]

/-- A stream is dry if nothing arrived that was not taken. -/
theorem HasGiven.tokens_eq_nil_iff (holds : stream.HasGiven arrived taken) :
    stream.tokens = [] ↔ taken.map LocatedToken.token = arrived.map LocatedToken.token := by
  rw [holds.order, List.map_append, List.self_eq_append_right, List.map_eq_nil_iff]

theorem perform_current_eq_shown_iff (stream after : TokenStream) (token : Token) :
    stream.perform .current = (.shown (some token), after) ↔
      stream.peek? = some token ∧ after = stream := by
  obtain ⟨tokens, last⟩ := stream
  cases tokens <;> simp [eq_comm]

/-- Only an operation that needs a head is refused, and only by a dry stream, which stays as it
is. -/
theorem perform_eq_failed_iff (stream after : TokenStream) (operation : StreamOperation)
    (fault : Fault) :
    stream.perform operation = (.failed fault, after) ↔
      operation.needsHead = true ∧ stream.tokens = [] ∧ fault = .emptyTokenStream ∧
        after = stream := by
  obtain ⟨tokens, last⟩ := stream
  cases operation <;> cases tokens <;>
    simp [StreamOperation.needsHead, eq_comm]

end TokenStream

/-- After any operations the tokens that were given out and those that are left are all tokens that
arrived, in order. A look shows the next one and changes nothing. The operations that need one are
refused exactly if all were given out, and then change nothing. The line is that of the
next token, else of the last one given out, else the first line. -/
theorem tokens_leave_in_order_of_arrival (tokens : List LocatedToken)
    (operations : List StreamOperation) :
    let start := TokenStream.ofList tokens
    let stream := start.after operations
    let arrived := tokens ++ operations.flatMap StreamOperation.arriving
    let given := (start.answers operations).flatMap StreamAnswer.leaving
    let next? := arrived[given.length]?.map LocatedToken.token
    given ++ stream.tokens.map LocatedToken.token = arrived.map LocatedToken.token ∧
      stream.tokens = arrived.drop given.length ∧
      stream.perform .peek = (.shown next?, stream) ∧
      (∀ token after, stream.perform .current = (.shown (some token), after) ↔
        next? = some token ∧ after = stream) ∧
      (∀ operation fault after, stream.perform operation = (.failed fault, after) ↔
        operation.needsHead = true ∧ given = arrived.map LocatedToken.token ∧
          fault = .emptyTokenStream ∧ after = stream) ∧
      stream.line = lineBetween (arrived.take given.length) stream.tokens := by
  intro start stream arrived given next?
  obtain ⟨taken, out, run⟩ := (TokenStream.hasGiven_ofList tokens).after operations
  have holds : stream.HasGiven arrived taken := run
  have given_eq : given = taken.map LocatedToken.token := out.symm
  have count : given.length = taken.length := by rw [given_eq, List.length_map]
  have next : next? = stream.peek? := by rw [holds.peek?_eq, ← count]
  refine ⟨?_, ?_, ?_, ?_, ?_, ?_⟩
  · rw [given_eq, ← List.map_append, ← holds.order]
  · rw [count, holds.left]
  · rw [TokenStream.perform_peek, next]
  · intro token after
    rw [TokenStream.perform_current_eq_shown_iff, next]
  · intro operation fault after
    rw [TokenStream.perform_eq_failed_iff, holds.tokens_eq_nil_iff, given_eq]
  · rw [count, holds.early, holds.line]

/-- A stream that runs dry, refuses to go on and is filled again. -/
example :
    let start := TokenStream.ofList [⟨.symbol '.', 7⟩]
    let refused := [StreamOperation.advance, .advance]
    let refilled := refused ++ [.push ⟨.number 1, 3⟩, .current]
    start.answers refilled = [.given (.symbol '.'), .failed .emptyTokenStream, .done,
        .shown (some (.number 1))] ∧
      (start.after refused).line = 7 ∧ (start.after refilled).line = 3 := by decide

end PlZero
