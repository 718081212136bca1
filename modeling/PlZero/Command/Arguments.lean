import PlZero.Program

/-!
# Arguments

What the words after the command ask for. Words are read from left to right:
switches in their long or short form, the nesting limit with its value, and the
path of the file to check, of which there is exactly one. No switch may be given
twice. A request for the version or for help is granted as soon as it is met; a
misuse ends the reading just so, and whichever comes first counts.
-/

namespace PlZero.Command

set_option autoImplicit false

/-- A word of the command line by its shape. -/
inductive Argument where
  /-- Two dashes: everything after them is a value. -/
  | separator
  /-- A name after two dashes, with a value after `=` perhaps. -/
  | long (name : List Char) (value? : Option (List Char))
  /-- Letters after one dash, each a switch of its own. -/
  | short (flags : List Char)
  | value (text : String)

/-- A lone dash is a value like any other. -/
def Argument.ofString (text : String) : Argument :=
  match text.toList with
  | ['-', '-'] => .separator
  | '-' :: '-' :: word =>
    .long (word.takeWhile (· != '=')) (word.dropWhile (· != '=')).tail?
  | '-' :: first :: others => .short (first :: others)
  | _ => .value text

inductive Switch where
  | showTokens
  | showTree
  | verbose
  | timing
  deriving DecidableEq

structure Options where
  path : String
  switches : List Switch
  limit : Nat

inductive Request where
  | check (options : Options)
  | version
  | help
  | misuse

structure Settled where
  path? : Option String := none
  switches : List Switch := []
  limit? : Option Nat := none

/-- Reading goes on, or ends with a request that is no check. -/
abbrev Reading := Except Request

namespace Settled

def switchOn (settled : Settled) (switch : Switch) : Reading Settled :=
  if settled.switches.contains switch then throw .misuse
  else return { settled with switches := switch :: settled.switches }

/-- The first plain value is the path; there is no second one. -/
def setPath (settled : Settled) (path : String) : Reading Settled :=
  if settled.path?.isSome || path == "" then throw .misuse
  else return { settled with path? := some path }

def maxLimit : Nat := Nat.pow 2 64 - 1

/-- A decimal number, with a plus in front perhaps. -/
def limitOf? (text : List Char) : Option Nat :=
  let digits := if text.head? == some '+' then text.tail else text
  if digits.isEmpty || !digits.all Char.isDigit then none
  else
    let limit := Nat.ofDigitChars 10 digits 0
    if limit ≤ maxLimit then some limit else none

def setLimit (settled : Settled) (text : List Char) : Reading Settled :=
  match settled.limit?, limitOf? text with
  | none, some limit => return { settled with limit? := some limit }
  | _, _ => throw .misuse

def longSwitch (settled : Settled) (name : String) : Reading Settled :=
  if name == "show-tokens" then settled.switchOn .showTokens
  else if name == "show-ast" then settled.switchOn .showTree
  else if name == "verbose" then settled.switchOn .verbose
  else if name == "timing" then settled.switchOn .timing
  else if name == "version" then throw .version
  else if name == "help" then throw .help
  else throw .misuse

def shortSwitch (settled : Settled) (flag : Char) : Reading Settled :=
  if flag == 'v' then settled.switchOn .verbose
  else if flag == 't' then settled.switchOn .timing
  else if flag == 'V' then throw .version
  else if flag == 'h' then throw .help
  else throw .misuse

def finish (settled : Settled) : Request :=
  match settled.path? with
  | some path => .check ⟨path, settled.switches, settled.limit?.getD defaultLimit⟩
  | none => .misuse

end Settled

def limitName : String := "max-depth"

def readWords (settled : Settled) : List String → Reading Settled
  | [] => return settled
  | word :: rest =>
    match Argument.ofString word with
    | .separator => rest.foldlM Settled.setPath settled
    | .value text => do readWords (← settled.setPath text) rest
    | .short flags => do readWords (← flags.foldlM Settled.shortSwitch settled) rest
    | .long name value? =>
      if String.ofList name == limitName then
        match value?, rest with
        | some value, rest => do readWords (← settled.setLimit value) rest
        | none, [] => throw .misuse
        | none, next :: rest =>
          match Argument.ofString next with
          | .value text => do readWords (← settled.setLimit text.toList) rest
          | _ => throw .misuse
      else
        match value? with
        | some _ => throw .misuse
        | none => do readWords (← settled.longSwitch (String.ofList name)) rest

def Request.ofArguments (arguments : List String) : Request :=
  match readWords {} arguments with
  | .ok settled => settled.finish
  | .error request => request

end PlZero.Command
