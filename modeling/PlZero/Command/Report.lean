import PlZero.Command.Arguments
import PlZero.Source.Text
import PlZero.Traversal.NodeCount

/-!
# Reports

What the command prints and how it ends. A check prints the listings it was
asked for in the order of the stages and then says that it succeeded; at the
first fault it ends there, with what was printed until then. Times are measured
outside and only shown here.
-/

namespace PlZero.Command

set_option autoImplicit false

def version : String := "0.1.0"

structure Report where
  exitCode : Nat
  output : List String
  errors : List String
  /-- What happened on the way, oldest first. -/
  events : List Event := []

/-- How long the stages took, in milliseconds. -/
structure Times where
  scanning : Nat
  parsing : Nat
  total : Nat

def padLeft (width : Nat) (text : String) : String :=
  String.ofList (List.replicate (width - text.length) ' ') ++ text

def seconds (milliseconds : Nat) : String :=
  let fraction := toString (milliseconds % 1000)
  let zeros := String.ofList (List.replicate (3 - fraction.length) '0')
  padLeft 8 (toString (milliseconds / 1000) ++ "." ++ zeros ++ fraction) ++ "s"

def Times.lines (times : Times) : List String :=
  ["  Lexical Analysis   " ++ seconds times.scanning,
    "  Parsing            " ++ seconds times.parsing,
    "  Total Time         " ++ seconds times.total]

def heading (title : String) : List String := ["", " " ++ title ++ ":"]

def tokenLines (tokens : List LocatedToken) : List String :=
  heading "Tokens" ++ tokens.map fun located =>
    "  " ++ padLeft 4 (toString located.line) ++ "  " ++ located.token.text

def treeLines (block : Block) : List String :=
  heading "Abstract Syntax Tree" ++ block.lines 0

def statisticsLines (times? : Option Times) (tokens : List LocatedToken) (block : Block) :
    List String :=
  heading "Compilation Statistics" ++ (times?.map Times.lines).getD [] ++
    ["  Tokens:            " ++ toString tokens.length,
      "  AST Nodes:         " ++ toString (NodeCount.ofBlock block).total]

namespace Report

def failure (output : List String) (fault : Fault) (events : List Event) : Report :=
  ⟨1, output, ["Error: " ++ fault.message], events⟩

def listing (options : Options) (switch : Switch) (lines : List String) : List String :=
  if options.switches.contains switch then lines else []

def ofSource (options : Options) (times? : Option Times) (source : String) : Report :=
  let run := Run.ofSource options.limit source
  match run.scan.result with
  | .error fault => failure [] fault run.events
  | .ok tokens =>
    let shown := listing options .showTokens (tokenLines tokens)
    match run.result with
    | .error fault => failure shown fault run.events
    | .ok block =>
      ⟨0, shown ++ listing options .showTree (treeLines block)
        ++ listing options .timing (statisticsLines times? tokens block) ++ ["Successful!"],
        [], run.events⟩

def ofContents (options : Options) (times? : Option Times) : Except Fault String → Report
  | .error fault => failure [] fault []
  | .ok source => ofSource options times? source

def usage : List String :=
  ["Usage: pl0fe [OPTIONS] <PATH>",
    "",
    "Options:",
    "      --show-tokens            Print the token stream after scanning",
    "      --show-ast               Print the syntax tree after parsing",
    "  -v, --verbose                Tell what happens on the way",
    "  -t, --timing                 Print how long the stages took",
    "      --max-depth <MAX_DEPTH>  Deepest nesting allowed, 256 if not given",
    "  -h, --help                   Print this help",
    "  -V, --version                Print the version"]

def ofRequest (read : String → Except Fault String) (times? : Option Times) : Request → Report
  | .version => ⟨0, ["pl0fe " ++ version], [], []⟩
  | .help => ⟨0, usage, [], []⟩
  | .misuse => ⟨2, [], usage, []⟩
  | .check options => ofContents options times? (read options.path)

def run (folder : Folder) (arguments : List String) : Report :=
  ofRequest (Source.read folder) none (Request.ofArguments arguments)

end Report

end PlZero.Command
