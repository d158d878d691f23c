import QueryPipeline.CommandLine.File
import QueryPipeline.CommandLine.Options
import QueryPipeline.Description.Pipeline
import QueryPipeline.Description.Query
import QueryPipeline.Json.Printer
import QueryPipeline.Json.Reader

/-!
# The program

The program reads a query description, compiles it, and prints the stages of the pipeline: one stage
a line, with values written in if bindings are given, or the whole pipeline as JSON.  It is written for
any monad that can read a file.

## Main definitions

- `Failure`: why a run ends without output.
- `Options.execute`: the output of a run.
- `program`: exit code and output for a list of arguments.
-/

namespace QueryPipeline

/-! ## §1 Failures -/

/-- Why a run ends without output. -/
inductive Failure where
  | readQuery (path : String) (fault : FileFault)
  | describeQuery (path : String) (error : ReadError)
  | compile (path : String) (error : CompileError)
  | readBindings (path : String) (fault : FileFault)
  | describeBindings (path : String) (error : ReadError)
  | resolve (error : CompileError)
deriving Repr, DecidableEq

def Failure.context : Failure → String
  | readQuery path _ => "Failed to read query file " ++ path
  | describeQuery path _ => "Invalid query description in " ++ path
  | compile path _ => "Failed to compile " ++ path
  | readBindings path _ => "Failed to read bindings file " ++ path
  | describeBindings path _ => "Invalid bindings in " ++ path
  | resolve _ => "Failed to resolve runtime placeholders"

/-- The wording of a failed reading. -/
def ReadError.message : ReadError → String
  | text .truncated => "the text ends too early"
  | text .malformed => "the text is not JSON"
  | shape => "the value has the wrong shape"

def Failure.cause : Failure → String
  | readQuery _ fault => fault.message
  | describeQuery _ error => error.message
  | compile _ error => error.message
  | readBindings _ fault => fault.message
  | describeBindings _ error => error.message
  | resolve error => error.message

/-- Further lines of a text moved in by four blanks. -/
def indentFurther (s : String) : String :=
  String.join (s.toList.map fun c => if c = '\n' then "\n    " else String.singleton c)

/-- The report of a failure. -/
def Failure.report (f : Failure) : String :=
  "Error: " ++ f.context ++ "\n\nCaused by:\n    " ++ indentFurther f.cause ++ "\n"

/-! ## §2 A run -/

/-- Lines, each with its line break. -/
def unlines (lines : List String) : String :=
  String.join (lines.map (· ++ "\n"))

/-- The list of the variables that remain to be bound; nothing if there are none. -/
def placeholderLines (p : Placeholders) : List String :=
  if p.isEmpty then []
  else
    ["", "Runtime placeholders:"] ++ p.entries.map fun e =>
      "   - " ++ e.1 ++ " <- " ++ e.2.key ++ " (" ++ e.2.type.name ++ ")"

/-- The pipeline of a query description. -/
def Options.compile (o : Options) (text : String) : Except Failure Pipeline := do
  let query ← (readText Query.ofDraft text).mapError (Failure.describeQuery o.queryFile)
  ((Session.query query).eval { config := o.config }).mapError (Failure.compile o.queryFile)

/-- The stages of a pipeline with the values of a bindings file written in. -/
def Pipeline.resolveText (p : Pipeline) (path text : String) : Except Failure (List String) := do
  let bindings ← (readText Bindings.ofDraft text).mapError (Failure.describeBindings path)
  (p.resolve bindings).mapError Failure.resolve

variable {m : Type → Type} [Monad m]

/-- A file that a run needs. -/
def readOr (failure : FileFault → Failure) (read : String → m (Except FileFault String))
    (path : String) : ExceptT Failure m String :=
  ExceptT.mk do
    return (← read path).mapError failure

/-- The output of a run.  Bindings are not read if the pipeline is printed as JSON. -/
def Options.execute (o : Options) (read : String → m (Except FileFault String)) :
    ExceptT Failure m String := do
  let text ← readOr (.readQuery o.queryFile) read o.queryFile
  let pipeline ← ExceptT.mk (pure (o.compile text))
  if o.json then return pipeline.toJson.pretty ++ "\n"
  match o.bindingsFile with
  | none => return unlines (pipeline.render ++ placeholderLines pipeline.placeholders)
  | some path =>
    let text ← readOr (.readBindings path) read path
    let stages ← ExceptT.mk (pure (pipeline.resolveText path text))
    return unlines stages

/-! ## §3 The program -/

/-- What a finished program leaves behind. -/
structure Outcome where
  exitCode : UInt32
  output : String := ""
  errors : String := ""
deriving Repr, DecidableEq

def usage : String :=
  "Usage: [OPTIONS] QUERY\n\nOptions:\n" ++
  "  -b, --bindings FILE      values to write into the stages, as JSON\n" ++
  "      --id-field NAME      field that holds object identifiers [default: _id]\n" ++
  "      --fallback KIND      first or last value of an ungrouped output [default: first]\n" ++
  "      --json               print the pipeline as JSON\n" ++
  "  -d, --debug              accepted and ignored\n" ++
  "  -h, --help               print this text\n"

/-- The program on a list of arguments. -/
def program (read : String → m (Except FileFault String)) (args : List String) : m Outcome := do
  match Request.ofArguments? args with
  | none => return { exitCode := 2, errors := usage }
  | some .help => return { exitCode := 0, output := usage }
  | some (.run options) =>
    match ← (options.execute read).run with
    | .ok output => return { exitCode := 0, output }
    | .error failure => return { exitCode := 1, errors := failure.report }

end QueryPipeline
