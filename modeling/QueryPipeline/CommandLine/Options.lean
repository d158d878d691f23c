import QueryPipeline.Config

/-!
# Command line options

The command line names one query file and may set options before and after it.  A short option takes
its value from the rest of its own argument or from the next one, a long option after an equals sign
or from the next one.  After `--` everything is a file name.  No option may be set twice.

## Main definitions

- `Options`: what a command line asks for.
- `Request`: a run with options, or a request for help.
- `Request.ofArguments?`: the request of a list of arguments, if they make sense.
-/

namespace QueryPipeline

/-! ## §1 Settings -/

/-- What a command line asks for. -/
structure Options where
  queryFile : String
  bindingsFile : Option String := none
  config : Config := {}
  json : Bool := false
  debug : Bool := false
deriving Repr, DecidableEq

/-- Options that take a value. -/
inductive ValueOption where
  | bindings
  | idField
  | fallback
deriving Repr, DecidableEq

/-- One thing that an argument says. -/
inductive Setting where
  | json
  | debug
  | help
  | value (option : ValueOption) (text : String)
  | file (path : String)
deriving Repr, DecidableEq

/-- The settings collected so far. -/
structure Settings where
  json : Bool := false
  debug : Bool := false
  help : Bool := false
  bindings : Option String := none
  idField : Option String := none
  fallback : Option Fallback := none
  file : Option String := none
deriving Repr, DecidableEq

namespace Settings

/-- A file name, which is never empty. -/
def path? (text : String) : Option String :=
  if text.isEmpty then none else some text

/-- A setting added.  Nothing may be set twice, file names are not empty, and the name of an
    accumulator must be known. -/
def add? (s : Settings) : Setting → Option Settings
  | .json => if s.json then none else some { s with json := true }
  | .debug => if s.debug then none else some { s with debug := true }
  | .help => some { s with help := true }
  | .value .bindings text => do
    let path ← path? text
    if s.bindings.isSome then none else some { s with bindings := path }
  | .value .idField text => if s.idField.isSome then none else some { s with idField := text }
  | .value .fallback text => do
    let fallback ← Fallback.ofName? text
    if s.fallback.isSome then none else some { s with fallback := fallback }
  | .file text => do
    let path ← path? text
    if s.file.isSome then none else some { s with file := path }

/-- Settings added one after the other. -/
def addAll? (s : Settings) (settings : List Setting) : Option Settings :=
  settings.foldlM add? s

end Settings

/-! ## §2 Arguments -/

/-- What one argument says, and the option whose value is still to come. -/
structure Argument where
  settings : List Setting
  pending : Option ValueOption := none
deriving Repr, DecidableEq

namespace Argument

/-- A long option, from the characters after its two dashes. -/
def ofLong? (cs : List Char) : Option Argument :=
  let name := String.ofList (cs.takeWhile (· ≠ '='))
  let value := match cs.dropWhile (· ≠ '=') with
    | [] => none
    | _ :: text => some (String.ofList text)
  let flag (s : Setting) : Option Argument := if value.isSome then none else some ⟨[s], none⟩
  let valued (o : ValueOption) : Option Argument :=
    match value with
    | some text => some ⟨[.value o text], none⟩
    | none => some ⟨[], some o⟩
  match name with
  | "json" => flag .json
  | "debug" => flag .debug
  | "help" => flag .help
  | "bindings" => valued .bindings
  | "id-field" => valued .idField
  | "fallback" => valued .fallback
  | _ => none

/-- Short options written together, from the characters after their dash.  The option with a value
    takes all that is left, less an equals sign in front. -/
def ofShort? : List Char → Option Argument
  | [] => some ⟨[], none⟩
  | 'd' :: cs => do
    let rest ← ofShort? cs
    return { rest with settings := .debug :: rest.settings }
  | 'h' :: _ => some ⟨[.help], none⟩
  | ['b'] => some ⟨[], some .bindings⟩
  | 'b' :: '=' :: cs => some ⟨[.value .bindings (String.ofList cs)], none⟩
  | 'b' :: cs => some ⟨[.value .bindings (String.ofList cs)], none⟩
  | _ => none

/-- Whether an argument is written like an option.  A single dash is a file name. -/
def isOption (arg : String) : Bool :=
  match arg.toList with
  | '-' :: _ :: _ => true
  | _ => false

/-- What an argument says. -/
def ofText? (arg : String) : Option Argument :=
  match arg.toList with
  | '-' :: '-' :: cs => ofLong? cs
  | '-' :: c :: cs => ofShort? (c :: cs)
  | _ => some ⟨[.file arg], none⟩

end Argument

/-- The settings of a list of arguments, added to those collected so far. -/
def Settings.ofArguments? (s : Settings) : List String → Option Settings
  | [] => some s
  | arg :: rest =>
    if s.help then some s
    else if arg = "--" then s.addAll? (rest.map .file)
    else do
      let a ← Argument.ofText? arg
      let s ← s.addAll? a.settings
      match a.pending with
      | none => s.ofArguments? rest
      | some option =>
        match rest with
        | [] => none
        | text :: rest =>
          if Argument.isOption text then none
          else do
            let s ← s.add? (.value option text)
            s.ofArguments? rest

/-! ## §3 Requests -/

/-- What is asked of the program. -/
inductive Request where
  | help
  | run (options : Options)
deriving Repr, DecidableEq

/-- The request of a list of arguments; none if they make no sense or name no query file. -/
def Request.ofArguments? (args : List String) : Option Request := do
  let s ← Settings.ofArguments? {} args
  if s.help then return .help
  let queryFile ← s.file
  let config : Config := { idField := s.idField.getD "_id", fallback := s.fallback.getD .first }
  return .run { queryFile, bindingsFile := s.bindings, config, json := s.json, debug := s.debug }

end QueryPipeline
