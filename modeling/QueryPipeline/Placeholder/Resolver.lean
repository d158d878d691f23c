import QueryPipeline.Placeholder.Table

/-!
# Resolving placeholders

Resolving writes supplied values in place of variables.  One resolver may go over several fragments
that share their placeholders; it remembers which placeholders it has replaced, and at the end every
one of them must have been replaced somewhere.  A placeholder that a stray quote hides everywhere is
thereby reported.  It is left in the text if its name shows somewhere else and is replaced there.

## Main definitions

- `Bindings`: supplied values by key.
- `Resolver.replace`: the replacement of one visible name.
- `Resolver.substitute`, `Resolver.finish`: one fragment, and the check at the end.
- `Placeholders.resolve`, `Placeholders.resolveAll`: one fragment, or several in order.
-/

namespace QueryPipeline

/-- Supplied values by key. -/
abbrev Bindings := NameTable Value

/-- What a resolver works with, and the names it has replaced so far. -/
structure Resolver where
  placeholders : Placeholders
  bindings : Bindings
  replaced : List String := []

namespace Resolver

/-- The value of a name: names that are no placeholders have none, and a placeholder without a
    supplied value is an error. -/
def replace (name : String) : Run Resolver (Option String) := do
  let r ← get
  match r.placeholders.get? name with
  | none => pure none
  | some v =>
    match r.bindings.get? v.key with
    | none => throw (.missingBinding name v.key)
    | some value =>
      -- a placeholder counts as replaced from its first value on
      set { r with replaced := name :: r.replaced }
      pure (some value.render)

/-- A fragment with its placeholders replaced. -/
def substitute (fragment : String) : Run Resolver String :=
  QueryPipeline.substitute replace fragment

/-- The first placeholder, in order of names, that was replaced nowhere, with the reason. -/
def finish (r : Resolver) : Except CompileError Unit :=
  match r.placeholders.entries.find? fun e => !r.replaced.contains e.1 with
  | none => .ok ()
  | some (name, v) =>
    if r.bindings.contains v.key then .error (.internal (.unreachedPlaceholder name))
    else .error (.missingBinding name v.key)

/-- Fragments substituted in order, then the check at the end. -/
def resolveAll (fragments : List String) : Run Resolver (List String) := do
  let texts ← fragments.mapM substitute
  Run.lift (← get).finish
  return texts

end Resolver

/-- Several fragments that share their placeholders, with the supplied values written in. -/
def Placeholders.resolveAll (p : Placeholders) (b : Bindings) (fragments : List String) :
    Except CompileError (List String) :=
  (Resolver.resolveAll fragments).eval { placeholders := p, bindings := b }

/-- A fragment with the supplied values written in. -/
def Placeholders.resolve (p : Placeholders) (b : Bindings) (fragment : String) :
    Except CompileError String :=
  (do
    let text ← Resolver.substitute fragment
    Run.lift (← get).finish
    return text : Run Resolver String).eval { placeholders := p, bindings := b }

/-- A finished clause. -/
structure CompiledFragment where
  /-- The text, with constants written out. -/
  fragment : String
  /-- The variables that remain to be bound. -/
  placeholders : Placeholders
  /-- Where the numbering of the next clause goes on. -/
  sequence : Sequence
  /-- Whether the text is a single comparison whose column stood on the right. -/
  mirrored : Bool

/-- The text of a finished clause with the supplied values written in. -/
def CompiledFragment.resolve (c : CompiledFragment) (b : Bindings) : Except CompileError String :=
  c.placeholders.resolve b c.fragment

end QueryPipeline
