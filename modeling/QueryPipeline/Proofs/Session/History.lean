import QueryPipeline.Proofs.Assignment.LateBinding
import QueryPipeline.Proofs.Filter.Outline
import QueryPipeline.Proofs.Pipeline.LateBinding
import QueryPipeline.Proofs.Session.Acceptance
import QueryPipeline.Proofs.Session.Transcript

/-!
# Sessions do not remember

All that a session keeps from one operation to the next is where the numbering of placeholders has
come to.  The numbers stand in what an operation gives out, but they decide neither whether it fails,
nor with which error, nor what its product comes to once values are supplied.

## Main definitions

- `Operation.result`: what an operation comes to, by the configuration and the numbering.
- `Session.after`: a session after a history of operations.
- `Product.ResolvesAlike`: products that come to the same texts with every supply of values.

## Main statements

- `Operation.sameErrors_result`: an operation fails alike wherever its numbering starts.
- `Operation.resolvesAlike_of_result`: its products are resolved alike.
- `Session.history_is_forgotten`: a used session is as good as a fresh one.
-/

namespace QueryPipeline

/-! ## §1 Operations without a session -/

/-- What an operation comes to under a configuration, numbered from a sequence on. -/
def Operation.result (config : Config) (s : Sequence) : Operation → Except CompileError Product
  | .filter e => (compileFilter config s e).map .clause
  | .having e => (compileHaving config s e).map .clause
  | .assignment e => (compileAssignment s e).map .clause
  | .projection e => (compileProjection e).map .projection
  | .key e => (compileKey e).map .key
  | .query q => (q.selection config s >>= Selection.assemble config).map .pipeline
  | .update assignments => (compileAssignments s assignments >>= Update.assemble).map .update

namespace Session

theorem eval_advance (s : Session) (r : Except CompileError CompiledFragment) :
    (advance r).eval s = r := by
  cases r <;> rfl

theorem eval_bind_pure {α β : Type} (step : Run Session α) (f : α → β) (s : Session) :
    (step >>= fun a => pure (f a)).eval s = (step.eval s).map f :=
  (Run.eval_bind_lift step (fun a => .ok (f a)) s).trans (by cases step.eval s <;> rfl)

/-- **An operation knows no more of its session** than the configuration and the numbering. -/
theorem eval_perform (s : Session) (operation : Operation) :
    operation.perform.eval s = operation.result s.config s.sequence := by
  cases operation with
  | filter e => exact (eval_bind_pure _ _ s).trans (congrArg _ (eval_advance s _))
  | having e => exact (eval_bind_pure _ _ s).trans (congrArg _ (eval_advance s _))
  | assignment e => exact (eval_bind_pure _ _ s).trans (congrArg _ (eval_advance s _))
  | projection e =>
    exact (eval_bind_pure _ _ s).trans (congrArg _ (congrArg Prod.fst (Run.exec_lift _ s)))
  | key e =>
    exact (eval_bind_pure _ _ s).trans (congrArg _ (congrArg Prod.fst (Run.exec_lift _ s)))
  | query q => exact (eval_bind_pure _ _ s).trans (congrArg _ (eval_query s q))
  | update assignments => exact (eval_bind_pure _ _ s).trans (congrArg _ (eval_update s assignments))

end Session

/-! ## §2 Errors -/

section

variable (config : Config) (s s' : Sequence)

theorem sameErrors_compileAssignment (e : Expr) :
    SameErrors (compileAssignment s e) (compileAssignment s' e) := by
  rw [compileAssignment_eq, compileAssignment_eq]
  exact (SameErrors.refl _).map _ _

theorem sameErrors_compileAssignments (assignments : List (String × Expr)) :
    SameErrors (compileAssignments s assignments) (compileAssignments s' assignments) := by
  induction assignments generalizing s s' with
  | nil => exact .ok _ _
  | cons a rest ih =>
    unfold compileAssignments
    refine (sameErrors_compileAssignment s s' a.2).bind fun c c' _ _ => ?_
    exact (ih c.sequence c'.sequence).bind fun _ _ _ _ => .ok _ _

variable {s}

/-- Compiled assignments can be assembled unless there are none. -/
theorem exists_assemble {a : String × Expr} {rest : List (String × Expr)}
    {compiled : List (String × CompiledFragment)}
    (h : compileAssignments s (a :: rest) = .ok compiled) :
    ∃ u, Update.assemble compiled = .ok u := by
  have hne : compiled ≠ [] := by
    obtain ⟨c, _, h⟩ := Run.bind_eq_ok_iff.1 h
    obtain ⟨others, _, h⟩ := Run.bind_eq_ok_iff.1 h
    cases h
    exact List.cons_ne_nil _ _
  exact ⟨_, Update.assemble_of_apart hne (apart_of_compileAssignments h)⟩

variable (s)

/-- **An operation fails alike** wherever its numbering starts. -/
theorem Operation.sameErrors_result (operation : Operation) :
    SameErrors (operation.result config s) (operation.result config s') := by
  cases operation with
  | filter e => exact (FilterCompiler.sameErrors_compile config .matching s s' e).map _ _
  | having e => exact (FilterCompiler.sameErrors_compile config .having s s' e).map _ _
  | assignment e => exact (sameErrors_compileAssignment s s' e).map _ _
  | projection e => exact .refl _
  | key e => exact .refl _
  | query q =>
    -- the faults of a query have nothing to do with its numbering
    exact ((q.reports_assembled config s).sameErrors (q.reports_assembled config s')).map _ _
  | update assignments =>
    refine ((sameErrors_compileAssignments s s' assignments).bind ?_).map _ _
    intro compiled compiled' h h'
    -- all that is left to go wrong is that there is nothing to assign
    cases assignments with
    | nil =>
      cases h
      cases h'
      exact .refl _
    | cons a rest =>
      obtain ⟨u, hu⟩ := exists_assemble h
      obtain ⟨u', hu'⟩ := exists_assemble h'
      rw [hu, hu']
      exact .ok u u'

end

/-! ## §3 Products -/

/-- Two products that come to the same texts with every supply of values, and lack a value together.
    Projections and keys have nothing to be resolved and have to be the same. -/
def Product.ResolvesAlike : Product → Product → Prop
  | .clause c, .clause c' => ∀ b text, c.resolve b = .ok text ↔ c'.resolve b = .ok text
  | .pipeline p, .pipeline p' => ∀ b texts, p.resolve b = .ok texts ↔ p'.resolve b = .ok texts
  | .update u, .update u' => ∀ b text, u.resolve b = .ok text ↔ u'.resolve b = .ok text
  | .projection p, .projection p' => p = p'
  | .key field, .key field' => field = field'
  | _, _ => False

/-- Operations without quotes in the names of columns and outputs, and with inert constants. -/
def Operation.IsInert : Operation → Prop
  | .filter e | .having e | .assignment e => e.IsInert
  | .projection _ | .key _ => True
  | .query q => q.IsInert
  | .update assignments => InertAssignments assignments

instance : DecidablePred Operation.IsInert
  | .filter e | .having e | .assignment e => inferInstanceAs (Decidable e.IsInert)
  | .projection _ | .key _ => inferInstanceAs (Decidable True)
  | .query q => inferInstanceAs (Decidable q.IsInert)
  | .update assignments => inferInstanceAs (Decidable (InertAssignments assignments))

/-- Two templates of an expression that write the same texts are resolved alike. -/
theorem CompiledFragment.IsTemplate.resolvesAlike {c c' : CompiledFragment} {s s' : Sequence}
    {e : Expr} {bound : Bindings → String} (h : c.IsTemplate s e bound)
    (h' : c'.IsTemplate s' e bound) : Product.ResolvesAlike (.clause c) (.clause c') := by
  intro b text
  rw [h.resolve_eq_ok_iff, h'.resolve_eq_ok_iff]

section

variable {config : Config} {s s' : Sequence}

theorem FilterCompiler.resolvesAlike {clause : FilterClause} {e : Expr} {c c' : CompiledFragment}
    (he : e.IsInert) (h : (start config clause s).compile e = .ok c)
    (h' : (start config clause s').compile e = .ok c') :
    Product.ResolvesAlike (.clause c) (.clause c') := by
  obtain ⟨d, hd, htemplate⟩ := isTemplate_of_compile h he.columns he.constants
  obtain ⟨d', hd', htemplate'⟩ := isTemplate_of_compile h' he.columns he.constants
  -- the expression has one document
  have hdocument : d' = d := Option.some.inj (hd'.document.symm.trans hd.document)
  rw [hdocument] at htemplate'
  exact htemplate.resolvesAlike htemplate'

theorem Session.resolvesAlike_query {q : Query} (hq : q.IsInert) {p p' : Pipeline}
    (h : (query q).eval ⟨config, s⟩ = .ok p) (h' : (query q).eval ⟨config, s'⟩ = .ok p') :
    Product.ResolvesAlike (.pipeline p) (.pipeline p') := by
  intro b texts
  -- both come to the query with its values written in, compiled in a third session
  obtain ⟨inlined, hinlined, htexts⟩ :=
    @resolve_query_eq_ok_iff ⟨config, s⟩ { config } rfl q p h hq b
  obtain ⟨inlined', hinlined', htexts'⟩ :=
    @resolve_query_eq_ok_iff ⟨config, s'⟩ { config } rfl q p' h' hq b
  cases Except.ok.inj (hinlined.symm.trans hinlined')
  rw [htexts, htexts']

theorem Session.resolvesAlike_update {assignments : List (String × Expr)}
    (hinert : InertAssignments assignments) {u u' : Update}
    (h : (update assignments).eval ⟨config, s⟩ = .ok u)
    (h' : (update assignments).eval ⟨config, s'⟩ = .ok u') :
    Product.ResolvesAlike (.update u) (.update u') := by
  intro b text
  rw [resolve_update_eq_ok_iff h hinert, resolve_update_eq_ok_iff h' hinert]

/-- **An inert operation is resolved alike** wherever its numbering starts. -/
theorem Operation.resolvesAlike_of_result {operation : Operation} (hinert : operation.IsInert)
    {p p' : Product} (h : operation.result config s = .ok p)
    (h' : operation.result config s' = .ok p') : p.ResolvesAlike p' := by
  cases operation with
  | filter e =>
    obtain ⟨c, hc, rfl⟩ := Run.map_eq_ok_iff.1 h
    obtain ⟨c', hc', rfl⟩ := Run.map_eq_ok_iff.1 h'
    exact FilterCompiler.resolvesAlike hinert hc hc'
  | having e =>
    obtain ⟨c, hc, rfl⟩ := Run.map_eq_ok_iff.1 h
    obtain ⟨c', hc', rfl⟩ := Run.map_eq_ok_iff.1 h'
    exact FilterCompiler.resolvesAlike hinert hc hc'
  | assignment e =>
    obtain ⟨c, hc, rfl⟩ := Run.map_eq_ok_iff.1 h
    obtain ⟨c', hc', rfl⟩ := Run.map_eq_ok_iff.1 h'
    have htemplate := isTemplate_of_compileAssignment hinert hc
    exact htemplate.resolvesAlike (isTemplate_of_compileAssignment hinert hc')
  -- projections and keys have no numbers in them
  | projection e =>
    obtain ⟨_, he, rfl⟩ := Run.map_eq_ok_iff.1 h
    obtain ⟨_, he', rfl⟩ := Run.map_eq_ok_iff.1 h'
    exact Except.ok.inj (he.symm.trans he')
  | key e =>
    obtain ⟨_, he, rfl⟩ := Run.map_eq_ok_iff.1 h
    obtain ⟨_, he', rfl⟩ := Run.map_eq_ok_iff.1 h'
    exact Except.ok.inj (he.symm.trans he')
  | query q =>
    obtain ⟨r, hr, rfl⟩ := Run.map_eq_ok_iff.1 h
    obtain ⟨r', hr', rfl⟩ := Run.map_eq_ok_iff.1 h'
    rw [← Session.eval_query ⟨config, s⟩] at hr
    rw [← Session.eval_query ⟨config, s'⟩] at hr'
    exact Session.resolvesAlike_query hinert hr hr'
  | update assignments =>
    obtain ⟨u, hu, rfl⟩ := Run.map_eq_ok_iff.1 h
    obtain ⟨u', hu', rfl⟩ := Run.map_eq_ok_iff.1 h'
    rw [← Session.eval_update ⟨config, s⟩] at hu
    rw [← Session.eval_update ⟨config, s'⟩] at hu'
    exact Session.resolvesAlike_update hinert hu hu'

end

/-! ## §4 Histories -/

namespace Session

/-- A session after a history of operations, whether they succeeded or failed. -/
def after (s : Session) (history : List Operation) : Session :=
  history.foldl (fun s operation => (s.take operation).after) s

theorem config_after (s : Session) (history : List Operation) :
    (s.after history).config = s.config := by
  induction history generalizing s with
  | nil => rfl
  | cons operation rest ih => exact (ih _).trans (keeps_perform s operation).config

/-- **A session does not remember its history.**  Whatever a session has been asked for before, and
    whether that succeeded or failed, the next operation fails with the same error as in a fresh
    session with the same configuration, or succeeds in both.  If its names have no quotes and its
    constants are inert, the two products are resolved alike with every supply of values. -/
theorem history_is_forgotten (config : Config) (history : List Operation) (operation : Operation) :
    SameErrors (operation.perform.eval (after { config } history))
        (operation.perform.eval { config }) ∧
      (operation.IsInert → ∀ p p', operation.perform.eval (after { config } history) = .ok p →
        operation.perform.eval { config } = .ok p' → p.ResolvesAlike p') := by
  rw [eval_perform, eval_perform, config_after]
  refine ⟨operation.sameErrors_result config _ _, ?_⟩
  intro hinert p p' hp hp'
  exact Operation.resolvesAlike_of_result hinert hp hp'

end Session

/-- A history with a filter, a clause that is refused, and an assignment of a constant. -/
def forgottenHistory : List Operation :=
  [.filter (.compare .gt (.column { field := "price", type := .int })
      (.variable { field := "low", type := .int })),
    .having (.isNull (.column { field := "price", type := .int })),
    .assignment (.constant (.text "sold") .string)]

/-- An update that assigns the name of a placeholder beside a variable. -/
def forgottenUpdate : Operation :=
  .update [("price", .variable { field := "low", type := .int }),
    ("tag", .constant (.text "var1") .string)]

theorem Session.history_is_forgotten_update :
    ∃ p p', forgottenUpdate.perform.eval (after {} forgottenHistory) = .ok p ∧
      forgottenUpdate.perform.eval {} = .ok p' ∧ p.placeholders.names = ["var2"] ∧
      p'.placeholders.names = ["var1"] ∧ p.ResolvesAlike p' := by
  have hused : (forgottenUpdate.perform.eval (after {} forgottenHistory)).map
      (fun p => p.placeholders.names) = .ok ["var2"] := by decide +kernel
  have hfresh : (forgottenUpdate.perform.eval {}).map (fun p => p.placeholders.names) =
      .ok ["var1"] := by decide +kernel
  obtain ⟨p, hp, hnames⟩ := Run.map_eq_ok_iff.1 hused
  obtain ⟨p', hp', hnames'⟩ := Run.map_eq_ok_iff.1 hfresh
  have halike := (history_is_forgotten {} forgottenHistory forgottenUpdate).2 (by decide +kernel)
  exact ⟨p, p', hp, hp', hnames, hnames', halike p p' hp hp'⟩

end QueryPipeline
