import QueryPipeline.Proofs.Session.Steps

/-!
# Queries and updates clause by clause

A session hands its numbering from one clause to the next.  Without the session, a query is the
selection of its compiled clauses, where the HAVING clause goes on behind the filter, and an update is
a list of assignments of which each goes on behind the one before.

## Main definitions

- `Query.selection`: the compiled clauses of a query.
- `compileAssignments`: the compiled assignments of an update.

## Main statements

- `Session.eval_query`, `Session.eval_update`: what a session makes of a query and of an update.
- `Query.Compiles.apart`: no two clauses of a query share a placeholder.
- `Session.eval_query_eq_ok_iff`: what a query compiles to.
-/

namespace QueryPipeline

/-! ## §1 One clause -/

/-- Where the numbering goes on behind a clause that may be absent. -/
def Sequence.behind (s : Sequence) (c : Option CompiledFragment) : Sequence :=
  c.elim s CompiledFragment.sequence

namespace Session

/-- A clause that compiles moves the numbering on, one that does not leaves it. -/
theorem exec_advance (s : Session) (r : Except CompileError CompiledFragment) :
    (advance r).exec s = Run.moved r (fun c => { s with sequence := c.sequence }) s := by
  cases r <;> rfl

theorem exec_mapM_option {s : Session} {step : Expr → Run Session CompiledFragment}
    {compile : Expr → Except CompileError CompiledFragment}
    (hstep : ∀ e, (step e).exec s = (advance (compile e)).exec s) (clause : Option Expr) :
    (clause.mapM step).exec s =
      Run.moved (clause.mapM compile) (fun c => { s with sequence := s.sequence.behind c }) s := by
  cases clause with
  | none => rfl
  | some e =>
    rw [Option.mapM_some, Option.mapM_some, map_eq_pure_bind, Run.exec_bind, hstep, exec_advance]
    cases compile e <;> rfl

end Session

/-! ## §2 Queries -/

/-- The compiled clauses of a query, numbered from a sequence on. -/
def Query.selection (config : Config) (s : Sequence) (q : Query) : Except CompileError Selection := do
  let filter ← q.filter.mapM (compileFilter config s)
  let attributes ← q.select.mapM SelectItem.compile
  let groupBy ← q.groupBy.mapM compileKey
  let having ← q.having.mapM (compileHaving config (s.behind filter))
  let orderBy ← q.orderBy.mapM OrderItem.compile
  return { filter, attributes, groupBy, having, orderBy, offset := q.offset, limit := q.limit }

/-- **What a session makes of a query**: the pipeline of its selection. -/
theorem Session.eval_query (s : Session) (q : Query) :
    (query q).eval s = q.selection s.config s.sequence >>= Selection.assemble s.config := by
  unfold query Query.selection
  simp only [bind_assoc, pure_bind]
  refine (Run.eval_bind_moved (exec_mapM_option (exec_filter s) q.filter) _).trans ?_
  refine bind_congr fun filter => ?_
  -- outputs and keys leave the numbering behind the filter
  refine (Run.eval_bind_stateless (Run.exec_mapM_stateless
    (fun _ => Run.exec_lift_bind_pure _ _ _) q.select) _).trans (bind_congr fun attributes => ?_)
  refine (Run.eval_bind_stateless (Run.exec_mapM_stateless
    (fun _ => Run.exec_lift _ _) q.groupBy) _).trans (bind_congr fun groupBy => ?_)
  refine (Run.eval_bind_moved (exec_mapM_option (exec_having _) q.having) _).trans ?_
  refine bind_congr fun having => ?_
  refine (Run.eval_bind_stateless (Run.exec_mapM_stateless
    (fun _ => Run.exec_lift_bind_pure _ _ _) q.orderBy) _).trans (bind_congr fun orderBy => ?_)
  rw [Run.eval_bind_stateless (Run.exec_get _)]
  exact congrArg Prod.fst (Run.exec_lift _ _)

namespace Query

/-- A selection is made of the compiled clauses of a query. -/
structure Compiles (q : Query) (config : Config) (s : Sequence) (sel : Selection) : Prop where
  filter : q.filter.mapM (compileFilter config s) = .ok sel.filter
  attributes : q.select.mapM SelectItem.compile = .ok sel.attributes
  groupBy : q.groupBy.mapM compileKey = .ok sel.groupBy
  having : q.having.mapM (compileHaving config (s.behind sel.filter)) = .ok sel.having
  orderBy : q.orderBy.mapM OrderItem.compile = .ok sel.orderBy
  offset : sel.offset = q.offset
  limit : sel.limit = q.limit

variable {q : Query} {config : Config} {s : Sequence} {sel : Selection}

theorem selection_eq_ok_iff : q.selection config s = .ok sel ↔ q.Compiles config s sel := by
  unfold selection
  simp only [Run.bind_eq_ok_iff]
  constructor
  · rintro ⟨filter, hfilter, attributes, hattributes, groupBy, hgroupBy, having, hhaving, orderBy,
      horderBy, hsel⟩
    cases hsel
    exact ⟨hfilter, hattributes, hgroupBy, hhaving, horderBy, rfl, rfl⟩
  · rintro ⟨hfilter, hattributes, hgroupBy, hhaving, horderBy, hoffset, hlimit⟩
    refine ⟨_, hfilter, _, hattributes, _, hgroupBy, _, hhaving, _, horderBy, ?_⟩
    rw [← hoffset, ← hlimit]
    rfl

/-- The names of a clause that may be absent are given out between where it starts and where the
    numbering goes on. -/
theorem issued_behind {compile : Expr → Except CompileError CompiledFragment} {s : Sequence}
    (hcompile : ∀ e c, compile e = .ok c → c.NumberedFrom s e) {clause : Option Expr}
    {compiled : Option CompiledFragment} (h : clause.mapM compile = .ok compiled) :
    ∀ c ∈ compiled, ∀ name ∈ c.placeholders.names, s.Issued (s.behind compiled) name := by
  intro c hc name hname
  cases clause with
  | none =>
    cases h
    cases hc
  | some e =>
    rw [Option.mapM_some, map_eq_pure_bind] at h
    obtain ⟨c', hc', h⟩ := Run.bind_eq_ok_iff.1 h
    cases h
    cases hc
    exact (hcompile e c hc').issued hname

theorem Compiles.issued (h : q.Compiles config s sel) :
    (∀ c ∈ sel.filter, ∀ name ∈ c.placeholders.names, s.Issued (s.behind sel.filter) name) ∧
      ∀ c ∈ sel.having, ∀ name ∈ c.placeholders.names,
        (s.behind sel.filter).Issued ((s.behind sel.filter).behind sel.having) name := by
  have hnumbered : ∀ clause t e c, (FilterCompiler.start config clause t).compile e = .ok c →
      c.NumberedFrom t e := by
    intro clause t e c hc
    obtain ⟨_, _, _, hnumbered⟩ := FilterCompiler.compile_eq_ok hc
    exact hnumbered
  exact ⟨issued_behind (hnumbered .matching s) h.filter,
    issued_behind (hnumbered .having _) h.having⟩

/-- **No two clauses of a query share a placeholder.** -/
theorem Compiles.apart (h : q.Compiles config s sel) :
    (sel.clauses.map CompiledFragment.placeholders).Pairwise Placeholders.Apart :=
  Selection.apart_of_issued h.issued.1 h.issued.2

end Query

/-- **What a query compiles to**: its stages around those of its clauses, with the placeholders of all
    clauses. -/
theorem Session.eval_query_eq_ok_iff {s : Session} {q : Query} {p : Pipeline} :
    (query q).eval s = .ok p ↔
      ∃ sel middle, q.Compiles s.config s.sequence sel ∧ sel.middle s.config = .ok middle ∧
        p = ⟨sel.arranged middle, sel.placeholders⟩ := by
  -- the clauses are apart, so nothing but the grouping can go wrong
  have hassemble : ∀ sel : Selection, q.Compiles s.config s.sequence sel →
      sel.assemble s.config =
        (sel.middle s.config).map fun middle => ⟨sel.arranged middle, sel.placeholders⟩ := by
    intro sel hsel
    rw [Selection.assemble_of_apart s.config hsel.apart, Selection.stages_eq]
    cases sel.middle s.config <;> rfl
  rw [eval_query, Run.bind_eq_ok_iff]
  constructor
  · rintro ⟨sel, hsel, hp⟩
    have hcompiles := Query.selection_eq_ok_iff.1 hsel
    rw [hassemble sel hcompiles] at hp
    cases hmiddle : sel.middle s.config with
    | error err =>
      rw [hmiddle] at hp
      cases hp
    | ok middle =>
      rw [hmiddle] at hp
      cases hp
      exact ⟨sel, middle, hcompiles, hmiddle, rfl⟩
  · rintro ⟨sel, middle, hcompiles, hmiddle, rfl⟩
    refine ⟨sel, Query.selection_eq_ok_iff.2 hcompiles, ?_⟩
    rw [hassemble sel hcompiles, hmiddle]
    rfl

/-! ## §3 Updates -/

/-- The compiled assignments of an update, each numbered behind the one before. -/
def compileAssignments (s : Sequence) :
    List (String × Expr) → Except CompileError (List (String × CompiledFragment))
  | [] => .ok []
  | a :: rest => do
    let c ← compileAssignment s a.2
    let others ← compileAssignments c.sequence rest
    return (a.1, c) :: others

namespace Session

theorem eval_assignments (s : Session) (assignments : List (String × Expr)) :
    (assignments.mapM fun a => do return (a.1, ← assignment a.2) : Run Session _).eval s =
      compileAssignments s.sequence assignments := by
  induction assignments generalizing s with
  | nil => rfl
  | cons a rest ih =>
    -- the rest goes on in the session that the first assignment leaves
    have hfirst : (assignment a.2).exec s =
        Run.moved (compileAssignment s.sequence a.2) (fun c => { s with sequence := c.sequence }) s :=
      (exec_assignment s a.2).trans (exec_advance s _)
    rw [List.mapM_cons, compileAssignments, bind_assoc, Run.eval_bind_moved hfirst]
    refine bind_congr fun c => ?_
    rw [pure_bind]
    exact (Run.eval_bind_lift _ (fun others => .ok ((a.1, c) :: others)) _).trans
      (congrArg (· >>= _) (ih { s with sequence := c.sequence }))

/-- **What a session makes of an update**: the document of its assignments. -/
theorem eval_update (s : Session) (assignments : List (String × Expr)) :
    (update assignments).eval s =
      compileAssignments s.sequence assignments >>= Update.assemble := by
  rw [← eval_assignments]
  exact Run.eval_bind_lift _ Update.assemble s

end Session

end QueryPipeline
