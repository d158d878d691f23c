import QueryPipeline.Proofs.Filter.Outline
import QueryPipeline.Proofs.Pipeline.Grouping
import QueryPipeline.Proofs.Pipeline.Texts
import QueryPipeline.Proofs.Session.Clauses

/-!
# Which queries compile

A query is looked at item by item: the filter, the outputs, the grouping keys, the HAVING clause and
the sort keys, and at last the outputs once more, for one that takes the place of the grouping key.
Each item is as good in the query as on its own, where its numbering starts anew, and the first bad
one is reported.  A query without a bad item compiles, to stages in a fixed order.

## Main definitions

- `Query.WellFormed`: queries whose items are all good.
- `Query.faults`: what is wrong with the items of a query, in the order in which they are looked at.
- `Query.stageRow`: the stages of a query.

## Main statements

- `Query.reports_assembled`: a query reports its first fault, wherever its numbering starts.
- `Query.faults_eq_nil_iff`: a query is well-formed exactly if it has no faults.
- `Session.query_accepts_wellFormed`: a session compiles the well-formed queries, and reports the
  first fault of any other.
-/

namespace QueryPipeline

/-! ## §1 Columns as keys and outputs -/

/-- The field of a bare column. -/
def Expr.field? : Expr → Option String
  | .column c => some c.field
  | _ => none

theorem Expr.field?_eq_some_iff {e : Expr} {field : String} :
    e.field? = some field ↔ ∃ c, e = .column c ∧ c.field = field := by
  cases e <;> simp [field?]

theorem compileKey_eq_ok_iff {e : Expr} {field : String} :
    compileKey e = .ok field ↔ e.field? = some field := by
  rw [Expr.field?_eq_some_iff]
  constructor
  · intro h
    obtain ⟨c, rfl, rfl⟩ := compileKey_eq_ok h
    exact ⟨c, rfl, rfl⟩
  · rintro ⟨c, rfl, rfl⟩
    rfl

/-- Keys are bare columns. -/
theorem exists_compileKey_eq_ok_iff {e : Expr} :
    (∃ field, compileKey e = .ok field) ↔ ∃ c, e = .column c := by
  simp [compileKey_eq_ok_iff, Expr.field?_eq_some_iff]

/-- An output is a column exactly if its expression is. -/
theorem column?_of_compileProjection {e : Expr} {p : Projection} (h : compileProjection e = .ok p) :
    p.column? = e.field? := by
  rcases compileProjection_eq_ok h with ⟨l, hleaf, rfl⟩ | ⟨_, _, _, _, rfl, _, _, rfl⟩
  · cases e <;> cases hleaf <;> rfl
  · rfl

/-- Whether an output is a bare grouping column. -/
def SelectItem.projectsKey (keys : List Expr) (item : SelectItem) : Bool :=
  item.expression.field?.any fun field => (keys.filterMap Expr.field?).contains field

/-- Whether a grouped query has an output that is no grouping column, but takes the name of the field
    that holds the grouping key. -/
def Query.collides (q : Query) : Bool :=
  !q.groupBy.isEmpty &&
    q.select.any fun item => !item.projectsKey q.groupBy && item.name == groupKeyField

/-! ## §2 Good and bad queries -/

namespace Query

/-- The queries whose items are all good: each clause is accepted on its own, keys are bare columns,
    and an output of a grouped query that takes the name of the grouping key is a grouping column. -/
structure WellFormed (config : Config) (q : Query) : Prop where
  filter : ∀ e ∈ q.filter, ∃ c, compileFilter config {} e = .ok c
  select : ∀ item ∈ q.select, ∃ p, compileProjection item.expression = .ok p
  groupBy : ∀ e ∈ q.groupBy, ∃ c, e = .column c
  having : ∀ e ∈ q.having, ∃ c, compileHaving config {} e = .ok c
  orderBy : ∀ item ∈ q.orderBy, ∃ c, item.expression = .column c
  outputs : q.groupBy ≠ [] → ∀ item ∈ q.select, item.name = groupKeyField →
    item.projectsKey q.groupBy

/-- What is wrong with the clauses of a query, in the order in which they are compiled, if each of
    them is compiled on its own. -/
def clauseFaults (config : Config) (q : Query) : List CompileError :=
  (q.filter.toList.filterMap fun e => fault? (compileFilter config {} e)) ++
    ((q.select.filterMap fun item => fault? (compileProjection item.expression)) ++
      ((q.groupBy.filterMap fun e => fault? (compileKey e)) ++
        ((q.having.toList.filterMap fun e => fault? (compileHaving config {} e)) ++
          q.orderBy.filterMap fun item => fault? (compileKey item.expression))))

/-- What is wrong with a query, in the order in which it is looked at: its clauses come first, an
    output in place of the grouping key last. -/
def faults (config : Config) (q : Query) : List CompileError :=
  q.clauseFaults config ++
    if q.collides then [.unsupportedOperation .groupKeyCollision] else []

theorem collides_eq_false_iff {q : Query} :
    q.collides = false ↔ (q.groupBy ≠ [] → ∀ item ∈ q.select, item.name = groupKeyField →
      item.projectsKey q.groupBy) := by
  unfold collides
  cases q.groupBy with
  | nil => simp
  | cons key rest =>
    simp only [List.isEmpty_cons, Bool.not_false, Bool.true_and, List.any_eq_false,
      Bool.and_eq_true, Bool.not_eq_true', beq_iff_eq, not_and, ne_eq, reduceCtorEq,
      not_false_eq_true, forall_const]
    refine forall₂_congr fun item _ => ?_
    cases item.projectsKey (key :: rest) <;> simp

/-- **A query is well-formed** exactly if nothing is wrong with it. -/
theorem faults_eq_nil_iff {config : Config} {q : Query} :
    q.faults config = [] ↔ q.WellFormed config := by
  have hcollision : (if q.collides then [CompileError.unsupportedOperation .groupKeyCollision]
      else []) = [] ↔ q.collides = false := by
    cases q.collides <;> simp
  unfold faults clauseFaults
  simp only [List.append_eq_nil_iff, List.filterMap_eq_nil_iff, hcollision, collides_eq_false_iff,
    fault?_eq_none_iff, exists_compileKey_eq_ok_iff, Option.mem_toList]
  constructor
  · rintro ⟨⟨hfilter, hselect, hgroupBy, hhaving, horderBy⟩, houtputs⟩
    exact ⟨hfilter, hselect, hgroupBy, hhaving, horderBy, houtputs⟩
  · rintro ⟨hfilter, hselect, hgroupBy, hhaving, horderBy, houtputs⟩
    exact ⟨⟨hfilter, hselect, hgroupBy, hhaving, horderBy⟩, houtputs⟩

/-- **The clauses of a query report the first fault**, wherever their numbering starts. -/
theorem reports_selection (config : Config) (s : Sequence) (q : Query) :
    Reports (q.selection config s) (q.clauseFaults config) := by
  have hclause : ∀ clause t e, Reports ((FilterCompiler.start config clause t).compile e)
      (fault? ((FilterCompiler.start config clause {}).compile e)).toList := fun clause t e =>
    .of_sameErrors (FilterCompiler.sameErrors_compile config clause t {} e) (.fault? _)
  unfold selection clauseFaults
  refine (Reports.mapM_option (hclause .matching s) q.filter).bind fun filter _ => ?_
  refine (Reports.mapM (fun item => (Reports.fault? _).map _) q.select).bind fun attributes _ => ?_
  refine (Reports.mapM (fun e => Reports.fault? _) q.groupBy).bind fun groupBy _ => ?_
  -- the HAVING clause goes on behind the filter, which does not matter for its faults
  refine (Reports.mapM_option (hclause .having (s.behind filter)) q.having).bind fun having _ => ?_
  rw [← List.append_nil (q.orderBy.filterMap _)]
  refine (Reports.mapM (fun item => (Reports.fault? _).map _) q.orderBy).bind fun orderBy _ => ?_
  exact .ok _

section

variable {q : Query} {config : Config} {s : Sequence} {sel : Selection}

/-- The grouping keys of a query are the fields of its columns. -/
theorem Compiles.groupBy_eq (h : q.Compiles config s sel) :
    sel.groupBy = q.groupBy.filterMap Expr.field? := by
  have hkeys : sel.groupBy.map some = q.groupBy.map Expr.field? :=
    Run.map_eq_of_mapM h.groupBy fun e field he => (compileKey_eq_ok_iff.1 he).symm
  have hfields := congrArg (List.filterMap id) hkeys
  simpa [List.filterMap_map] using hfields

/-- The outputs in place of the grouping key are those of the query. -/
theorem Compiles.collides_iff (h : q.Compiles config s sel) :
    (sel.groupBy ≠ [] ∧ ∃ a ∈ sel.attributes, a.collides sel.groupBy) ↔ q.collides = true := by
  have hitems : sel.attributes.map (·.collides sel.groupBy) =
      q.select.map fun item => !item.projectsKey q.groupBy && item.name == groupKeyField := by
    refine Run.map_eq_of_mapM h.attributes ?_
    intro item a ha
    obtain ⟨p, hp, rfl⟩ := Run.map_eq_ok_iff.1 ha
    rw [OutputAttribute.collides, isGroupKey, SelectItem.projectsKey,
      column?_of_compileProjection hp, h.groupBy_eq]
    cases item.expression.field? <;> rfl
  have hany := congrArg (List.any · id) hitems
  simp only [List.any_map, Function.id_comp] at hany
  rw [collides, ← hany, ← Run.isEmpty_of_mapM h.groupBy, Bool.and_eq_true, List.any_eq_true,
    Bool.not_eq_true', List.isEmpty_eq_false_iff]

/-- **The grouping of a query reports** an output in place of the grouping key, and nothing else. -/
theorem Compiles.reports_assemble (h : q.Compiles config s sel) :
    Reports (sel.assemble config)
      (if q.collides then [.unsupportedOperation .groupKeyCollision] else []) := by
  intro err
  rw [Selection.assemble_eq_error_iff_of_apart h.apart, Selection.stages_eq_error_iff, ← and_assoc,
    h.collides_iff]
  cases q.collides <;> simp [eq_comm]

end

/-- **A query reports its first fault**, wherever its numbering starts. -/
theorem reports_assembled (config : Config) (s : Sequence) (q : Query) :
    Reports (q.selection config s >>= Selection.assemble config) (q.faults config) := by
  refine (q.reports_selection config s).bind fun sel hsel => ?_
  exact (selection_eq_ok_iff.1 hsel).reports_assemble

end Query

/-! ## §3 Whole queries -/

/-- The stages of a query in their order, each of them once if its clause is there and not at all if
    it is not. -/
def Query.stageRow (q : Query) (filter having : Option CompiledFragment)
    (group project sort : String) : List Stage :=
  (filter.toList.map fun c => .matching c.fragment)
    ++ (if q.groupBy.isEmpty then [] else [.group group])
    ++ (if q.select.isEmpty then [] else [.project project])
    ++ (having.toList.map fun c => .having c.fragment)
    ++ (if q.orderBy.isEmpty then [] else [.sort sort])
    ++ q.offset.toList.map .skip ++ q.limit.toList.map .limit

theorem stageOf_eq_map_toList {α : Type} (clause : Option α) (stage : α → Stage) :
    stageOf clause stage = clause.toList.map stage := by
  cases clause <;> rfl

/-- **The stages of a compiled query** are there with their clauses. -/
theorem Query.Compiles.exists_arranged_eq {q : Query} {config : Config} {s : Sequence}
    {sel : Selection} (h : q.Compiles config s sel) {middle : List Stage}
    (hmiddle : sel.middle config = .ok middle) :
    ∃ group project sort,
      sel.arranged middle = q.stageRow sel.filter sel.having group project sort := by
  have hgroup : ∃ group, middle =
      (if q.groupBy.isEmpty then [] else [.group group]) ++ sel.projectStage := by
    rw [Selection.middle_eq_ok_iff, Run.isEmpty_of_mapM h.groupBy] at hmiddle
    cases hempty : q.groupBy.isEmpty with
    | true =>
      rw [hempty] at hmiddle
      exact ⟨"", hmiddle⟩
    | false =>
      rw [hempty] at hmiddle
      obtain ⟨group, _, hgroup⟩ := hmiddle
      exact ⟨group.render, hgroup⟩
  obtain ⟨group, rfl⟩ := hgroup
  refine ⟨group, (projectFields sel.groupBy sel.attributes).render, (sortFields sel.orderBy).render,
    ?_⟩
  rw [Query.stageRow, Selection.arranged, Selection.ending, Selection.projectStage, h.offset, h.limit,
    Run.isEmpty_of_mapM h.attributes, Run.isEmpty_of_mapM h.orderBy]
  simp only [List.append_assoc, stageOf_eq_map_toList]

namespace Session

/-- **A session compiles exactly the well-formed queries, and reports the first fault of any other.**

    - Whether a query compiles depends on its clauses alone, each of them taken on its own.
    - The error is that of the first bad item in the order filter, outputs, grouping keys, HAVING
      clause, sort keys, output in place of the grouping key.
    - The stages come in the order match, group, project, having, sort, skip, limit, each of them once
      if its clause is there and not at all if it is not.  The filter and the HAVING clause stand in
      their stages as they are compiled, the one behind the other.
    - The placeholders are those of these two clauses, which have none in common. -/
theorem query_accepts_wellFormed (s : Session) (q : Query) :
    ((∃ p, (query q).eval s = .ok p) ↔ q.WellFormed s.config) ∧
    (∀ err, (query q).eval s = .error err ↔ (q.faults s.config).head? = some err) ∧
    ∀ p, (query q).eval s = .ok p →
      ∃ filter having group project sort,
        q.filter.mapM (compileFilter s.config s.sequence) = .ok filter ∧
        q.having.mapM (compileHaving s.config (s.sequence.behind filter)) = .ok having ∧
        p.stages = q.stageRow filter having group project sort ∧
        (∀ c ∈ filter, ∀ c' ∈ having, c.placeholders.Apart c'.placeholders) ∧
        ∀ name v, p.placeholders.get? name = some v ↔
          (∃ c ∈ filter, c.placeholders.get? name = some v) ∨
            ∃ c ∈ having, c.placeholders.get? name = some v := by
  have hreports : Reports ((query q).eval s) (q.faults s.config) := by
    rw [eval_query]
    exact q.reports_assembled s.config s.sequence
  refine ⟨hreports.exists_ok_iff.trans Query.faults_eq_nil_iff, hreports, ?_⟩
  intro p hp
  obtain ⟨sel, middle, hsel, hmiddle, rfl⟩ := eval_query_eq_ok_iff.1 hp
  obtain ⟨group, project, sort, hstages⟩ := hsel.exists_arranged_eq hmiddle
  refine ⟨sel.filter, sel.having, group, project, sort, hsel.filter, hsel.having, hstages,
    Selection.filter_apart_having hsel.apart, ?_⟩
  intro name v
  exact Selection.get?_placeholders_iff hsel.apart

end Session

end QueryPipeline
