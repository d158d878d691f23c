import QueryPipeline.Proofs.Filter.Inlining
import QueryPipeline.Proofs.Pipeline.Texts
import QueryPipeline.Proofs.Session.Clauses

/-!
# Late binding of whole queries

The filter and the HAVING clause of a query share one table of placeholders, and all stages are
resolved together.  Resolving writes the supplied values into the two clauses and leaves the other
stages as they are, so the texts are those of the query with the values written in before it is
compiled.

## Main definitions

- `Query.vars`, `Query.supply`: the variables of a query, and the query with their values.
- `Query.IsInert`: queries without quotes in their names and with inert constants.

## Main statements

- `Selection.resolve_eq_ok_iff`: resolving the stages of a selection.
- `Session.resolve_query_eq_ok_iff`: resolving a compiled query.
- `Session.resolve_query_inlined`: late binding agrees with early inlining.
-/

namespace QueryPipeline

/-! ## §1 Queries and their values -/

namespace Query

/-- The clauses of a query that may hold variables to be bound. -/
def conditions (q : Query) : List Expr :=
  q.filter.toList ++ q.having.toList

/-- The variables of the filter and of the HAVING clause. -/
def vars (q : Query) : List Variable :=
  q.conditions.flatMap Expr.vars

theorem forall_mem_vars {q : Query} {motive : Variable → Prop} :
    (∀ v ∈ q.vars, motive v) ↔
      (∀ e ∈ q.filter, ∀ v ∈ e.vars, motive v) ∧ ∀ e ∈ q.having, ∀ v ∈ e.vars, motive v := by
  simp only [vars, conditions, List.flatMap_append, List.forall_mem_append, List.forall_mem_flatMap,
    Option.mem_toList, Option.mem_def]

/-- The query with supplied values in place of the variables of its filter and HAVING clause. -/
def supply (b : Bindings) (q : Query) : Query :=
  { q with filter := q.filter.map (Expr.supply b), having := q.having.map (Expr.supply b) }

/-- Queries without quotes in the names of columns and outputs, and with inert constants. -/
structure IsInert (q : Query) : Prop where
  conditions : ∀ e ∈ q.conditions, e.IsInert
  outputs : ∀ item ∈ q.select, QuoteFree item.name ∧ item.expression.IsInert
  keys : ∀ e ∈ q.groupBy ++ q.orderBy.map OrderItem.expression, ∀ c ∈ e.columns, QuoteFree c.field

instance (q : Query) : Decidable q.IsInert :=
  decidable_of_iff
    ((∀ e ∈ q.conditions, e.IsInert) ∧
      (∀ item ∈ q.select, QuoteFree item.name ∧ item.expression.IsInert) ∧
      ∀ e ∈ q.groupBy ++ q.orderBy.map OrderItem.expression, ∀ c ∈ e.columns, QuoteFree c.field)
    ⟨fun h => ⟨h.1, h.2.1, h.2.2⟩, fun h => ⟨h.1, h.2, h.3⟩⟩

end Query

/-! ## §2 One clause -/

/-- A finished clause that may be absent, and the same clause with its values written in before it
    was compiled. -/
structure LateBinds (b : Bindings) (clause : Option Expr)
    (compiled inlined : Option CompiledFragment) : Prop where
  template : ∀ c ∈ compiled, ∃ s e bound, c.IsTemplate s e bound
  supplied_iff : (∀ c ∈ compiled, c.placeholders.Supplied b) ↔
    ∀ e ∈ clause, ∀ v ∈ e.vars, b.contains v.key
  written : (∀ e ∈ clause, ∀ v ∈ e.vars, b.contains v.key) →
    ∀ p : Placeholders, p.Numbered →
      (∀ c ∈ compiled, ∀ name v, c.placeholders.get? name = some v → p.get? name = some v) →
      compiled.map (fun c => replaceNames (Resolver.fresh p b).valueText? c.fragment) =
        inlined.map CompiledFragment.fragment

/-- A clause that compiles binds late, wherever the numbering of the other one starts. -/
theorem exists_lateBinds {config : Config} {kind : FilterClause} {s : Sequence}
    {clause : Option Expr} {compiled : Option CompiledFragment}
    (h : clause.mapM (FilterCompiler.start config kind s).compile = .ok compiled)
    (hinert : ∀ e ∈ clause, e.IsInert) (b : Bindings) (s' : Sequence) :
    ∃ inlined, (clause.map (Expr.supply b)).mapM (FilterCompiler.start config kind s').compile =
        .ok inlined ∧ LateBinds b clause compiled inlined := by
  cases clause with
  | none =>
    cases h
    exact ⟨none, rfl, by simp, by simp, by simp⟩
  | some e =>
    rw [Option.mapM_some, map_eq_pure_bind] at h
    obtain ⟨c, hc, h⟩ := Run.bind_eq_ok_iff.1 h
    cases h
    have he := hinert e rfl
    -- what compiles is a condition, and with its values it still is one
    have hcondition : IsCondition kind e := FilterCompiler.compile_isOk_iff.1 ⟨c, hc⟩
    obtain ⟨d, hd, htemplate⟩ := FilterCompiler.isTemplate_of_compile hc he.columns he.constants
    obtain ⟨c', hc', hfragment⟩ :=
      FilterCompiler.exists_compile_supply hd hcondition he.columns b s'
    refine ⟨some c', ?_, ?_, ?_, ?_⟩
    · rw [Option.map_some, Option.mapM_some, hc']
      rfl
    · intro c₁ hc₁
      cases hc₁
      exact ⟨s, e, _, htemplate⟩
    · simpa using htemplate.supplied_iff
    · intro hsupplied p hp hholds
      have hvars := hsupplied e rfl
      rw [Option.map_some, Option.map_some, hfragment hvars,
        htemplate.replaceNames_eq hp (hholds c rfl) hvars]

/-- The stage of a clause. -/
def conditionTexts (compiled : Option CompiledFragment) : List String :=
  (compiled.map CompiledFragment.fragment).toList.map (singleton "$match")

namespace LateBinds

variable {b : Bindings} {clause : Option Expr} {compiled inlined : Option CompiledFragment}
  (h : LateBinds b clause compiled inlined)

include h

theorem mem_visibleNames {c : CompiledFragment} (hc : c ∈ compiled) {name : String}
    (hname : name ∈ c.placeholders.names) :
    name ∈ (conditionTexts compiled).flatMap visibleNames := by
  obtain ⟨s, e, bound, htemplate⟩ := h.template c hc
  cases hc
  have hvisible := htemplate.shows name hname
  rw [← visibleNames_singleton (by decide : QuoteFree "$match") htemplate.balanced] at hvisible
  exact List.mem_flatMap.2 ⟨_, List.mem_singleton_self _, hvisible⟩

theorem map_conditionTexts (hsupplied : ∀ e ∈ clause, ∀ v ∈ e.vars, b.contains v.key)
    {p : Placeholders} (hp : p.Numbered)
    (hholds : ∀ c ∈ compiled, ∀ name v, c.placeholders.get? name = some v → p.get? name = some v) :
    (conditionTexts compiled).map (replaceNames (Resolver.fresh p b).valueText?) =
      conditionTexts inlined := by
  have hwritten := h.written hsupplied p hp hholds
  unfold conditionTexts
  rw [← hwritten]
  cases compiled with
  | none => rfl
  | some c =>
    obtain ⟨s, e, bound, htemplate⟩ := h.template c rfl
    have hstage := replaceNames_singleton (Resolver.fresh p b).valueText?
      (by decide : QuoteFree "$match") htemplate.balanced
    simp [hstage]

end LateBinds

/-! ## §3 All stages -/

namespace Selection

/-- The texts of the stages, with those of the two clauses set off. -/
theorem render_arranged (sel : Selection) (middle : List Stage) :
    (sel.arranged middle).map Stage.render =
      conditionTexts sel.filter ++ middle.map Stage.render ++ conditionTexts sel.having ++
        sel.ending.map Stage.render := by
  have hfilter : (stageOf sel.filter fun c => .matching c.fragment).map Stage.render =
      conditionTexts sel.filter := by
    cases sel.filter <;> rfl
  have hhaving : (stageOf sel.having fun c => .having c.fragment).map Stage.render =
      conditionTexts sel.having := by
    cases sel.having <;> rfl
  simp only [arranged, List.map_append, hfilter, hhaving]

/-- Stages without placeholders stay as they are. -/
theorem map_replaceNames_of_showsNoPlaceholder {p : Placeholders} (hp : p.Numbered)
    {stages : List Stage} (h : ∀ stage ∈ stages, ShowsNoPlaceholder stage.render) (b : Bindings) :
    (stages.map Stage.render).map (replaceNames (Resolver.fresh p b).valueText?) =
      stages.map Stage.render := by
  rw [List.map_map]
  apply List.map_congr_left
  intro stage hstage
  exact (h stage hstage).replaceNames_eq_self hp b

section

variable {sel : Selection} {q : Query} {b : Bindings} {filter having : Option CompiledFragment}
  (hfilter : LateBinds b q.filter sel.filter filter)
  (hhaving : LateBinds b q.having sel.having having)

include hfilter hhaving

/-- Every placeholder stands in the stage of its clause. -/
theorem mem_visibleNames_of_mem_placeholders (middle : List Stage) :
    ∀ name ∈ sel.placeholders.names,
      name ∈ ((sel.arranged middle).map Stage.render).flatMap visibleNames := by
  intro name hname
  rw [render_arranged, List.flatMap_append, List.flatMap_append, List.flatMap_append]
  rcases Placeholders.mem_names_joinedAll.1 hname with hname | ⟨p, hp, hname⟩
  · cases hname
  · obtain ⟨c, hc, rfl⟩ := List.mem_map.1 hp
    rcases List.mem_append.1 hc with hc | hc
    · have hvisible := hfilter.mem_visibleNames (Option.mem_toList.1 hc) hname
      simp [hvisible]
    · have hvisible := hhaving.mem_visibleNames (Option.mem_toList.1 hc) hname
      simp [hvisible]

variable (hapart : (sel.clauses.map CompiledFragment.placeholders).Pairwise Placeholders.Apart)

include hapart

/-- The table of a selection needs a value for each variable of its clauses. -/
theorem supplied_placeholders_iff :
    sel.placeholders.Supplied b ↔ ∀ v ∈ q.vars, b.contains v.key := by
  rw [Query.forall_mem_vars, ← hfilter.supplied_iff, ← hhaving.supplied_iff, ← forall_mem_clauses,
    placeholders, Placeholders.supplied_joinedAll_iff hapart, List.forall_mem_map]

/-- The values are written into the two clauses, and the other stages stay as they are. -/
theorem map_replaceNames_arranged (hnumbered : sel.placeholders.Numbered) {middle : List Stage}
    (hothers : ∀ stage ∈ middle ++ sel.ending, ShowsNoPlaceholder stage.render)
    (hsupplied : ∀ v ∈ q.vars, b.contains v.key) :
    ((sel.arranged middle).map Stage.render).map
        (replaceNames (Resolver.fresh sel.placeholders b).valueText?) =
      (arranged { sel with filter, having } middle).map Stage.render := by
  have hholds : ∀ c ∈ sel.clauses, ∀ name v, c.placeholders.get? name = some v →
      sel.placeholders.get? name = some v := by
    intro c hc name v hv
    exact Placeholders.get?_joinedAll_of_mem hapart (List.mem_map.2 ⟨c, hc, rfl⟩) hv
  obtain ⟨hfilterVars, hhavingVars⟩ := Query.forall_mem_vars.1 hsupplied
  obtain ⟨hholdsFilter, hholdsHaving⟩ := forall_mem_clauses.1 hholds
  obtain ⟨hmiddle, hending⟩ := List.forall_mem_append.1 hothers
  rw [render_arranged, render_arranged, List.map_append, List.map_append, List.map_append,
    hfilter.map_conditionTexts hfilterVars hnumbered hholdsFilter,
    hhaving.map_conditionTexts hhavingVars hnumbered hholdsHaving,
    map_replaceNames_of_showsNoPlaceholder hnumbered hmiddle b,
    map_replaceNames_of_showsNoPlaceholder hnumbered hending b]
  rfl

/-- **Resolving the stages of a selection** writes the values into the two clauses and leaves the
    other stages alone. -/
theorem resolve_eq_ok_iff (hnumbered : sel.placeholders.Numbered) {middle : List Stage}
    {texts : List String} (hothers : ∀ stage ∈ middle ++ sel.ending, ShowsNoPlaceholder stage.render) :
    Pipeline.resolve ⟨sel.arranged middle, sel.placeholders⟩ b = .ok texts ↔
      (∀ v ∈ q.vars, b.contains v.key) ∧
        texts = (arranged { sel with filter, having } middle).map Stage.render := by
  have htexts := map_replaceNames_arranged hfilter hhaving hapart hnumbered hothers
  rw [Pipeline.resolve, Pipeline.render, Placeholders.resolveAll_eq_ok_iff,
    supplied_placeholders_iff hfilter hhaving hapart]
  constructor
  · rintro ⟨_, hsupplied, rfl⟩
    exact ⟨hsupplied, htexts hsupplied⟩
  · rintro ⟨hsupplied, rfl⟩
    exact ⟨mem_visibleNames_of_mem_placeholders hfilter hhaving middle, hsupplied,
      (htexts hsupplied).symm⟩

end

end Selection

/-! ## §4 Compiled queries -/

section

variable {q : Query} {config : Config} {s : Sequence} {sel : Selection}

theorem Query.Compiles.numbered (h : q.Compiles config s sel) : sel.placeholders.Numbered := by
  have hclauses : ∀ c ∈ sel.clauses, c.placeholders.Numbered := by
    refine Selection.forall_mem_clauses.2 ⟨?_, ?_⟩
    · intro c hc
      exact Placeholders.numbered_of_issued (h.issued.1 c hc)
    · intro c hc
      exact Placeholders.numbered_of_issued (h.issued.2 c hc)
  apply Placeholders.numbered_joinedAll
  exact List.forall_mem_map.2 hclauses

/-- The stages without a filter show no placeholder. -/
theorem Query.Compiles.showsNoPlaceholder (h : q.Compiles config s sel) (hq : q.IsInert)
    {middle : List Stage} (hmiddle : sel.middle config = .ok middle) :
    ∀ stage ∈ middle ++ sel.ending, ShowsNoPlaceholder stage.render := by
  obtain ⟨hgroupBy, horderBy⟩ := List.forall_mem_append.1 hq.keys
  have hattributes : ∀ a ∈ sel.attributes, a.IsInert := by
    intro a ha
    obtain ⟨item, hitem, hcompile⟩ := Run.exists_of_mem_mapM h.attributes ha
    obtain ⟨p, hp, rfl⟩ := Run.map_eq_ok_iff.1 hcompile
    obtain ⟨hname, hexpression⟩ := hq.outputs item hitem
    exact ⟨hname, showsNoPlaceholder_of_compileProjection hexpression hp⟩
  have hkeys : ∀ k ∈ sel.groupBy, QuoteFree k := by
    intro k hk
    obtain ⟨e, he, hcompile⟩ := Run.exists_of_mem_mapM h.groupBy hk
    exact quoteFree_of_compileKey (hgroupBy e he) hcompile
  have hfields : ∀ k ∈ sel.orderBy, QuoteFree k.field := by
    intro k hk
    obtain ⟨item, hitem, hcompile⟩ := Run.exists_of_mem_mapM h.orderBy hk
    obtain ⟨field, hfield, rfl⟩ := Run.map_eq_ok_iff.1 hcompile
    exact quoteFree_of_compileKey (horderBy _ (List.mem_map.2 ⟨item, hitem, rfl⟩)) hfield
  exact List.forall_mem_append.2
    ⟨Selection.showsNoPlaceholder_middle hkeys hattributes hmiddle,
      Selection.showsNoPlaceholder_ending hfields⟩

end

/-- **Resolving a compiled query** gives the texts of the query with its values written in before,
    wherever the numbering of that one starts. -/
theorem Session.resolve_query_eq_ok_iff {s s' : Session} (hconfig : s'.config = s.config)
    {q : Query} {p : Pipeline} (hp : (query q).eval s = .ok p) (hq : q.IsInert) (b : Bindings) :
    ∃ p', (query (q.supply b)).eval s' = .ok p' ∧
      ∀ texts, p.resolve b = .ok texts ↔ (∀ v ∈ q.vars, b.contains v.key) ∧ texts = p'.render := by
  obtain ⟨sel, middle, hsel, hmiddle, rfl⟩ := eval_query_eq_ok_iff.1 hp
  obtain ⟨hfilter, hhaving⟩ := List.forall_mem_append.1 hq.conditions
  obtain ⟨filter, hfilter', hfilterBinds⟩ := exists_lateBinds hsel.filter
    (fun e he => hfilter e (Option.mem_toList.2 he)) b s'.sequence
  obtain ⟨having, hhaving', hhavingBinds⟩ := exists_lateBinds hsel.having
    (fun e he => hhaving e (Option.mem_toList.2 he)) b (s'.sequence.behind filter)
  -- the same outputs and keys around the other two clauses
  have hcompiles : (q.supply b).Compiles s.config s'.sequence { sel with filter, having } :=
    ⟨hfilter', hsel.attributes, hsel.groupBy, hhaving', hsel.orderBy, hsel.offset, hsel.limit⟩
  refine ⟨_, eval_query_eq_ok_iff.2 ⟨_, middle, hconfig ▸ hcompiles, hconfig ▸ hmiddle, rfl⟩, ?_⟩
  intro texts
  exact Selection.resolve_eq_ok_iff hfilterBinds hhavingBinds hsel.apart hsel.numbered
    (hsel.showsNoPlaceholder hq hmiddle)

/-- Whether a stage is the filter of a clause. -/
def Stage.holdsCondition : Stage → Bool
  | matching _ | having _ => true
  | _ => false

namespace Session

/-- The stages that are no filters come out of resolving as they are. -/
theorem forall₂_resolve_query {s : Session} {q : Query} {p : Pipeline}
    (hp : (query q).eval s = .ok p) (hq : q.IsInert) {b : Bindings} {texts : List String}
    (htexts : p.resolve b = .ok texts) :
    List.Forall₂ (fun stage text => stage.holdsCondition = false → text = stage.render)
      p.stages texts := by
  obtain ⟨sel, middle, hsel, hmiddle, rfl⟩ := eval_query_eq_ok_iff.1 hp
  obtain ⟨_, _, rfl⟩ := Placeholders.resolveAll_eq_ok_iff.1 htexts
  rw [Pipeline.render, List.map_map, List.forall₂_map_right_iff, List.forall₂_same]
  intro stage hstage hcondition
  -- it is neither the stage of the filter nor that of the HAVING clause
  have hothers : stage ∈ middle ++ sel.ending := by
    have hfilter : stage ∉ stageOf sel.filter fun c => .matching c.fragment := by
      cases sel.filter <;> simp [stageOf]
      rintro rfl
      cases hcondition
    have hhaving : stage ∉ stageOf sel.having fun c => .having c.fragment := by
      cases sel.having <;> simp [stageOf]
      rintro rfl
      cases hcondition
    simpa [Selection.arranged, hfilter, hhaving] using hstage
  exact (hsel.showsNoPlaceholder hq hmiddle stage hothers).replaceNames_eq_self hsel.numbered b

/-- **Late binding of a whole query agrees with early inlining.**  A compiled query whose variables
    all have a value can be resolved, and stage by stage it gives the texts of the same query with
    the values written in as constants before it is compiled, on any session with the same
    configuration.  The group, project, sort, skip and limit stages stay exactly as they are. -/
theorem resolve_query_inlined {s s' : Session} (hconfig : s'.config = s.config) {q : Query}
    {p : Pipeline} (hp : (query q).eval s = .ok p) (hq : q.IsInert) {b : Bindings}
    (hb : ∀ v ∈ q.vars, b.contains v.key) :
    ∃ p', (query (q.supply b)).eval s' = .ok p' ∧ p.resolve b = .ok p'.render ∧
      List.Forall₂ (fun stage text => stage.holdsCondition = false → text = stage.render)
        p.stages p'.render := by
  obtain ⟨p', hp', hresolve⟩ := resolve_query_eq_ok_iff hconfig hp hq b
  have htexts := (hresolve p'.render).2 ⟨hb, rfl⟩
  exact ⟨p', hp', htexts, forall₂_resolve_query hp hq htexts⟩

end Session

/-- A grouped query whose filter holds the name of a placeholder. -/
def lateBindingQuery : Query where
  filter := some (.and
    (.compare .lt (.variable { field := "low", type := .int })
      (.column { field := "price", type := .int }))
    (.compare .ne (.column { field := "tag", type := .string }) (.constant (.text "var1") .string)))
  select :=
    [⟨"city", .column { field := "city", type := .string }⟩,
      ⟨"total", .call { name := "sum" } [.column { field := "price", type := .int }]⟩,
      ⟨"note", .constant (.text "var2") .string⟩]
  groupBy := [.column { field := "city", type := .string }]
  having := some (.compare .eq (.column { field := "city", type := .string })
    (.variable { field := "where", type := .string }))
  orderBy := [{ expression := .column { field := "total", type := .int }, order := .desc }]
  limit := some 5

/-- Values for it, one of them with a quote and the name of a placeholder. -/
def lateBindingValues : Bindings :=
  (NameTable.empty.insert "low" (.int 7)).insert "where" (.text "it's var1")

theorem Session.resolve_query_inlined_grouped :
    ∃ p, (query lateBindingQuery).eval {} = .ok p ∧
      p.resolve lateBindingValues = .ok
        ["\x7b'$match': \x7b'$and': [\x7b'price': \x7b'$gt': 7\x7d\x7d, " ++
            "\x7b'tag': \x7b'$ne': 'var1'\x7d\x7d]\x7d\x7d",
          "\x7b'$group': \x7b'_id': '$city', 'total': \x7b'$sum': '$price'\x7d, " ++
            "'note': \x7b'$first': \x7b'$literal': 'var2'\x7d\x7d\x7d\x7d",
          "\x7b'$project': \x7b'_id': 0, 'city': '$_id', 'total': '$total', 'note': '$note'\x7d\x7d",
          "\x7b'$match': \x7b'city': \x7b'$eq': 'it's var1'\x7d\x7d\x7d",
          "\x7b'$sort': \x7b'total': -1\x7d\x7d",
          "\x7b'$limit': 5\x7d"] := by
  have hcompiles : ((query lateBindingQuery).eval {}).isOk = true := by decide +kernel
  obtain ⟨p, hp⟩ := Run.exists_eq_ok hcompiles
  obtain ⟨p', hp', hresolve, _⟩ := @resolve_query_inlined {} {} rfl _ _ hp (by decide +kernel)
    lateBindingValues (by decide +kernel)
  have hrender : ((query (lateBindingQuery.supply lateBindingValues)).eval {}).map Pipeline.render =
      .ok p'.render := by
    rw [hp']
    rfl
  refine ⟨p, hp, hresolve.trans ?_⟩
  rw [← hrender]
  decide +kernel

end QueryPipeline
