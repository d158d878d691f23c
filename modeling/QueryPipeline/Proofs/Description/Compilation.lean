import QueryPipeline.Proofs.Description.Queries
import QueryPipeline.Proofs.Filter.SideBySide
import QueryPipeline.Session

/-!
# Queries compiled after they were written and read again

Writing a query and reading it again may change the kind of a constant: a long integer that 32 bits
hold comes back as an integer.  The text of the constant stays the same, and its text is all that a
compiler takes from it.

## Main definitions

- `Value.IsDiscrete`: values that are not floating-point numbers.
- `Query.exprs`: all expressions of a query.
- `Relabeling.reread`: writing and reading again as a change of constants.

## Main statements

- `Value.renderAs_reread`: a discrete value is rendered as before.
- `Session.query_reread`: a query with discrete constants is compiled as before.
- `Query.round_trip_compiles_alike`: the same, with the query that is read.
-/

namespace QueryPipeline

/-! ## §1 Values -/

namespace Value

/-- Values that are not floating-point numbers. -/
def IsDiscrete : Value → Prop
  | double _ => False
  | float _ => False
  | _ => True

/-- Values that are written as the same integer have the same text. -/
theorem renderAs_eq_of_toJson {v w : Value} {n : Int} (hv : v.toJson = .int n)
    (hw : w.toJson = .int n) (ty : AttributeType) : v.renderAs ty = w.renderAs ty := by
  have hrender (u : Value) (hu : u.toJson = .int n) :
      u.renderAs ty = if ty.isQuoted then "'" ++ toString n ++ "'" else toString n := by
    cases u <;> cases hu <;> rfl
  rw [hrender v hv, hrender w hw]

/-- **A discrete value is rendered as before** it was written and read again. -/
theorem renderAs_reread {v : Value} (h : v.IsDiscrete) (ty : AttributeType) :
    v.reread.renderAs ty = v.renderAs ty := by
  cases v with
  -- the only discrete kind that may change
  | long n =>
    exact renderAs_eq_of_toJson (toJson_ofInt n.minValue_le_toInt n.toInt_le) rfl ty
  | float x => cases h
  | _ => rfl

end Value

/-! ## §2 Expressions -/

/-- What writing and reading again does to the leaves of an expression. -/
def Relabeling.reread : Relabeling where
  column c := c
  constant c := (c.1.reread, c.2)

/-- What a compiled clause shows of an entry: the variable that it is, or the text of the constant. -/
def PlaceholderEntry.shown (a : PlaceholderEntry) : Option Variable × Option String :=
  ⟨ PlaceholderEntry.variable? a, a.literalText?⟩

namespace Expr

theorem reread_eq_relabel (e : Expr) : e.reread = e.relabel .reread := by
  induction e with
  | and l r ihl ihr | or l r ihl ihr => rw [reread, relabel, ihl, ihr]
  | compare op l r ihl ihr | arithmetic op l r ihl ihr => rw [reread, relabel, ihl, ihr]
  | not e ih | isNull e ih | member e source ih => rw [reread, relabel, ih]
  | call f args ih =>
    have hargs : rereadAll args = relabelAll .reread args := by
      induction args with
      | nil => rfl
      | cons first rest ihrest =>
        obtain ⟨hfirst, hrest⟩ := List.forall_mem_cons.1 ih
        rw [rereadAll, relabelAll, hfirst, ihrest hrest]
    rw [reread, relabel, hargs]
  | column c | var v | constant value type => rfl

/-- Expressions without floating-point constants. -/
def HasDiscreteConstants (e : Expr) : Prop :=
  ∀ c ∈ e.constants, c.1.IsDiscrete

variable {e : Expr} (h : e.HasDiscreteConstants)

include h

theorem keeps_reread : Relabeling.reread.Keeps PlaceholderEntry.shown e where
  column := fun _ _ => rfl
  constant := by
    intro c hc
    show (none, some (c.1.reread.renderAs c.2)) = (none, some (c.1.renderAs c.2))
    rw [Value.renderAs_reread (h c hc)]

theorem compile_reread (s : FilterCompiler) : s.compile e.reread = s.compile e := by
  have hcompile : (s.compile e.reread).map id = (s.compile e).map id := by
    rw [e.reread_eq_relabel]
    apply FilterCompiler.compile_relabel (keeps_reread h)
    intro t t' hlooks o mirrored
    -- a finished clause holds variables and texts of constants, and nothing else of the table
    cases o with
    | condition c =>
      have hremaining := hlooks.remaining_eq fun _ _ heq => congrArg Prod.fst heq
      have hinline := hlooks.inline_eq fun _ _ heq => congrArg Prod.snd heq
      have hsequence := hlooks.sequence
      simp only [FilterCompiler.finished, hremaining, hinline, hsequence]
    | _ => rfl
  rwa [Except.map_id, id, id] at hcompile

theorem compileProjection_reread : compileProjection e.reread = compileProjection e := by
  have hvisit : ∀ c ∈ e.trace,
      ProjectionCompiler.visit (Relabeling.reread.callback c) = ProjectionCompiler.visit c := by
    intro c hc
    cases c with
    | literal value type =>
      have hdiscrete : value.IsDiscrete :=
        h (value, type) (mem_constants_iff.2 (List.mem_filterMap.2 ⟨_, hc, rfl⟩))
      simp only [Relabeling.callback, Relabeling.reread, ProjectionCompiler.visit,
        Value.renderAs_reread hdiscrete]
    | _ => rfl
  unfold compileProjection
  rw [e.reread_eq_relabel, walk_relabel, walk_congr hvisit]

theorem compileKey_reread : compileKey e.reread = compileKey e := by
  unfold compileKey
  rw [compileProjection_reread h]

end Expr

/-! ## §3 Queries -/

/-- All expressions of a query. -/
def Query.exprs (q : Query) : List Expr :=
  q.filter.toList ++ q.select.map SelectItem.expression ++ q.groupBy ++ q.having.toList ++
    q.orderBy.map OrderItem.expression

theorem Query.forall_mem_exprs {q : Query} {P : Expr → Prop} :
    (∀ e ∈ q.exprs, P e) ↔
      (∀ e ∈ q.filter, P e) ∧ (∀ i ∈ q.select, P i.expression) ∧ (∀ e ∈ q.groupBy, P e) ∧
        (∀ e ∈ q.having, P e) ∧ ∀ i ∈ q.orderBy, P i.expression := by
  simp only [exprs, List.forall_mem_append, List.forall_mem_map, Option.mem_toList, Option.mem_def,
    and_assoc]

section

variable {m : Type → Type} [Monad m] {α β : Type} {f : α → α} {step : α → m β}

theorem mapM_option_map {o : Option α} (h : ∀ a ∈ o, step (f a) = step a) :
    (o.map f).mapM step = o.mapM step := by
  cases o with
  | none => rfl
  | some a => rw [Option.map_some, Option.mapM_some, Option.mapM_some, h a rfl]

theorem mapM_list_map [LawfulMonad m] {l : List α} (h : ∀ a ∈ l, step (f a) = step a) :
    (l.map f).mapM step = l.mapM step := by
  induction l with
  | nil => rfl
  | cons a rest ih =>
    obtain ⟨ha, hrest⟩ := List.forall_mem_cons.1 h
    rw [List.map_cons, List.mapM_cons, List.mapM_cons, ha, ih hrest]

end

namespace Session

variable {e : Expr} (h : e.HasDiscreteConstants)

include h

theorem filter_reread : filter e.reread = filter e := by
  unfold filter compileFilter
  simp only [e.compile_reread h]

theorem having_reread : having e.reread = having e := by
  unfold having compileHaving
  simp only [e.compile_reread h]

theorem projection_reread : projection e.reread = projection e := by
  unfold projection
  rw [e.compileProjection_reread h]

theorem key_reread : key e.reread = key e := by
  unfold key
  rw [e.compileKey_reread h]

end Session

/-- **A query with discrete constants is compiled as before.** -/
theorem Session.query_reread {q : Query} (h : ∀ e ∈ q.exprs, e.HasDiscreteConstants) :
    query q.reread = query q := by
  obtain ⟨hfilter, hselect, hgroupBy, hhaving, horderBy⟩ := Query.forall_mem_exprs.1 h
  have hattributes : (q.select.map SelectItem.reread).mapM (fun item => do
        return ({ name := item.name, projection := ← projection item.expression } :
          OutputAttribute)) =
      q.select.mapM fun item => do
        return ({ name := item.name, projection := ← projection item.expression } :
          OutputAttribute) :=
    mapM_list_map fun i hi => by rw [SelectItem.reread, projection_reread (hselect i hi)]
  have hkeys : (q.orderBy.map OrderItem.reread).mapM (fun item => do
        return ({ field := ← key item.expression, order := item.order } : SortKey)) =
      q.orderBy.mapM fun item => do
        return ({ field := ← key item.expression, order := item.order } : SortKey) :=
    mapM_list_map fun i hi => by rw [OrderItem.reread, key_reread (horderBy i hi)]
  unfold query Query.reread
  rw [mapM_option_map fun e he => filter_reread (hfilter e he), hattributes,
    mapM_list_map fun e he => key_reread (hgroupBy e he),
    mapM_option_map fun e he => having_reread (hhaving e he), hkeys]

/-- **Writing a query and reading it again does not change what it compiles to**, unless it holds
    floating-point constants: the query can be read, and in every session it gives the same pipeline
    or the same error, and leaves the same session behind. -/
theorem Query.round_trip_compiles_alike {q : Query}
    (h : ∀ e ∈ q.exprs, ∀ c ∈ e.constants, c.1.IsDiscrete) :
    ∃ q', Query.ofJson? q.toJson = some q' ∧
      ∀ s : Session, (Session.query q').exec s = (Session.query q).exec s := by
  refine ⟨q.reread, Query.ofJson?_eq_some_iff.2 q.ofDraft_draft_toJson, fun s => ?_⟩
  rw [Session.query_reread h]

/-- Long constants, of which one is declared as text. -/
def longConstants : Query where
  filter := some (.compare .lt (.constant (.long 5) .string)
    (.column { field := "size", type := .int }))
  select := [{ name := "limit", expression := .constant (.long (-5000000000)) .object }]

/-- The filter is not read as it was written, for 32 bits hold its constant. -/
theorem Query.round_trip_compiles_alike_longs :
    (∀ e ∈ longConstants.exprs, ∀ c ∈ e.constants, c.1.IsDiscrete) ∧
      ∃ q', Query.ofJson? longConstants.toJson = some q' ∧
        q'.filter = some (.compare .lt (.constant (.int 5) .string)
          (.column { field := "size", type := .int })) ∧
        ∀ s : Session, (Session.query q').exec s = (Session.query longConstants).exec s := by
  have hdiscrete : ∀ e ∈ longConstants.exprs, ∀ c ∈ e.constants, c.1.IsDiscrete := by
    simp [exprs, longConstants, Expr.constants, PlaceholderEntry.literal?, Value.IsDiscrete]
  refine ⟨hdiscrete, ?_⟩
  obtain ⟨q', hread, hcompiled⟩ := Query.round_trip_compiles_alike hdiscrete
  refine ⟨q', hread, ?_, hcompiled⟩
  rw [Query.ofJson?_eq_some_iff, Query.ofDraft_draft_toJson] at hread
  cases hread
  rfl

end QueryPipeline
