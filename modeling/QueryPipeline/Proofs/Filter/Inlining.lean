import QueryPipeline.Proofs.Filter.LateBinding

/-!
# Supplying values before compilation

Instead of binding the values of a filter late, its variables can be replaced by constants before it
is compiled.  The finished filter is then final, and its text is the one that late binding gives.

## Main definitions

- `Expr.supply`: an expression with supplied values in place of its variables.

## Main statements

- `IsCondition.document?_supply`: the document of such an expression.
- `FilterCompiler.exists_compile_supply`: what it compiles to, wherever its numbering starts.
-/

namespace QueryPipeline

/-! ## §1 Values in place of variables -/

/-- The supplied value of a variable as a constant of its own type; without a value the variable
    stays. -/
def PlaceholderEntry.supply (b : Bindings) : PlaceholderEntry → PlaceholderEntry
  | .variable v =>
    match b.get? v.key with
    | some value => .literal value (value.type?.getD .object)
    | none => .variable v
  | .literal value type => .literal value type

mutual

/-- An expression with supplied values in place of its variables. -/
def Expr.supply (b : Bindings) : Expr → Expr
  | .and l r => .and (l.supply b) (r.supply b)
  | .or l r => .or (l.supply b) (r.supply b)
  | .not e => .not (e.supply b)
  | .compare op l r => .compare op (l.supply b) (r.supply b)
  | .isNull e => .isNull (e.supply b)
  | .member e source => .member (e.supply b) source
  | .arithmetic op l r => .arithmetic op (l.supply b) (r.supply b)
  | .call f args => .call f (Expr.supplyAll b args)
  | .column c => .column c
  | .variable v =>
    match b.get? v.key with
    | some value => .ofValue value
    | none => .variable v
  | .constant value type => .constant value type

/-- The arguments of a call with supplied values in place of their variables. -/
def Expr.supplyAll (b : Bindings) : List Expr → List Expr
  | [] => []
  | e :: rest => e.supply b :: Expr.supplyAll b rest

end

variable {b : Bindings} {e : Expr}

theorem IsValue.supply (h : IsValue e) (b : Bindings) :
    IsValue (e.supply b) ∧ Expr.entry? (e.supply b) = e.entry?.map (PlaceholderEntry.supply b) := by
  cases h with
  | ofVariable v =>
    simp only [Expr.supply, Expr.entry?, Option.map_some, PlaceholderEntry.supply]
    cases b.get? v.key with
    | none => exact ⟨.ofVariable v, rfl⟩
    | some value => exact ⟨.ofConstant _ _, rfl⟩
  | ofConstant value type => exact ⟨.ofConstant value type, rfl⟩

/-- With its values supplied a condition is still one. -/
theorem IsFieldCondition.supply {clause : FilterClause} (h : IsFieldCondition clause e)
    (b : Bindings) : IsFieldCondition clause (e.supply b) := by
  induction h with
  | columnFirst op c hvalue => exact .columnFirst op c (hvalue.supply b).1
  | columnLast op c hvalue => exact .columnLast op c (hvalue.supply b).1
  | isNull c hclause => exact .isNull c hclause
  | not _ ih => exact .not ih

theorem IsCondition.supply {clause : FilterClause} (h : IsCondition clause e) (b : Bindings) :
    IsCondition clause (e.supply b) := by
  induction h with
  | field hfield => exact .field (hfield.supply b)
  | and _ _ ihl ihr => exact .and ihl ihr
  | or _ _ ihl ihr => exact .or ihl ihr

/-! ## §2 Documents -/

theorem FilterDocument.negate?_map {α β : Type} (f : α → β) (d : FilterDocument α) :
    (d.map f).negate? = d.negate?.map (FilterDocument.map f) := by
  cases d <;> rfl

/-- A comparison with its column on the right has the mirrored predicate. -/
theorem IsValue.document?_columnLast (h : IsValue e) (idField : String) (op : CompareOp)
    (c : Column) :
    (Expr.compare op e (.column c)).document? idField =
      e.entry?.map fun entry =>
        .predicate c.field false op.mirrored (c.field = idField) (some entry) := by
  cases h <;> rfl

theorem document?_columnFirst (idField : String) (op : CompareOp) (c : Column) (e : Expr) :
    (Expr.compare op (.column c) e).document? idField =
      e.entry?.map fun entry => .predicate c.field false op (c.field = idField) (some entry) := by
  rw [Expr.document?]
  cases e.entry? <;> rfl

theorem IsFieldCondition.document?_supply {clause : FilterClause} (h : IsFieldCondition clause e)
    (idField : String) (b : Bindings) :
    (e.supply b).document? idField =
      (e.document? idField).map (FilterDocument.map (Option.map (PlaceholderEntry.supply b))) := by
  induction h with
  | columnFirst op c hvalue =>
    obtain ⟨_, hentry⟩ := hvalue.supply b
    rw [Expr.supply, Expr.supply, document?_columnFirst, document?_columnFirst, hentry,
      Option.map_map, Option.map_map]
    rfl
  | columnLast op c hvalue =>
    obtain ⟨hsupplied, hentry⟩ := hvalue.supply b
    rw [Expr.supply, Expr.supply, hsupplied.document?_columnLast, hvalue.document?_columnLast, hentry,
      Option.map_map, Option.map_map]
    rfl
  | isNull c hclause => rfl
  | @not e _ ih =>
    rw [Expr.supply, Expr.document?, Expr.document?, ih]
    cases e.document? idField with
    | none => rfl
    | some d => exact FilterDocument.negate?_map _ d

/-- **The document of a condition with its values supplied** is its document with them. -/
theorem IsCondition.document?_supply {clause : FilterClause} (h : IsCondition clause e)
    (idField : String) (b : Bindings) :
    (e.supply b).document? idField =
      (e.document? idField).map (FilterDocument.map (Option.map (PlaceholderEntry.supply b))) := by
  induction h with
  | field hfield => exact hfield.document?_supply idField b
  | @and l r _ _ ihl ihr =>
    rw [Expr.supply, Expr.document?, Expr.document?, ihl, ihr]
    cases l.document? idField <;> cases r.document? idField <;> rfl
  | @or l r _ _ ihl ihr =>
    rw [Expr.supply, Expr.document?, Expr.document?, ihl, ihr]
    cases l.document? idField <;> cases r.document? idField <;> rfl

/-! ## §3 Final texts -/

namespace FilterDocument

/-- A document without variables is final once its constants are written out. -/
theorem render_finalText {d : FilterDocument (Option PlaceholderEntry)}
    (h : ∀ v, some (.variable v) ∉ d.values) (s : Sequence) (b : Bindings) :
    (d.numbered s).render finalText = d.render (boundText b) := by
  calc (d.numbered s).render finalText
      = (d.numbered s).render (boundText b ∘ Option.map Prod.snd) := by
        apply render_congr
        intro a ha
        match a with
        | none => rfl
        | some (name, .literal value type) => rfl
        | some (name, .variable v) =>
          -- a variable of the numbered document is one of the document
          have hvalue : some (.variable v) ∈ d.values := by
            rw [← map_snd_numbered s d, values_map]
            exact List.mem_map.2 ⟨_, ha, rfl⟩
          exact absurd hvalue (h v)
    _ = d.render (boundText b) := by rw [← render_map, map_snd_numbered]

end FilterDocument

theorem Value.renderAs_ofValue (value : Value) :
    value.renderAs (value.type?.getD .object) = value.render := by
  cases value <;> rfl

/-- Supplying a value first changes nothing about what is written in the end. -/
theorem FilterDocument.boundText_supply (b : Bindings) (a : Option PlaceholderEntry) :
    boundText b (a.map (PlaceholderEntry.supply b)) = boundText b a := by
  match a with
  | none => rfl
  | some (.literal value type) => rfl
  | some (.variable v) =>
    simp only [Option.map_some, PlaceholderEntry.supply]
    cases hvalue : b.get? v.key with
    | none => rfl
    | some value => simp [boundText, hvalue, Value.renderAs_ofValue]

/-! ## §4 Finished filters -/

namespace FilterCompiler

variable {config : Config} {clause : FilterClause} {d : FilterDocument (Option PlaceholderEntry)}

/-- With its values supplied a condition compiles to its document with them. -/
theorem CompilesTo.supply (hd : CompilesTo clause config.idField e d)
    (hcondition : IsCondition clause e) (b : Bindings) :
    CompilesTo clause config.idField (e.supply b)
      (d.map (Option.map (PlaceholderEntry.supply b))) := by
  obtain ⟨d', hd'⟩ := @exists_compilesTo clause config.idField _ (hcondition.supply b)
  have hdocument := hcondition.document?_supply config.idField b
  rw [hd.document, hd'.document] at hdocument
  cases hdocument
  exact hd'

/-- The columns stay, so no field of the inlined document has a quote in it. -/
theorem CompilesTo.quoteFree_columns_supply (hd : CompilesTo clause config.idField e d)
    (hcondition : IsCondition clause e) (hcolumns : ∀ c ∈ e.columns, QuoteFree c.field)
    (b : Bindings) : ∀ c ∈ (e.supply b).columns, QuoteFree c.field := by
  intro c hc
  have hfield : c.field ∈ d.fields := by
    rw [← FilterDocument.fields_map (Option.map (PlaceholderEntry.supply b)),
      (hd.supply hcondition b).fields]
    exact List.mem_map.2 ⟨c, hc, rfl⟩
  rw [hd.fields] at hfield
  obtain ⟨c', hc', heq⟩ := List.mem_map.1 hfield
  exact heq ▸ hcolumns c' hc'

/-- With a value for each of them, all variables are replaced. -/
theorem CompilesTo.not_mem_values_supply (hd : CompilesTo clause config.idField e d)
    {b : Bindings} (hsupplied : ∀ v ∈ e.vars, b.contains v.key) (v : Variable) :
    some (.variable v) ∉ (d.map (Option.map (PlaceholderEntry.supply b))).values := by
  intro hv
  rw [FilterDocument.values_map] at hv
  obtain ⟨a, ha, hreplaced⟩ := List.mem_map.1 hv
  match a with
  | none => cases hreplaced
  | some (.literal value type) => cases hreplaced
  | some (.variable w) =>
    have hentry : PlaceholderEntry.variable w ∈ e.entries := by
      rw [← hd.entries]
      exact List.mem_filterMap.2 ⟨_, ha, rfl⟩
    have hw := hsupplied w (List.mem_filterMap.2 ⟨_, hentry, rfl⟩)
    obtain ⟨value, hvalue⟩ := Option.isSome_iff_exists.1 hw
    simp [PlaceholderEntry.supply, hvalue] at hreplaced

/-- **Supplying values before compilation** gives a filter that is final, with the text that late
    binding gives. -/
theorem exists_compile_supply (hd : CompilesTo clause config.idField e d)
    (hcondition : IsCondition clause e) (hcolumns : ∀ c ∈ e.columns, QuoteFree c.field)
    (b : Bindings) (s : Sequence) :
    ∃ compiled, (start config clause s).compile (e.supply b) = .ok compiled ∧
      ((∀ v ∈ e.vars, b.contains v.key) →
        compiled.fragment = d.render (FilterDocument.boundText b)) := by
  obtain ⟨compiled, hcompiled⟩ :=
    (@compile_isOk_iff clause (e.supply b) config s).2 (hcondition.supply b)
  refine ⟨compiled, hcompiled, ?_⟩
  intro hsupplied
  obtain ⟨d', hd', hfragment⟩ :=
    fragment_of_compile hcompiled (hd.quoteFree_columns_supply hcondition hcolumns b)
  cases Option.some.inj (hd'.document.symm.trans (hd.supply hcondition b).document)
  -- only constants are left, and they are written as the values would be
  rw [hfragment, FilterDocument.render_finalText (hd.not_mem_values_supply hsupplied) s b,
    FilterDocument.render_map]
  apply FilterDocument.render_congr
  intro a _
  exact FilterDocument.boundText_supply b a

end FilterCompiler

end QueryPipeline
