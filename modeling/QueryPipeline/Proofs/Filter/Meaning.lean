import QueryPipeline.Proofs.Filter.Finalization

/-!
# What filters mean

A condition has a truth value in a world: a row of stored values, values for the variables, and a
reading of the comparisons.  So has a filter document.  Compiling keeps the truth value in every
world where exchanging the operands of a comparison mirrors the operator.

What could go wrong is not visible in the text: a mirrored operator, a negation too many or two
operands exchanged still give a well-formed document.

## Main definitions

- `World`, `World.Mirrors`: worlds, and those that agree with mirrored operators.
- `Expr.holds?`: the truth value of a condition.
- `FilterDocument.holds?`: the truth value of a document.
- `DocumentValue`: what a finished filter compares with.

## Main statements

- `FilterCompiler.agrees_of_isCondition`: a condition and its document have the same truth value.
- `compileFilter_preserves_meaning`: so have a condition and the filter it is compiled to.
-/

namespace QueryPipeline

/-! ## §1 Worlds -/

/-- What the truth of a condition depends on. -/
structure World where
  /-- The stored value of each field. -/
  row : String → Value
  /-- The value of each variable. -/
  assign : Variable → Value
  compare : CompareOp → Value → Value → Bool

/-- Exchanging the operands of a comparison mirrors the operator: what is less becomes greater, and
    equality stays as it is. -/
structure World.Mirrors (w : World) : Prop where
  eq : ∀ a b, w.compare .eq a b = w.compare .eq b a
  ne : ∀ a b, w.compare .ne a b = w.compare .ne b a
  lt : ∀ a b, w.compare .lt a b = w.compare .gt b a
  le : ∀ a b, w.compare .le a b = w.compare .ge b a

theorem World.Mirrors.compare_mirrored {w : World} (h : w.Mirrors) (op : CompareOp) (a b : Value) :
    w.compare op a b = w.compare op.mirrored b a := by
  cases op with
  | eq => exact h.eq a b
  | ne => exact h.ne a b
  | lt => exact h.lt a b
  | le => exact h.le a b
  | gt => exact (h.lt b a).symm
  | ge => exact (h.le b a).symm

namespace Expr

variable (w : World)

def value? : Expr → Option Value
  | .column c => some (w.row c.field)
  | .variable v => some (w.assign v)
  | .constant value _ => some value
  | _ => none

@[simp] theorem value?_column (c : Column) : (Expr.column c).value? w = some (w.row c.field) :=
  rfl

/-- The truth value of a condition.  Operands are compared in the order in which they stand. -/
def holds? : Expr → Option Bool
  | .and l r => do return (← l.holds?) && (← r.holds?)
  | .or l r => do return (← l.holds?) || (← r.holds?)
  | .not e => do return !(← e.holds?)
  | .compare op l r => do return w.compare op (← l.value? w) (← r.value? w)
  | .isNull e => do return w.compare .eq (← e.value? w) .null
  | _ => none

end Expr

/-! ## §2 Truth of documents -/

/-- What a junction does with two truth values. -/
def Junction.apply : Junction → Bool → Bool → Bool
  | .and, a, b => a && b
  | .or, a, b => a || b

namespace FilterDocument

variable {α β : Type} (w : World)

/-- The truth value of a document whose values are read by `value?`.  An object identifier is read
    as the value in it. -/
def holds? (value? : α → Option Value) : FilterDocument α → Option Bool
  | predicate field negated op _ value => do
    let truth := w.compare op (w.row field) (← value? value)
    return if negated then !truth else truth
  | junction j left right => do return j.apply (← left.holds? value?) (← right.holds? value?)

theorem holds?_map (f : α → β) (value? : β → Option Value) (d : FilterDocument α) :
    (d.map f).holds? w value? = d.holds? w (value? ∘ f) := by
  induction d with
  | predicate field negated op wrapped value => rfl
  | junction j left right ihl ihr => rw [map, holds?, holds?, ihl, ihr]

theorem holds?_congr {f g : α → Option Value} {d : FilterDocument α}
    (h : ∀ a ∈ d.values, f a = g a) : d.holds? w f = d.holds? w g := by
  induction d with
  | predicate field negated op wrapped value =>
    rw [holds?, holds?, h value (List.mem_singleton_self value)]
  | junction j left right ihl ihr =>
    rw [holds?, holds?, ihl fun a ha => h a (List.mem_append_left _ ha),
      ihr fun a ha => h a (List.mem_append_right _ ha)]

end FilterDocument

/-- The value of what stands in the document of a condition. -/
def World.entryValue (w : World) : Option PlaceholderEntry → Value
  | some (.variable v) => w.assign v
  | some (.literal value _) => value
  | none => .null

namespace FilterCompiler

/-! ## §3 Conditions and their documents -/

/-- A condition has the document `d`, and both have the same truth value. -/
structure Agrees (w : World) (idField : String) (e : Expr)
    (d : FilterDocument (Option PlaceholderEntry)) : Prop where
  document : e.document? idField = some d
  truth : ∃ truth, d.holds? w (fun a => some (w.entryValue a)) = some truth ∧
    e.holds? w = some truth

variable {w : World} {clause : FilterClause} {idField : String} {e : Expr}

theorem value?_of_isValue {value : Expr} (h : IsValue value) :
    ∃ entry, value.entry? = some entry ∧ value.value? w = some (w.entryValue (some entry)) := by
  cases h with
  | ofVariable v => exact ⟨.variable v, rfl, rfl⟩
  | ofConstant value type => exact ⟨.literal value type, rfl, rfl⟩

theorem Agrees.not {field : String} {negated : Bool} {op : CompareOp} {wrapped : Bool}
    {value : Option PlaceholderEntry}
    (h : Agrees w idField e (.predicate field negated op wrapped value)) :
    Agrees w idField (.not e) (.predicate field (!negated) op wrapped value) where
  document := by simp [Expr.document?, h.document, FilterDocument.negate?]
  truth := by
    obtain ⟨truth, hdocument, hexpr⟩ := h.truth
    refine ⟨!truth, ?_, by simp [Expr.holds?, hexpr]⟩
    -- turning the flag over turns the truth over
    simp only [FilterDocument.holds?, Option.bind_eq_bind, Option.bind_some] at hdocument ⊢
    cases hdocument
    cases negated <;> simp

theorem Agrees.junction (j : Junction) {l r : Expr}
    {left right : FilterDocument (Option PlaceholderEntry)} (hl : Agrees w idField l left)
    (hr : Agrees w idField r right) :
    Agrees w idField (junctionExpr j l r) (.junction j left right) where
  document := by cases j <;> simp [junctionExpr, Expr.document?, hl.document, hr.document]
  truth := by
    obtain ⟨a, hleft, hl⟩ := hl.truth
    obtain ⟨b, hright, hr⟩ := hr.truth
    refine ⟨j.apply a b, by simp [FilterDocument.holds?, hleft, hright], ?_⟩
    cases j <;> simp [junctionExpr, Expr.holds?, hl, hr, Junction.apply]

theorem agrees_of_isFieldCondition (hw : w.Mirrors) (h : IsFieldCondition clause e) :
    ∃ field negated op wrapped value,
      Agrees w idField e (.predicate field negated op wrapped value) := by
  induction h with
  | columnFirst op c hvalue =>
    obtain ⟨entry, hentry, hread⟩ := value?_of_isValue (w := w) hvalue
    refine ⟨c.field, false, op, c.field = idField, some entry, ?_, _, rfl, ?_⟩
    · simp [Expr.document?, hentry]
    · simp [Expr.holds?, hread]
  | columnLast op c hvalue =>
    obtain ⟨entry, hentry, hread⟩ := value?_of_isValue (w := w) hvalue
    refine ⟨c.field, false, op.mirrored, c.field = idField, some entry, ?_, _, rfl, ?_⟩
    · cases hvalue <;> simp_all [Expr.document?, Expr.entry?]
    · -- the document has the operands exchanged
      simp [Expr.holds?, hread, hw.compare_mirrored op]
  | isNull c hclause => exact ⟨c.field, false, .eq, false, none, rfl, _, rfl, rfl⟩
  | not _ ih =>
    obtain ⟨field, negated, op, wrapped, value, hagrees⟩ := ih
    exact ⟨_, _, _, _, _, hagrees.not⟩

/-- **A condition and its document have the same truth value.** -/
theorem agrees_of_isCondition (hw : w.Mirrors) (h : IsCondition clause e) :
    ∃ d, Agrees w idField e d := by
  induction h with
  | field hfield =>
    obtain ⟨field, negated, op, wrapped, value, hagrees⟩ := agrees_of_isFieldCondition hw hfield
    exact ⟨_, hagrees⟩
  | and _ _ ihl ihr =>
    obtain ⟨left, hl⟩ := ihl
    obtain ⟨right, hr⟩ := ihr
    exact ⟨_, hl.junction .and hr⟩
  | or _ _ ihl ihr =>
    obtain ⟨left, hl⟩ := ihl
    obtain ⟨right, hr⟩ := ihr
    exact ⟨_, hl.junction .or hr⟩

end FilterCompiler

/-! ## §4 Finished filters -/

/-- What a finished filter compares with: the placeholder of a variable, or a constant. -/
inductive DocumentValue where
  | placeholder (name : String)
  | constant (value : Value) (type : AttributeType)
deriving Repr, DecidableEq

namespace DocumentValue

/-- A placeholder is written as its name, a constant as its type says. -/
def text : DocumentValue → String
  | placeholder name => name
  | constant value type => value.renderAs type

/-- The value in a world, where `p` says which variables the placeholders stand for. -/
def value? (w : World) (p : Placeholders) : DocumentValue → Option Value
  | placeholder name => (p.get? name).map w.assign
  | constant value _ => some value

/-- What is left of a value of the document of a condition when the filter is finished. -/
def ofNamed : Option (String × PlaceholderEntry) → DocumentValue
  | some (name, .variable _) => placeholder name
  | some (_, .literal value type) => constant value type
  | none => constant .null .object

theorem text_comp_ofNamed : text ∘ ofNamed = FilterDocument.finalText := by
  funext a
  match a with
  | some (_, .variable _) => rfl
  | some (_, .literal _ _) => rfl
  | none => rfl

end DocumentValue

namespace FilterCompiler

variable {config : Config} {clause : FilterClause} {sequence : Sequence} {e : Expr}
  {compiled : CompiledFragment} {d : FilterDocument (Option PlaceholderEntry)}

/-- A placeholder means the variable that it was given out for. -/
theorem value?_ofNamed (h : (start config clause sequence).compile e = .ok compiled)
    (hd : CompilesTo clause config.idField e d) (w : World)
    {a : Option (String × PlaceholderEntry)} (ha : a ∈ (d.numbered sequence).values) :
    (DocumentValue.ofNamed a).value? w compiled.placeholders =
      some (w.entryValue (a.map Prod.snd)) := by
  match a with
  | some (name, .variable v) =>
    -- the name is looked up in the table that the clause leaves behind
    have hnamed := FilterDocument.mem_named_of_mem_values ha
    rw [hd.entries] at hnamed
    have hget := (get?_placeholders_of_compile h).2 hnamed
    simp [DocumentValue.ofNamed, DocumentValue.value?, hget, World.entryValue]
  | some (_, .literal _ _) => rfl
  | none => rfl

/-- Finishing a filter does not change what its document means. -/
theorem holds?_finished (h : (start config clause sequence).compile e = .ok compiled)
    (hd : CompilesTo clause config.idField e d) (w : World) :
    ((d.numbered sequence).map DocumentValue.ofNamed).holds? w
        (DocumentValue.value? w compiled.placeholders) =
      d.holds? w fun a => some (w.entryValue a) := by
  calc ((d.numbered sequence).map DocumentValue.ofNamed).holds? w
          (DocumentValue.value? w compiled.placeholders)
      = (d.numbered sequence).holds? w
          ((fun a => some (w.entryValue a)) ∘ Option.map Prod.snd) := by
        rw [FilterDocument.holds?_map]
        apply FilterDocument.holds?_congr
        intro a ha
        exact value?_ofNamed h hd w ha
    _ = d.holds? w fun a => some (w.entryValue a) := by
        rw [← FilterDocument.holds?_map, FilterDocument.map_snd_numbered]

end FilterCompiler

/-- **Compiling preserves meaning.**  A compiled filter is the text of a document that has the truth
    value of the condition in every world that agrees with mirrored operators.  The text spells the
    operators by which the document is read. -/
theorem compileFilter_preserves_meaning {config : Config} {sequence : Sequence} {e : Expr}
    {compiled : CompiledFragment} (hcompiled : compileFilter config sequence e = .ok compiled)
    (hcolumns : ∀ c ∈ e.columns, QuoteFree c.field) :
    ∃ d : FilterDocument DocumentValue, compiled.fragment = d.render DocumentValue.text ∧
      ∀ w : World, w.Mirrors →
        ∃ truth, d.holds? w (DocumentValue.value? w compiled.placeholders) = some truth ∧
          e.holds? w = some truth := by
  obtain ⟨d, hd, hfragment⟩ := FilterCompiler.fragment_of_compile hcompiled hcolumns
  refine ⟨(d.numbered sequence).map DocumentValue.ofNamed, ?_, ?_⟩
  · rw [hfragment, FilterDocument.render_map, DocumentValue.text_comp_ofNamed]
  · intro w hw
    have hcondition := FilterCompiler.compile_isOk_iff.1 ⟨compiled, hcompiled⟩
    obtain ⟨d', hagrees⟩ := FilterCompiler.agrees_of_isCondition (w := w) hw hcondition
    -- a condition has only one document
    cases hd.document.symm.trans hagrees.document
    rw [FilterCompiler.holds?_finished hcompiled hd w]
    exact hagrees.truth

/-- A world where integers are compared by size. -/
def integerWorld (row : String → Value) (assign : Variable → Value) : World where
  row := row
  assign := assign
  compare := fun op a b =>
    let size : Value → Int := fun
      | .int n => n.toInt
      | _ => 0
    match op with
    | .eq => a = b
    | .ne => a ≠ b
    | .lt => size a < size b
    | .le => size a ≤ size b
    | .gt => size b < size a
    | .ge => size b ≤ size a

theorem mirrors_integerWorld (row : String → Value) (assign : Variable → Value) :
    (integerWorld row assign).Mirrors := by
  constructor <;> simp [integerWorld, eq_comm]

/-- A junction with a null check, a comparison with its column on the right and a negation. -/
def meaningSample : Expr :=
  .or (.isNull (.column { field := "age", type := .int }))
    (.and
      (.compare .lt (.variable { field := "low", type := .int })
        (.column { field := "age", type := .int }))
      (.not (.compare .eq (.column { field := "_id", type := .string })
        (.constant (.text "a") .string))))

/-- The comparison with its column on the right is spelled with the mirrored operator. -/
theorem compileFilter_preserves_meaning_mirrored :
    ∃ compiled, compileFilter {} {} meaningSample = .ok compiled ∧
      compiled.fragment =
        "\x7b'$or': [\x7b'age': \x7b'$eq': null\x7d\x7d, " ++
          "\x7b'$and': [\x7b'age': \x7b'$gt': var1\x7d\x7d, " ++
          "\x7b'_id': \x7b'$not': \x7b'$eq': \x7b'$oid': 'a'\x7d\x7d\x7d\x7d]\x7d]\x7d" ∧
      ∃ d : FilterDocument DocumentValue, compiled.fragment = d.render DocumentValue.text ∧
      d.holds? (integerWorld (fun _ => .int 30) fun _ => .int 18)
        (DocumentValue.value? (integerWorld (fun _ => .int 30) fun _ => .int 18)
          compiled.placeholders) = some true := by
  have htext : (compileFilter {} {} meaningSample).toOption.map CompiledFragment.fragment = some
      ("\x7b'$or': [\x7b'age': \x7b'$eq': null\x7d\x7d, " ++
        "\x7b'$and': [\x7b'age': \x7b'$gt': var1\x7d\x7d, " ++
        "\x7b'_id': \x7b'$not': \x7b'$eq': \x7b'$oid': 'a'\x7d\x7d\x7d\x7d]\x7d]\x7d") := by
    decide +kernel
  have hcondition : IsCondition .matching meaningSample :=
    .or (.field (.isNull _ rfl)) (.and (.field (.columnLast _ _ (.ofVariable _)))
      (.field (.not (.columnFirst _ _ (.ofConstant _ _)))))
  obtain ⟨compiled, hcompiled⟩ := FilterCompiler.compile_isOk_iff.2 hcondition
  obtain ⟨d, hfragment, hmeaning⟩ := compileFilter_preserves_meaning hcompiled (by decide)
  obtain ⟨truth, hdocument, hexpr⟩ := hmeaning _ (mirrors_integerWorld _ _)
  have htrue : meaningSample.holds? (integerWorld (fun _ => .int 30) fun _ => .int 18) =
      some true := by
    decide
  cases htrue.symm.trans hexpr
  rw [compileFilter, hcompiled] at htext
  exact ⟨compiled, hcompiled, Option.some.inj htext, d, hfragment, hdocument⟩

end QueryPipeline
