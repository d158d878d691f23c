import QueryPipeline.Description.Expr
import QueryPipeline.Proofs.Leaves

/-!
# Descriptions of expressions, written and read again

Reading settles what a description leaves open: an absent field gets its default, and a number
becomes the narrowest kind of value that holds it.  What comes out is written in full, so it can be
read again, and then nothing is left to settle.

## Main definitions

- `Value.reread`, `Expr.reread`: what a value or an expression is after it was written and read
  again.
- `Value.Settled`, `Expr.Settled`: what reading gives.

## Main statements

- `Expr.ofSetAside?_toJson`: a written expression can be read, and is then what `reread` says.
- `Expr.reread_of_ofSetAside?`: an expression that was read is left alone by it.
- `Expr.reread_eq_self_iff`: those are the expressions with settled constants.
-/

namespace QueryPipeline

/-! ## §1 Values -/

namespace Value

/-- A value that was written and read again: an integer takes the narrowest kind, and a single
    becomes a double. -/
def reread : Value → Value
  | long n => ofInt n.toInt
  | float x => double x.toFloat
  | v => v

theorem ofInt_toInt (n : Int32) : ofInt n.toInt = int n := by
  rw [ofInt, if_pos ⟨n.minValue_le_toInt, n.toInt_le⟩, Int32.ofInt_toInt]

theorem ofInt_toInt_of_wide {n : Int64}
    (h : ¬(Int32.minValue.toInt ≤ n.toInt ∧ n.toInt ≤ Int32.maxValue.toInt)) :
    ofInt n.toInt = long n := by
  rw [ofInt, if_neg h, if_pos ⟨n.minValue_le_toInt, n.toInt_le⟩, Int64.ofInt_toInt]

theorem ofInt_of_huge {n : Int} (h : ¬(Int64.minValue.toInt ≤ n ∧ n ≤ Int64.maxValue.toInt)) :
    ofInt n = double (.ofInt n) := by
  rw [Int64.toInt_minValue, Int64.toInt_maxValue] at h
  have hwide : ¬(Int32.minValue.toInt ≤ n ∧ n ≤ Int32.maxValue.toInt) := by
    rw [Int32.toInt_minValue, Int32.toInt_maxValue]
    omega
  rw [ofInt, if_neg hwide, if_neg (by rwa [Int64.toInt_minValue, Int64.toInt_maxValue])]

theorem ofJson?_toJson (v : Value) : ofJson? v.toJson = some v.reread := by
  cases v with
  | int n => exact congrArg some (ofInt_toInt n)
  | _ => rfl

/-- An integer that 64 bits hold is written as it was read. -/
theorem toJson_ofInt {n : Int} (hlow : Int64.minValue.toInt ≤ n)
    (hhigh : n ≤ Int64.maxValue.toInt) : (ofInt n).toJson = .int n := by
  rw [Int64.toInt_minValue] at hlow
  rw [Int64.toInt_maxValue] at hhigh
  unfold ofInt
  split
  · rename_i h
    rw [Int32.toInt_minValue, Int32.toInt_maxValue] at h
    rw [toJson, Int32.toInt_ofInt_of_le (by omega) (by omega)]
  · rw [if_pos ⟨by rwa [Int64.toInt_minValue], by rwa [Int64.toInt_maxValue]⟩, toJson,
      Int64.toInt_ofInt_of_le (by omega) (by omega)]

theorem reread_ofInt (n : Int) : (ofInt n).reread = ofInt n := by
  by_cases h : Int64.minValue.toInt ≤ n ∧ n ≤ Int64.maxValue.toInt
  · -- it is written as it was, so it is read as it was
    have hread := ofJson?_toJson (ofInt n)
    rw [toJson_ofInt h.1 h.2] at hread
    exact (Option.some.inj hread).symm
  · rw [ofInt_of_huge h]
    rfl

/-- What reading gives: an integer is of the narrowest kind that holds it, and a number with a
    fraction is a double. -/
def Settled : Value → Prop
  | long n => ¬(Int32.minValue.toInt ≤ n.toInt ∧ n.toInt ≤ Int32.maxValue.toInt)
  | float _ => False
  | _ => True

theorem reread_eq_self_iff {v : Value} : v.reread = v ↔ v.Settled := by
  cases v with
  | long n =>
    refine ⟨fun hreread hnarrow => ?_, ofInt_toInt_of_wide⟩
    rw [reread, ofInt, if_pos hnarrow] at hreread
    cases hreread
  | float x => simp [reread, Settled]
  | _ => simp [reread, Settled]

/-- A value that was read is the same when it is written and read again. -/
theorem reread_of_ofJson? {j : Json} {v : Value} (h : ofJson? j = some v) : v.reread = v := by
  cases j with
  | scalar s =>
    cases h
    cases s with
    | int n => exact reread_ofInt n
    | _ => rfl
  | list items => cases h
  | object fields => cases h

end Value

/-! ## §2 Expressions -/

namespace Expr

mutual

/-- An expression that was written and read again. -/
def reread : Expr → Expr
  | .and l r => .and l.reread r.reread
  | .or l r => .or l.reread r.reread
  | .not e => .not e.reread
  | .compare op l r => .compare op l.reread r.reread
  | .isNull e => .isNull e.reread
  | .member e source => .member e.reread source
  | .arithmetic op l r => .arithmetic op l.reread r.reread
  | .call f args => .call f (rereadAll args)
  | .column c => .column c
  | .variable v => .variable v
  | .constant value type => .constant value.reread type

/-- The arguments of a call that was written and read again. -/
def rereadAll : List Expr → List Expr
  | [] => []
  | e :: rest => e.reread :: rereadAll rest

end

/-! ## §3 Writing, then reading -/

theorem listed_toJsonAll {es : List Expr} (h : ∀ e ∈ es, ofSetAside? e.toJson = some e.reread) :
    listed (itemParts (toJsonAll es)) = some (rereadAll es) := by
  induction es with
  | nil => rfl
  | cons e rest ih =>
    have hfirst : (part e.toJson).expr = some e.reread := h e List.mem_cons_self
    have hrest := ih fun e' he' => h e' (List.mem_cons_of_mem _ he')
    rw [toJsonAll, itemParts, listed, hfirst, hrest, rereadAll]
    rfl

theorem toColumn_fields (kind : Json) (c : Column) :
    (parts (("kind", kind) :: c.fields)).toColumn = some c := by
  obtain ⟨table, field, type⟩ := c
  have htype : (parts (("kind", kind) :: Column.fields ⟨table, field, type⟩)).type = some type :=
    type.ofName?_name
  cases table <;> rw [Parts.toColumn, htype] <;> rfl

theorem toVariable_fields (kind : Json) (v : Variable) :
    (parts (("kind", kind) :: v.fields)).toVariable = some v := by
  obtain ⟨id, source, field, type⟩ := v
  have htype : (parts (("kind", kind) :: Variable.fields ⟨id, source, field, type⟩)).type =
      some type := type.ofName?_name
  cases id <;> cases source <;> rw [Parts.toVariable, htype] <;> rfl

/-- A written expression can be read. -/
theorem ofSetAside?_toJson (e : Expr) : ofSetAside? e.toJson = some e.reread := by
  -- every kind has fields of its own, which are found again by their names
  induction e with
  | and l r hl hr =>
    have hread : ofSetAside? (l.and r).toJson =
        (do return .and (← ofSetAside? l.toJson) (← ofSetAside? r.toJson)) := rfl
    rw [hread, hl, hr]
    rfl
  | or l r hl hr =>
    have hread : ofSetAside? (l.or r).toJson =
        (do return .or (← ofSetAside? l.toJson) (← ofSetAside? r.toJson)) := rfl
    rw [hread, hl, hr]
    rfl
  | not e he =>
    have hread : ofSetAside? e.not.toJson = (do return .not (← ofSetAside? e.toJson)) := rfl
    rw [hread, he]
    rfl
  | compare op l r hl hr =>
    have hread : ofSetAside? (Expr.compare op l r).toJson = (do
        let op ← CompareOp.ofName? op.name
        return .compare op (← ofSetAside? l.toJson) (← ofSetAside? r.toJson)) := rfl
    rw [hread, op.ofName?_name, hl, hr]
    rfl
  | isNull e he =>
    have hread : ofSetAside? e.isNull.toJson = (do return .isNull (← ofSetAside? e.toJson)) := rfl
    rw [hread, he]
    rfl
  | member e source he =>
    have hread : ofSetAside? (e.member source).toJson =
        (do return .member (← ofSetAside? e.toJson) source) := rfl
    rw [hread, he]
    rfl
  | arithmetic op l r hl hr =>
    have hread : ofSetAside? (Expr.arithmetic op l r).toJson = (do
        let op ← MathOp.ofName? op.name
        return .arithmetic op (← ofSetAside? l.toJson) (← ofSetAside? r.toJson)) := rfl
    rw [hread, op.ofName?_name, hl, hr]
    rfl
  | call f args hargs =>
    obtain ⟨qualifier, name⟩ := f
    have hread : ofSetAside? (Expr.call ⟨qualifier, name⟩ args).toJson =
        (do return .call ⟨qualifier, name⟩ (← listed (itemParts (toJsonAll args)))) := by
      cases qualifier <;> rfl
    rw [hread, listed_toJsonAll hargs]
    rfl
  | column c =>
    have hread : ofSetAside? (Expr.column c).toJson =
        (do return .column (← (parts (("kind", .text "column") :: c.fields)).toColumn)) := rfl
    rw [hread, toColumn_fields]
    rfl
  | var v =>
    have hread : ofSetAside? (Expr.variable v).toJson =
        (do return .variable (← (parts (("kind", .text "variable") :: v.fields)).toVariable)) := rfl
    rw [hread, toVariable_fields]
    rfl
  | constant value type =>
    have hread : ofSetAside? (Expr.constant value type).toJson = (do
        let value ← Value.ofJson? value.toJson
        return .constant value (← AttributeType.ofName? type.name)) := by
      cases value <;> rfl
    rw [hread, value.ofJson?_toJson, type.ofName?_name]
    rfl

/-! ## §4 Reading, then writing -/

/-- What a part gives as an expression, or as expressions, is left alone by `reread`. -/
structure Part.Settled (p : Part) : Prop where
  expr : ∀ e, p.expr = some e → e.reread = e
  exprs : ∀ es, p.exprs = some es → rereadAll es = es

namespace Parts

variable {parts : Parts} {name : String}

theorem exists_mem_of_optional {p : Part} (h : parts.optional name = some (some p)) :
    ∃ f ∈ parts, f.2 = p := by
  unfold optional at h
  split at h
  · cases h
  · rename_i other p' hfilter
    cases h
    have hmem : (other, p) ∈ parts.filter (·.1 == name) := by simp [hfilter]
    exact ⟨(other, p), (List.mem_filter.1 hmem).1, rfl⟩
  · cases h

section

variable (hparts : ∀ f ∈ parts, f.2.Settled)

include hparts

theorem reread_expr {e : Expr} (h : parts.expr name = some e) : e.reread = e := by
  obtain ⟨p, hp, he⟩ := Option.bind_eq_some_iff.1 h
  obtain ⟨o, ho, rfl⟩ := Option.bind_eq_some_iff.1 hp
  obtain ⟨f, hf, rfl⟩ := exists_mem_of_optional ho
  exact (hparts f hf).expr e he

theorem rereadAll_args {es : List Expr} (h : parts.args = some es) : rereadAll es = es := by
  obtain ⟨o, ho, hes⟩ := Option.bind_eq_some_iff.1 h
  cases o with
  | none =>
    cases hes
    rfl
  | some p =>
    obtain ⟨f, hf, rfl⟩ := exists_mem_of_optional ho
    exact (hparts f hf).exprs es hes

/-- The expression that settled parts describe is settled. -/
theorem reread_ofKind {kind : String} {e : Expr} (h : parts.ofKind kind = some e) :
    e.reread = e := by
  -- the cases are numbered in the order in which `ofKind` names the kinds
  unfold ofKind at h
  split at h
  case h_1 | h_2 =>
    -- a conjunction or a disjunction
    obtain ⟨l, hl, h⟩ := Option.bind_eq_some_iff.1 h
    obtain ⟨r, hr, h⟩ := Option.bind_eq_some_iff.1 h
    cases h
    rw [reread, reread_expr hparts hl, reread_expr hparts hr]
  case h_3 | h_5 =>
    -- a negation or a test for null
    obtain ⟨operand, hoperand, h⟩ := Option.bind_eq_some_iff.1 h
    cases h
    rw [reread, reread_expr hparts hoperand]
  case h_4 | h_7 =>
    -- two operands behind the name of an operator
    obtain ⟨op, _, h⟩ := Option.bind_eq_some_iff.1 h
    obtain ⟨l, hl, h⟩ := Option.bind_eq_some_iff.1 h
    obtain ⟨r, hr, h⟩ := Option.bind_eq_some_iff.1 h
    cases h
    rw [reread, reread_expr hparts hl, reread_expr hparts hr]
  case h_6 =>
    -- a membership
    obtain ⟨operand, hoperand, h⟩ := Option.bind_eq_some_iff.1 h
    obtain ⟨source, _, h⟩ := Option.bind_eq_some_iff.1 h
    cases h
    rw [reread, reread_expr hparts hoperand]
  case h_8 =>
    -- a call, whose arguments may be absent
    obtain ⟨qualifier, _, h⟩ := Option.bind_eq_some_iff.1 h
    obtain ⟨name, _, h⟩ := Option.bind_eq_some_iff.1 h
    obtain ⟨args, hargs, h⟩ := Option.bind_eq_some_iff.1 h
    cases h
    rw [reread, rereadAll_args hparts hargs]
  case h_9 | h_10 =>
    -- a column or a variable, which hold no constants
    obtain ⟨leaf, _, h⟩ := Option.bind_eq_some_iff.1 h
    cases h
    rfl
  case h_11 =>
    -- a constant, the one place where reading has to choose
    obtain ⟨p, _, h⟩ := Option.bind_eq_some_iff.1 h
    obtain ⟨value, hvalue, h⟩ := Option.bind_eq_some_iff.1 h
    obtain ⟨type, _, h⟩ := Option.bind_eq_some_iff.1 h
    cases h
    rw [reread, Value.reread_of_ofJson? hvalue]
  case h_12 => cases h

theorem reread_toExpr {e : Expr} (h : parts.toExpr = some e) : e.reread = e := by
  obtain ⟨_, _, h⟩ := Option.bind_eq_some_iff.1 h
  obtain ⟨kind, _, h⟩ := Option.bind_eq_some_iff.1 h
  exact reread_ofKind hparts h

end

theorem reread_ofList? {items : List Part} (hitems : ∀ p ∈ items, p.Settled) {e : Expr}
    (h : ofList? items = some e) : e.reread = e := by
  cases items with
  | nil => cases h
  | cons first rest =>
    obtain ⟨kind, _, h⟩ := Option.bind_eq_some_iff.1 h
    split at h
    · cases h
    · -- the items stand under the names of the fields, and a name without an item has no part
      refine reread_ofKind (fun f hf => hitems f.2 ?_) h
      exact List.mem_cons_of_mem first (List.of_mem_zip hf).2

end Parts

theorem mem_parts {fields : List (String × Json)} {f : String × Part} (h : f ∈ parts fields) :
    ∃ field ∈ fields, f.2 = part field.2 := by
  induction fields with
  | nil => cases h
  | cons field rest ih =>
    rcases List.mem_cons.1 h with rfl | h
    · exact ⟨field, List.mem_cons_self, rfl⟩
    · obtain ⟨field', hfield', hpart⟩ := ih h
      exact ⟨field', List.mem_cons_of_mem _ hfield', hpart⟩

theorem itemParts_eq_map (items : List Json) : itemParts items = items.map part := by
  induction items with
  | nil => rfl
  | cons j rest ih => rw [itemParts, ih, List.map_cons]

theorem rereadAll_listed {items : List Part} (hitems : ∀ p ∈ items, p.Settled)
    {es : List Expr} (h : listed items = some es) : rereadAll es = es := by
  induction items generalizing es with
  | nil =>
    cases h
    rfl
  | cons p rest ih =>
    obtain ⟨e, he, h⟩ := Option.bind_eq_some_iff.1 h
    obtain ⟨es', hes, h⟩ := Option.bind_eq_some_iff.1 h
    cases h
    have hfirst := (hitems p List.mem_cons_self).expr e he
    have hrest := ih (fun p' hp' => hitems p' (List.mem_cons_of_mem _ hp')) hes
    rw [rereadAll, hfirst, hrest]

theorem settled_part (j : Json) : (part j).Settled := by
  induction j using Json.induction with
  | scalar s =>
    refine ⟨fun e he => ?_, fun es hes => ?_⟩
    · cases he
    · cases hes
  | list items hitems =>
    have hparts : ∀ p ∈ itemParts items, p.Settled := by
      rw [itemParts_eq_map]
      exact List.forall_mem_map.2 hitems
    exact ⟨fun e he => Parts.reread_ofList? hparts he, fun es hes => rereadAll_listed hparts hes⟩
  | object fields hfields =>
    refine ⟨fun e he => Parts.reread_toExpr (fun f hf => ?_) he, fun es hes => ?_⟩
    · obtain ⟨field, hfield, hpart⟩ := mem_parts hf
      rw [hpart]
      exact hfields field hfield
    · cases hes

/-- An expression that was read is the same when it is written and read again. -/
theorem reread_of_ofSetAside? {j : Json} {e : Expr} (h : ofSetAside? j = some e) : e.reread = e :=
  (settled_part j).expr e h

/-! ## §5 Expressions that can be read -/

/-- Every constant of the expression is as reading gives it. -/
def Settled (e : Expr) : Prop :=
  ∀ value type, .literal value type ∈ e.entries → value.Settled

theorem rereadAll_eq_self_iff {es : List Expr} : rereadAll es = es ↔ ∀ e ∈ es, e.reread = e := by
  induction es with
  | nil => simp [rereadAll]
  | cons e rest ih => simp [rereadAll, ih]

/-- Only constants are changed by writing and reading. -/
theorem reread_eq_self_iff {e : Expr} : e.reread = e ↔ e.Settled := by
  induction e with
  | and l r hl hr | or l r hl hr => simp [reread, hl, hr, Settled, or_imp, forall_and]
  | compare op l r hl hr | arithmetic op l r hl hr =>
    simp [reread, hl, hr, Settled, or_imp, forall_and]
  | not e he | isNull e he | member e source he => simp [reread, he, Settled]
  | call f args hargs =>
    simp only [reread, Expr.call.injEq, true_and, rereadAll_eq_self_iff, Settled, entries_call,
      List.mem_flatMap]
    constructor
    · rintro h value type ⟨a, ha, hentry⟩
      exact (hargs a ha).1 (h a ha) value type hentry
    · intro h a ha
      exact (hargs a ha).2 fun value type hentry => h value type ⟨a, ha, hentry⟩
  | column c => simp [reread, Settled]
  | var v => simp [reread, Settled]
  | constant value type => simp [reread, Settled, Value.reread_eq_self_iff]

end Expr

end QueryPipeline
