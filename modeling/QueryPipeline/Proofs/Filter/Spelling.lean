import QueryPipeline.Proofs.Filter.Decoys

/-!
# The spelling of filters

A finished filter is a text, and whoever gets the text reads a document out of it.  The grammar of
these texts has names that may be anything, also `$and` or `$not`, and documents inside documents.
Nevertheless a text has only one reading: every document ends where its own text says so, whatever
comes behind it.

With values that are plain, quoted texts without quotes inside or scalars without punctuation, a
resolved filter is such a text.  What is read out of it is the document of its expression, unless a
constant shows the name of a placeholder and is taken for it.

## Main definitions

- `FilterValue`: the values of a written filter.
- `FilterDocument.Spells`: the grammar of filters.
- `Expr.IsPlainUnder`: filters all of whose values are plain.

## Main statements

- `FilterDocument.spells_iff`: the texts of a document.
- `FilterDocument.Spells.unique`: a text has only one reading.
- `resolve_reads_back_iff`: what is read out of a resolved filter.
- `constant_read_as_variable`: a filter whose document is not what is read out of it.
-/

namespace QueryPipeline

/-! ## §1 Written values -/

/-- What stands before the first `c`, and what behind it. -/
theorem append_cons_inj_of_not_mem {c : Char} {before before' after after' : List Char}
    (hbefore : c ∉ before) (hbefore' : c ∉ before')
    (h : before ++ c :: after = before' ++ c :: after') : before = before' ∧ after = after' := by
  induction before generalizing before' with
  | nil =>
    cases before' with
    | nil => exact ⟨rfl, List.tail_eq_of_cons_eq h⟩
    | cons d rest =>
      obtain ⟨rfl, _⟩ := List.cons.inj h
      exact absurd List.mem_cons_self hbefore'
  | cons d rest ih =>
    cases before' with
    | nil =>
      obtain ⟨rfl, _⟩ := List.cons.inj h
      exact absurd List.mem_cons_self hbefore
    | cons d' rest' =>
      obtain ⟨rfl, hrest⟩ := List.cons.inj h
      obtain ⟨rfl, hafter⟩ := ih (fun hin => hbefore (List.mem_cons_of_mem _ hin))
        (fun hin => hbefore' (List.mem_cons_of_mem _ hin)) hrest
      exact ⟨rfl, hafter⟩

/-- The values of a written filter. -/
inductive FilterValue where
  | quoted (text : String)
  | scalar (text : String)
deriving Repr, DecidableEq

namespace FilterValue

def render : FilterValue → String
  | quoted text => "'" ++ text ++ "'"
  | scalar text => text

/-- The characters that do not stand in scalars. -/
def punctuation : List Char :=
  ['\'', '\x7b', '\x7d', '[', ']', ',', ':']

/-- Values that can be written: text has no quotes inside, a scalar has no punctuation. -/
def IsWritable : FilterValue → Prop
  | quoted text => QuoteFree text
  | scalar text => ∀ c ∈ text.toList, c ∉ punctuation

instance (v : FilterValue) : Decidable v.IsWritable :=
  match v with
  | quoted text => inferInstanceAs (Decidable (QuoteFree text))
  | scalar text => List.decidableBAll (· ∉ punctuation) text.toList

/-- Before a closing brace, a scalar starts like neither a text nor a document. -/
theorem head?_scalar_ne {text : String} (h : (scalar text).IsWritable) (rest : List Char) {c : Char}
    (hc : c ∈ ['\'', '\x7b']) : (text.toList ++ '\x7d' :: rest).head? ≠ some c := by
  have hpunctuation : ∀ d ∈ ['\'', '\x7b'], d ∈ punctuation ∧ d ≠ '\x7d' := by
    simp [punctuation]
  obtain ⟨hmem, hne⟩ := hpunctuation c hc
  intro hhead
  cases hchars : text.toList with
  | nil =>
    -- the scalar is empty, and the brace comes first
    rw [hchars] at hhead
    exact hne (Option.some.inj hhead).symm
  | cons d rest =>
    rw [hchars] at hhead
    obtain rfl : d = c := Option.some.inj hhead
    exact h d (by rw [hchars]; exact List.mem_cons_self) hmem

theorem IsWritable.head?_ne {v : FilterValue} (h : v.IsWritable) (rest : List Char) :
    (v.render.toList ++ '\x7d' :: rest).head? ≠ some '\x7b' := by
  cases v with
  | quoted text => simp [render]
  | scalar text => exact head?_scalar_ne h rest (by decide)

/-- **A value ends by itself** before a closing brace. -/
theorem IsWritable.render_append_inj {v v' : FilterValue} (h : v.IsWritable) (h' : v'.IsWritable)
    {rest rest' : List Char}
    (heq : v.render.toList ++ '\x7d' :: rest = v'.render.toList ++ '\x7d' :: rest') :
    v = v' ∧ rest = rest' := by
  have hquoted : ∀ (text : String) (rest : List Char),
      (quoted text).render.toList ++ rest = '\'' :: (text.toList ++ '\'' :: rest) := by
    intro text rest
    simp [render]
  cases v with
  | quoted text =>
    cases v' with
    | quoted text' =>
      rw [hquoted, hquoted] at heq
      obtain ⟨htext, hrest⟩ := append_cons_inj_of_not_mem h h' (List.tail_eq_of_cons_eq heq)
      exact ⟨congrArg quoted (String.toList_injective htext), List.tail_eq_of_cons_eq hrest⟩
    | scalar text' =>
      rw [hquoted] at heq
      exact absurd (congrArg List.head? heq).symm (head?_scalar_ne h' rest' (by decide))
  | scalar text =>
    cases v' with
    | quoted text' =>
      rw [hquoted] at heq
      exact absurd (congrArg List.head? heq) (head?_scalar_ne h rest (by decide))
    | scalar text' =>
      have hbrace : ∀ {t : String}, (scalar t).IsWritable → '\x7d' ∉ t.toList :=
        fun ht hin => ht _ hin (by decide)
      obtain ⟨htext, hrest⟩ := append_cons_inj_of_not_mem (hbrace h) (hbrace h') heq
      exact ⟨congrArg scalar (String.toList_injective htext), hrest⟩

/-- The value that a text may be, judged by its first character. -/
def read (text : String) : FilterValue :=
  match text.toList with
  | '\'' :: rest => quoted (String.ofList rest.dropLast)
  | _ => scalar text

/-- A value that can be written can be read. -/
theorem IsWritable.read_render {v : FilterValue} (h : v.IsWritable) : read v.render = v := by
  cases v with
  | quoted text => simp [read, render]
  | scalar text =>
    unfold read
    split
    · -- a scalar does not start with a quote
      rename_i rest hchars
      have hquote : '\'' ∈ text.toList := by
        rw [show text.toList = '\'' :: rest from hchars]
        exact List.mem_cons_self
      exact absurd (by decide) (h _ hquote)
    · rfl

end FilterValue

/-- Texts that a value can be written as. -/
def IsPlain (text : String) : Prop :=
  ∃ v : FilterValue, v.IsWritable ∧ v.render = text

theorem IsPlain.read {text : String} (h : IsPlain text) :
    (FilterValue.read text).IsWritable ∧ (FilterValue.read text).render = text := by
  obtain ⟨v, hv, rfl⟩ := h
  rw [hv.read_render]
  exact ⟨hv, rfl⟩

instance (text : String) : Decidable (IsPlain text) :=
  decidable_of_iff ((FilterValue.read text).IsWritable ∧ (FilterValue.read text).render = text)
    ⟨fun h => ⟨_, h⟩, IsPlain.read⟩

theorem IsPlain.balanced {text : String} (h : IsPlain text) : Balanced text := by
  obtain ⟨v, hv, rfl⟩ := h
  cases v with
  | quoted text => exact balanced_quoted hv
  | scalar text => exact QuoteFree.balanced fun hin => hv _ hin (by decide)

/-! ## §2 The grammar of filters -/

namespace FilterDocument

/-- Comparisons: `{'$op': V}`, or `{'$op': {'$oid': V}}` with a wrapped value. -/
inductive SpellsComparison (op : CompareOp) (v : FilterValue) : Bool → String → Prop where
  | direct (h : v.IsWritable) :
      SpellsComparison op v false ("\x7b'" ++ op.spelling ++ "': " ++ v.render ++ "\x7d")
  | wrapped (h : v.IsWritable) :
      SpellsComparison op v true
        ("\x7b'" ++ op.spelling ++ "': \x7b'$oid': " ++ v.render ++ "\x7d\x7d")

/-- Predicates: a comparison, or a negated one. -/
inductive SpellsPredicate (op : CompareOp) (wrapped : Bool) (v : FilterValue) :
    Bool → String → Prop where
  | comparison {text : String} (h : SpellsComparison op v wrapped text) :
      SpellsPredicate op wrapped v false text
  | negated {text : String} (h : SpellsComparison op v wrapped text) :
      SpellsPredicate op wrapped v true ("\x7b'$not': " ++ text ++ "\x7d")

/-- Filters: junctions of two filters, and predicates on a field without quotes in its name. -/
inductive Spells : FilterDocument FilterValue → String → Prop where
  | and {left right : FilterDocument FilterValue} {leftText rightText : String}
      (hleft : Spells left leftText) (hright : Spells right rightText) :
      Spells (.junction .and left right) ("\x7b'$and': [" ++ leftText ++ ", " ++ rightText ++ "]\x7d")
  | or {left right : FilterDocument FilterValue} {leftText rightText : String}
      (hleft : Spells left leftText) (hright : Spells right rightText) :
      Spells (.junction .or left right) ("\x7b'$or': [" ++ leftText ++ ", " ++ rightText ++ "]\x7d")
  | predicate {field text : String} {negated wrapped : Bool} {op : CompareOp} {v : FilterValue}
      (hfield : QuoteFree field) (h : SpellsPredicate op wrapped v negated text) :
      Spells (.predicate field negated op wrapped v) ("\x7b'" ++ field ++ "': " ++ text ++ "\x7d")

/-- Documents that can be written. -/
structure IsWritable (t : FilterDocument FilterValue) : Prop where
  fields : ∀ field ∈ t.fields, QuoteFree field
  values : ∀ v ∈ t.values, v.IsWritable

theorem text_eq_singleton (name value : String) :
    "\x7b'" ++ name ++ "': " ++ value ++ "\x7d" = singleton name value := by
  apply String.toList_injective
  simp [toList_singleton]

variable {op : CompareOp} {v : FilterValue} {wrapped negated : Bool} {text : String}

theorem spellsComparison_iff :
    SpellsComparison op v wrapped text ↔
      v.IsWritable ∧ text = comparisonText op wrapped v.render := by
  have hdirect : "\x7b'" ++ op.spelling ++ "': " ++ v.render ++ "\x7d" =
      comparisonText op false v.render :=
    text_eq_singleton op.spelling v.render
  have hwrapped : "\x7b'" ++ op.spelling ++ "': \x7b'$oid': " ++ v.render ++ "\x7d\x7d" =
      comparisonText op true v.render := by
    apply String.toList_injective
    simp [comparisonText, wrapIf, ← singleton_eq_spelled, toList_singleton]
  constructor
  · intro h
    cases h with
    | direct h => exact ⟨h, hdirect⟩
    | wrapped h => exact ⟨h, hwrapped⟩
  · rintro ⟨h, rfl⟩
    cases wrapped with
    | false => exact hdirect ▸ .direct h
    | true => exact hwrapped ▸ .wrapped h

theorem spellsPredicate_iff :
    SpellsPredicate op wrapped v negated text ↔
      v.IsWritable ∧ text = wrapIf negated "$not" (comparisonText op wrapped v.render) := by
  have hnegated : "\x7b'$not': " ++ comparisonText op wrapped v.render ++ "\x7d" =
      wrapIf true "$not" (comparisonText op wrapped v.render) := by
    apply String.toList_injective
    simp [wrapIf, ← singleton_eq_spelled, toList_singleton]
  constructor
  · intro h
    cases h with
    | comparison h => exact spellsComparison_iff.1 h
    | negated h =>
      obtain ⟨hv, rfl⟩ := spellsComparison_iff.1 h
      exact ⟨hv, hnegated⟩
  · rintro ⟨hv, rfl⟩
    have h : SpellsComparison op v wrapped (comparisonText op wrapped v.render) :=
      spellsComparison_iff.2 ⟨hv, rfl⟩
    cases negated with
    | false => exact .comparison h
    | true => exact hnegated ▸ .negated h

theorem isWritable_junction_iff {j : Junction} {left right : FilterDocument FilterValue} :
    (junction j left right).IsWritable ↔ left.IsWritable ∧ right.IsWritable := by
  constructor
  · rintro ⟨hfields, hvalues⟩
    obtain ⟨hfieldsLeft, hfieldsRight⟩ := List.forall_mem_append.1 hfields
    obtain ⟨hvaluesLeft, hvaluesRight⟩ := List.forall_mem_append.1 hvalues
    exact ⟨⟨hfieldsLeft, hvaluesLeft⟩, hfieldsRight, hvaluesRight⟩
  · rintro ⟨hleft, hright⟩
    exact ⟨List.forall_mem_append.2 ⟨hleft.fields, hright.fields⟩,
      List.forall_mem_append.2 ⟨hleft.values, hright.values⟩⟩

theorem isWritable_predicate_iff {field : String} :
    (predicate field negated op wrapped v).IsWritable ↔ QuoteFree field ∧ v.IsWritable := by
  constructor
  · rintro ⟨hfields, hvalues⟩
    exact ⟨hfields field (List.mem_singleton_self field), hvalues v (List.mem_singleton_self v)⟩
  · rintro ⟨hfield, hv⟩
    exact ⟨List.forall_mem_singleton.2 hfield, List.forall_mem_singleton.2 hv⟩

/-- **The grammar spells documents as they are rendered**, if they can be written at all. -/
theorem spells_iff {t : FilterDocument FilterValue} :
    Spells t text ↔ t.IsWritable ∧ text = t.render FilterValue.render := by
  have hjunction : ∀ (j : Junction) (left right : String),
      "\x7b'" ++ j.spelling ++ "': [" ++ left ++ ", " ++ right ++ "]\x7d" =
        singleton j.spelling ("[" ++ left ++ ", " ++ right ++ "]") := by
    intro j left right
    apply String.toList_injective
    simp [toList_singleton]
  constructor
  · intro h
    induction h with
    | and _ _ ihl ihr =>
      obtain ⟨hl, rfl⟩ := ihl
      obtain ⟨hr, rfl⟩ := ihr
      exact ⟨isWritable_junction_iff.2 ⟨hl, hr⟩, hjunction .and _ _⟩
    | or _ _ ihl ihr =>
      obtain ⟨hl, rfl⟩ := ihl
      obtain ⟨hr, rfl⟩ := ihr
      exact ⟨isWritable_junction_iff.2 ⟨hl, hr⟩, hjunction .or _ _⟩
    | predicate hfield h =>
      obtain ⟨hv, rfl⟩ := spellsPredicate_iff.1 h
      exact ⟨isWritable_predicate_iff.2 ⟨hfield, hv⟩, text_eq_singleton _ _⟩
  · rintro ⟨h, rfl⟩
    induction t with
    | predicate field negated op wrapped v =>
      obtain ⟨hfield, hv⟩ := isWritable_predicate_iff.1 h
      rw [render, ← singleton_eq_spelled, ← text_eq_singleton]
      exact .predicate hfield (spellsPredicate_iff.2 ⟨hv, rfl⟩)
    | junction j left right ihl ihr =>
      obtain ⟨hl, hr⟩ := isWritable_junction_iff.1 h
      rw [render, ← singleton_eq_spelled, ← hjunction]
      cases j with
      | and => exact .and (ihl hl) (ihr hr)
      | or => exact .or (ihl hl) (ihr hr)

end FilterDocument

/-! ## §3 Unique readings -/

/-- A document with one entry ends by itself if its value does, and shows its name. -/
theorem singleton_append_inj {name name' value value' : String} (h : QuoteFree name)
    (h' : QuoteFree name') {rest rest' : List Char}
    (heq : (singleton name value).toList ++ rest = (singleton name' value').toList ++ rest') :
    name = name' ∧ value.toList ++ '\x7d' :: rest = value'.toList ++ '\x7d' :: rest' := by
  have hchars : ∀ (name value : String) (rest : List Char),
      (singleton name value).toList ++ rest =
        '\x7b' :: '\'' :: (name.toList ++ '\'' :: ':' :: ' ' :: (value.toList ++ '\x7d' :: rest)) := by
    intro name value rest
    simp [toList_singleton]
  rw [hchars, hchars] at heq
  obtain ⟨hname, hvalue⟩ := append_cons_inj_of_not_mem h h'
    (List.tail_eq_of_cons_eq (List.tail_eq_of_cons_eq heq))
  exact ⟨String.toList_injective hname,
    List.tail_eq_of_cons_eq (List.tail_eq_of_cons_eq hvalue)⟩

namespace FilterDocument

variable {op op' : CompareOp} {v v' : FilterValue} {wrapped wrapped' negated negated' : Bool}
  {rest rest' : List Char}

theorem head?_singleton_append (name value : String) (rest : List Char) :
    ((singleton name value).toList ++ rest).head? = some '\x7b' := by
  simp [toList_singleton]

/-- A value is wrapped exactly if it starts like a document. -/
theorem wrapIf_append_inj (hv : v.IsWritable) (hv' : v'.IsWritable)
    (heq : (wrapIf wrapped "$oid" v.render).toList ++ '\x7d' :: rest =
      (wrapIf wrapped' "$oid" v'.render).toList ++ '\x7d' :: rest') :
    wrapped = wrapped' ∧ v = v' ∧ rest = rest' := by
  have hoid : QuoteFree "$oid" := by decide
  cases wrapped with
  | false =>
    cases wrapped' with
    | false => exact ⟨rfl, hv.render_append_inj hv' heq⟩
    | true =>
      -- only a wrapped value starts with a brace
      exact absurd ((congrArg List.head? heq).trans (head?_singleton_append ..)) (hv.head?_ne rest)
  | true =>
    cases wrapped' with
    | false =>
      exact absurd ((congrArg List.head? heq).symm.trans (head?_singleton_append ..))
        (hv'.head?_ne rest')
    | true =>
      obtain ⟨_, hvalue⟩ := singleton_append_inj hoid hoid heq
      obtain ⟨rfl, hrest⟩ := hv.render_append_inj hv' hvalue
      exact ⟨rfl, rfl, List.tail_eq_of_cons_eq hrest⟩

theorem comparisonText_append_inj (hv : v.IsWritable) (hv' : v'.IsWritable)
    (heq : (comparisonText op wrapped v.render).toList ++ rest =
      (comparisonText op' wrapped' v'.render).toList ++ rest') :
    op = op' ∧ wrapped = wrapped' ∧ v = v' ∧ rest = rest' := by
  obtain ⟨hop, hvalue⟩ :=
    singleton_append_inj (quoteFree_compareOp op) (quoteFree_compareOp op') heq
  have hinj : ∀ op op' : CompareOp, op.spelling = op'.spelling → op = op' := by
    intro op op'
    cases op <;> cases op' <;> decide
  exact ⟨hinj op op' hop, wrapIf_append_inj hv hv' hvalue⟩

/-- No comparison starts like a negation. -/
theorem negation_append_inj (hv : v.IsWritable) (hv' : v'.IsWritable)
    (heq : (wrapIf negated "$not" (comparisonText op wrapped v.render)).toList ++ rest =
      (wrapIf negated' "$not" (comparisonText op' wrapped' v'.render)).toList ++ rest') :
    negated = negated' ∧ op = op' ∧ wrapped = wrapped' ∧ v = v' ∧ rest = rest' := by
  have hnot : QuoteFree "$not" := by decide
  have hop : ∀ op : CompareOp, op.spelling ≠ "$not" := by
    intro op
    cases op <;> decide
  cases negated with
  | false =>
    cases negated' with
    | false => exact ⟨rfl, comparisonText_append_inj hv hv' heq⟩
    | true =>
      exact absurd (singleton_append_inj (quoteFree_compareOp op) hnot heq).1 (hop op)
  | true =>
    cases negated' with
    | false =>
      exact absurd (singleton_append_inj hnot (quoteFree_compareOp op') heq).1.symm (hop op')
    | true =>
      obtain ⟨_, htext⟩ := singleton_append_inj hnot hnot heq
      obtain ⟨hop, hwrapped, hvalue, hrest⟩ := comparisonText_append_inj hv hv' htext
      exact ⟨rfl, hop, hwrapped, hvalue, List.tail_eq_of_cons_eq hrest⟩

theorem head?_negation_append (value : String) (rest : List Char) :
    ((wrapIf negated "$not" (comparisonText op wrapped value)).toList ++ rest).head? =
      some '\x7b' := by
  cases negated <;> exact head?_singleton_append ..

/-- **A document ends by itself**: nothing that comes behind it changes what it is. -/
theorem IsWritable.render_append_inj {t t' : FilterDocument FilterValue} (h : t.IsWritable)
    (h' : t'.IsWritable)
    (heq : (t.render FilterValue.render).toList ++ rest =
      (t'.render FilterValue.render).toList ++ rest') : t = t' ∧ rest = rest' := by
  induction t generalizing t' rest rest' with
  | predicate field negated op wrapped v =>
    obtain ⟨hfield, hv⟩ := isWritable_predicate_iff.1 h
    cases t' with
    | predicate field' negated' op' wrapped' v' =>
      obtain ⟨hfield', hv'⟩ := isWritable_predicate_iff.1 h'
      obtain ⟨rfl, hpredicate⟩ := singleton_append_inj hfield hfield' heq
      obtain ⟨rfl, rfl, rfl, rfl, hrest⟩ := negation_append_inj hv hv' hpredicate
      exact ⟨rfl, List.tail_eq_of_cons_eq hrest⟩
    | junction j left right =>
      -- a junction has a list for its value, also if the field has its name
      obtain ⟨_, hvalue⟩ := singleton_append_inj hfield (quoteFree_junction j) heq
      have hhead := (head?_negation_append _ _).symm.trans (congrArg List.head? hvalue)
      simp at hhead
  | junction j left right ihl ihr =>
    obtain ⟨hleft, hright⟩ := isWritable_junction_iff.1 h
    cases t' with
    | predicate field negated op wrapped v =>
      obtain ⟨hfield, _⟩ := isWritable_predicate_iff.1 h'
      obtain ⟨_, hvalue⟩ := singleton_append_inj (quoteFree_junction j) hfield heq
      have hhead := (congrArg List.head? hvalue).trans (head?_negation_append _ _)
      simp at hhead
    | junction j' left' right' =>
      obtain ⟨hleft', hright'⟩ := isWritable_junction_iff.1 h'
      obtain ⟨hj, hpair⟩ :=
        singleton_append_inj (quoteFree_junction j) (quoteFree_junction j') heq
      have hinj : j = j' := by
        cases j <;> cases j' <;> first | rfl | exact absurd hj (by decide)
      -- the left document ends by itself, and behind it the right one
      rw [toList_pair, toList_pair] at hpair
      simp only [List.cons_append, List.append_assoc, List.cons.injEq, true_and] at hpair
      obtain ⟨rfl, htail⟩ := ihl hleft hleft' hpair
      simp only [List.cons.injEq, true_and] at htail
      obtain ⟨rfl, hend⟩ := ihr hright hright' htail
      simp only [List.nil_append, List.cons.injEq, true_and] at hend
      exact ⟨hinj ▸ rfl, hend⟩

/-- **A text has only one reading.** -/
theorem Spells.unique {t t' : FilterDocument FilterValue} {text : String} (h : Spells t text)
    (h' : Spells t' text) : t = t' := by
  obtain ⟨ht, htext⟩ := spells_iff.1 h
  obtain ⟨ht', htext'⟩ := spells_iff.1 h'
  have heq : (t.render FilterValue.render).toList ++ [] =
      (t'.render FilterValue.render).toList ++ [] := by
    rw [← htext, ← htext']
  exact (ht.render_append_inj ht' heq).1

end FilterDocument

/-! ## §4 Resolved filters -/

/-- Filters whose columns have no quotes in their names, and all of whose values are plain. -/
structure Expr.IsPlainUnder (e : Expr) (b : Bindings) : Prop where
  columns : ∀ c ∈ e.columns, QuoteFree c.field
  constants : ∀ c ∈ e.constants, IsPlain (c.1.renderAs c.2)
  bound : ∀ v ∈ e.vars, ∃ value ∈ b.get? v.key, IsPlain value.render

instance (e : Expr) (b : Bindings) : Decidable (e.IsPlainUnder b) :=
  decidable_of_iff ((∀ c ∈ e.columns, QuoteFree c.field) ∧
      (∀ c ∈ e.constants, IsPlain (c.1.renderAs c.2)) ∧
      ∀ v ∈ e.vars, ∃ value ∈ b.get? v.key, IsPlain value.render)
    ⟨fun h => ⟨h.1, h.2.1, h.2.2⟩, fun h => ⟨h.1, h.2, h.3⟩⟩

/-- No constant shows one of the names. -/
def Expr.ShowsNone (e : Expr) (names : List String) : Prop :=
  ∀ c ∈ e.constants, ∀ name ∈ visibleNames (c.1.renderAs c.2), name ∉ names

instance (e : Expr) (names : List String) : Decidable (e.ShowsNone names) :=
  inferInstanceAs (Decidable (∀ c ∈ e.constants, ∀ name ∈ visibleNames _, name ∉ names))

/-- What is to be read out of a resolved filter. -/
def FilterDocument.boundTree (b : Bindings) (d : FilterDocument (Option PlaceholderEntry)) :
    FilterDocument FilterValue :=
  d.map fun a => .read (boundText b a)

namespace FilterCompiler

open FilterDocument

variable {config : Config} {clause : FilterClause} {sequence : Sequence} {e : Expr}
  {compiled : CompiledFragment} {d : FilterDocument (Option PlaceholderEntry)} {b : Bindings}

/-- The values of a document are the variables and constants of its expression, and null. -/
theorem CompilesTo.mem_values_iff (hd : CompilesTo clause config.idField e d)
    {entry : PlaceholderEntry} : some entry ∈ d.values ↔ entry ∈ e.entries := by
  rw [← hd.entries, FilterDocument.entries, List.mem_filterMap]
  simp

/-- Everything that is written for a value of a plain filter is plain. -/
theorem isPlain_boundText (hd : CompilesTo clause config.idField e d) (hplain : e.IsPlainUnder b)
    {a : Option PlaceholderEntry} (ha : a ∈ d.values) : IsPlain (boundText b a) := by
  rcases a with _ | (v | ⟨value, type⟩)
  · exact ⟨.scalar "null", by decide +kernel, rfl⟩
  · have hv : v ∈ e.vars := List.mem_filterMap.2 ⟨_, hd.mem_values_iff.1 ha, rfl⟩
    obtain ⟨value, hvalue, hrender⟩ := hplain.bound v hv
    rw [Option.mem_def] at hvalue
    simpa [boundText, hvalue] using hrender
  · exact hplain.constants _ (Expr.mem_constants_iff.2 (hd.mem_values_iff.1 ha))

/-- What is read out of a text is the tree of a plain filter if the text is the one that writing the
    values into the document gives. -/
theorem spells_boundTree_iff (hd : CompilesTo clause config.idField e d)
    (hplain : e.IsPlainUnder b) {text : String} :
    Spells (d.boundTree b) text ↔ text = d.render (boundText b) := by
  have hrender : (d.boundTree b).render FilterValue.render = d.render (boundText b) := by
    rw [boundTree, render_map]
    exact render_congr fun a ha => (isPlain_boundText hd hplain ha).read.2
  have hwritable : (d.boundTree b).IsWritable := by
    constructor
    · rw [boundTree, fields_map, ← fields_numbered {}]
      exact hd.quoteFree_fields hplain.columns
    · rw [boundTree, values_map, List.forall_mem_map]
      exact fun a ha => (isPlain_boundText hd hplain ha).read.1
  rw [spells_iff, hrender, and_iff_right hwritable]

theorem balanced_finalText_of_isPlainUnder (hd : CompilesTo clause config.idField e d)
    (hplain : e.IsPlainUnder b) {a : Option (String × PlaceholderEntry)}
    (ha : a ∈ (d.numbered sequence).values) : Balanced (finalText a) := by
  rcases a with _ | ⟨name, v | ⟨value, type⟩⟩
  · exact (isName_nameText ha).balanced
  · exact (isName_nameText ha).balanced
  · have hentry := Sequence.mem_of_mem_named (mem_named_of_mem_values ha)
    rw [hd.entries] at hentry
    exact (hplain.constants _ (Expr.mem_constants_iff.2 hentry)).balanced

/-- The decoys of a plain filter stand in its constants. -/
theorem showsNone_iff (h : (start config clause sequence).compile e = .ok compiled)
    (hd : CompilesTo clause config.idField e d) (hplain : e.IsPlainUnder b) :
    (∀ name ∈ visibleNames (d.render (boundText .empty)), name ∉ compiled.placeholders.names) ↔
      e.ShowsNone compiled.placeholders.names := by
  have hfields : ∀ field ∈ d.fields, QuoteFree field := by
    rw [← fields_numbered {}]
    exact hd.quoteFree_fields hplain.columns
  have hbalanced : ∀ a ∈ d.values, Balanced (boundText .empty a) := by
    intro a ha
    rcases a with _ | (v | ⟨value, type⟩)
    · exact (isPlain_boundText hd hplain ha).balanced
    · rfl
    · exact (isPlain_boundText hd hplain ha).balanced
  -- the fields are quoted, and variables are left empty
  rw [visibleNames_render hfields hbalanced]
  constructor
  · rintro hnone ⟨value, type⟩ hc name hname
    apply hnone
    exact List.mem_flatMap.2 ⟨_, hd.mem_values_iff.2 (Expr.mem_constants_iff.1 hc), hname⟩
  · intro hnone name hname
    obtain ⟨a, ha, hname⟩ := List.mem_flatMap.1 hname
    rcases a with _ | (v | ⟨value, type⟩)
    · -- null is the name of no placeholder
      have hnull := showsNoPlaceholder_of_mem_constantWords (by decide : "null" ∈ constantWords)
      rw [← compiled.placeholders.get?_eq_none_iff]
      exact get?_placeholders_eq_none h (hnull.ne_placeholder name hname)
    · cases hname
    · exact hnone _ (Expr.mem_constants_iff.2 (hd.mem_values_iff.1 ha)) name hname

/-- **A plain filter resolves**, and its tree can be read out of what comes out exactly if it has no
    decoys. -/
theorem exists_resolve_spells_iff (h : (start config clause sequence).compile e = .ok compiled)
    (hplain : e.IsPlainUnder b) :
    ∃ d text, e.document? config.idField = some d ∧ compiled.resolve b = .ok text ∧
      (Spells (d.boundTree b) text ↔ e.ShowsNone compiled.placeholders.names) := by
  obtain ⟨_, _, _, hnumbered⟩ := compile_eq_ok h
  obtain ⟨d, hd, hfragment⟩ := fragment_of_compile h hplain.columns
  have hsupplied : compiled.placeholders.Supplied b := by
    rw [hnumbered.supplied_iff]
    intro v hv
    obtain ⟨value, hvalue, _⟩ := hplain.bound v hv
    exact Option.isSome_iff_exists.2 ⟨value, hvalue⟩
  have hvisible : ∀ name ∈ compiled.placeholders.names, name ∈ visibleNames compiled.fragment := by
    intro name hname
    -- plain constants leave no quote open
    exact mem_visibleNames_of_balanced h hd hfragment hplain.columns
      (fun a ha => balanced_finalText_of_isPlainUnder hd hplain ha) hname
  have hresolve := Placeholders.resolve_eq_ok_iff.2 ⟨hvisible, hsupplied, rfl⟩
  refine ⟨d, _, hd.document, hresolve, ?_⟩
  rw [spells_boundTree_iff hd hplain, resolve_eq_render_iff h hd hfragment hresolve,
    showsNone_iff h hd hplain]

end FilterCompiler

/-- **What is read out of a resolved filter.**  A filter with plain values, one for each variable, can
    be resolved.  The text that comes out has exactly one reading, the document of the expression
    with its values, unless a constant shows the name of a placeholder of the filter.  So two such
    filters with the same text have the same document. -/
theorem resolve_reads_back_iff {config : Config} {sequence : Sequence} {e : Expr}
    {compiled : CompiledFragment} {b : Bindings}
    (h : compileFilter config sequence e = .ok compiled) (hplain : e.IsPlainUnder b) :
    ∃ d text, e.document? config.idField = some d ∧ compiled.resolve b = .ok text ∧
      ((∀ t, FilterDocument.Spells t text ↔ t = d.boundTree b) ↔
        e.ShowsNone compiled.placeholders.names) ∧
      ∀ {config' sequence' e' compiled' b' d'},
        compileFilter config' sequence' e' = .ok compiled' → e'.IsPlainUnder b' →
        e.ShowsNone compiled.placeholders.names → e'.ShowsNone compiled'.placeholders.names →
        e'.document? config'.idField = some d' → compiled'.resolve b' = .ok text →
        d'.boundTree b' = d.boundTree b := by
  obtain ⟨d, text, hd, hresolve, hspells⟩ := FilterCompiler.exists_resolve_spells_iff h hplain
  refine ⟨d, text, hd, hresolve, ?_, ?_⟩
  · rw [← hspells]
    constructor
    · intro hunique
      exact (hunique _).2 rfl
    · intro htree t
      exact ⟨fun ht => ht.unique htree, fun ht => ht ▸ htree⟩
  · intro config' sequence' e' compiled' b' d' h' hplain' hnone hnone' hd' hresolve'
    obtain ⟨d₂, text₂, hd₂, hresolve₂, hspells₂⟩ :=
      FilterCompiler.exists_resolve_spells_iff h' hplain'
    obtain rfl : d' = d₂ := Option.some.inj (hd'.symm.trans hd₂)
    obtain rfl : text = text₂ := Except.ok.inj (hresolve'.symm.trans hresolve₂)
    exact (hspells₂.2 hnone').unique (hspells.2 hnone)

/-- Fields with the names of operators, a quoted constant that is the name of a placeholder, a
    comparison to be mirrored and two negations to be cancelled. -/
def operatorNames : Expr :=
  .and
    (.not (.not (.compare .lt (.constant (.text "var1") .string)
      (.column { field := "$and", type := .string }))))
    (.or
      (.not (.isNull (.column { field := "$not", type := .int })))
      (.compare .eq (.column { field := "_id", type := .string })
        (.variable { field := "who", type := .string })))

theorem resolve_reads_back_operatorNames :
    operatorNames.IsPlainUnder (NameTable.empty.insert "who" (.text "a\x7d, \x7bb")) ∧
      ∃ compiled text, compileFilter {} {} operatorNames = .ok compiled ∧
        compiled.resolve (NameTable.empty.insert "who" (.text "a\x7d, \x7bb")) = .ok text ∧
        ∀ t, FilterDocument.Spells t text ↔
          t = .junction .and (.predicate "$and" false .gt false (.quoted "var1"))
            (.junction .or (.predicate "$not" true .eq false (.scalar "null"))
              (.predicate "_id" false .eq true (.quoted "a\x7d, \x7bb"))) := by
  have hplain : operatorNames.IsPlainUnder (NameTable.empty.insert "who" (.text "a\x7d, \x7bb")) := by
    decide +kernel
  have hshown : (compileFilter {} {} operatorNames).map (fun c => c.placeholders.names) =
      .ok ["var1"] := by decide +kernel
  obtain ⟨compiled, hcompiled, hnames⟩ := Run.map_eq_ok_iff.1 hshown
  obtain ⟨d, text, hd, hresolve, hreads, _⟩ := resolve_reads_back_iff hcompiled hplain
  refine ⟨hplain, compiled, text, hcompiled, hresolve, ?_⟩
  have hnone : operatorNames.ShowsNone compiled.placeholders.names := by
    rw [hnames]
    decide +kernel
  cases hd
  exact hreads.2 hnone

/-- A text constant that is declared as a number, and is the name of a placeholder. -/
def bareConstant : Expr :=
  .and
    (.compare .eq (.column { field := "a", type := .int })
      (.variable { field := "x", type := .int }))
    (.compare .eq (.column { field := "b", type := .int }) (.constant (.text "var1") .int))

/-- The same filter with a number for its constant. -/
def numberConstant : Expr :=
  .and
    (.compare .eq (.column { field := "a", type := .int })
      (.variable { field := "x", type := .int }))
    (.compare .eq (.column { field := "b", type := .int }) (.constant (.int 57) .int))

/-- Plain filters with different documents that resolve to the same text: in one of them the constant
    is taken for the variable. -/
theorem constant_read_as_variable :
    bareConstant.IsPlainUnder (NameTable.empty.insert "x" (.int 57)) ∧
      numberConstant.IsPlainUnder (NameTable.empty.insert "x" (.int 57)) ∧
      ∃ compiled compiled' d d' text,
        compileFilter {} {} bareConstant = .ok compiled ∧
        compileFilter {} {} numberConstant = .ok compiled' ∧
        bareConstant.document? "_id" = some d ∧ numberConstant.document? "_id" = some d' ∧
        compiled.resolve (NameTable.empty.insert "x" (.int 57)) = .ok text ∧
        compiled'.resolve (NameTable.empty.insert "x" (.int 57)) = .ok text ∧
        ¬ FilterDocument.Spells (d.boundTree (NameTable.empty.insert "x" (.int 57))) text ∧
        d.boundTree (NameTable.empty.insert "x" (.int 57)) ≠
          d'.boundTree (NameTable.empty.insert "x" (.int 57)) := by
  have hbare : (do
      let compiled ← compileFilter {} {} bareConstant
      compiled.resolve (NameTable.empty.insert "x" (.int 57))) =
      .ok "\x7b'$and': [\x7b'a': \x7b'$eq': 57\x7d\x7d, \x7b'b': \x7b'$eq': 57\x7d\x7d]\x7d" := by
    decide +kernel
  have hnumber : (do
      let compiled ← compileFilter {} {} numberConstant
      compiled.resolve (NameTable.empty.insert "x" (.int 57))) =
      .ok "\x7b'$and': [\x7b'a': \x7b'$eq': 57\x7d\x7d, \x7b'b': \x7b'$eq': 57\x7d\x7d]\x7d" := by
    decide +kernel
  obtain ⟨compiled, hcompiled, htext⟩ := Run.bind_eq_ok_iff.1 hbare
  obtain ⟨compiled', hcompiled', htext'⟩ := Run.bind_eq_ok_iff.1 hnumber
  refine ⟨by decide +kernel, by decide +kernel, compiled, compiled', _, _, _, hcompiled, hcompiled',
    rfl, rfl, htext, htext', ?_, by decide +kernel⟩
  intro hspells
  exact absurd (FilterDocument.spells_iff.1 hspells).2 (by decide +kernel)

end QueryPipeline
