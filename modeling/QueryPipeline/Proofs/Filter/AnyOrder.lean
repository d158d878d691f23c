import QueryPipeline.Proofs.Filter.Finalization
import QueryPipeline.Proofs.Fragment.Nesting
import QueryPipeline.Proofs.Traversal

/-!
# Filter callbacks in any order

The filter compiler pops its operands before it looks at them, so a callback that fails may already
have shortened the stack.  Whatever callbacks are made, and in whatever order, the stack and the table
still fit together: what stands for a value on the stack is a placeholder of the table, no placeholder
stands in two places, and every condition is a text with matching brackets.

A callback has one of four effects.  It takes operands away, puts a column on top, puts a fresh
placeholder on top, or puts a condition in the place of the operands it is built from; the last three
are what a successful callback does, the first is all that a failing one can do.

## Main definitions

- `FilterCompiler.Builds`, `FilterCompiler.Effect`: what a callback does to the operands.
- `Operand.SoundIn`, `FilterCompiler.Sound`: operands that fit a table.

## Main statements

- `FilterCompiler.effect_visit`: every callback has one of the effects.
- `FilterCompiler.Sound.effect`: every effect keeps the operands sound.
- `FilterCompiler.callbacks_keep_stack_sound`: so do any callbacks.
-/

namespace QueryPipeline

/-! ## §1 Effects of callbacks -/

/-- The placeholder that an operand is. -/
def Operand.placeholder? : Operand → Option String
  | .variable name => some name
  | .literal name => some name
  | _ => none

/-- The operand that stands for an entry under its placeholder. -/
def PlaceholderEntry.operand : PlaceholderEntry → String → Operand
  | .variable _, name => .variable name
  | .literal _ _, name => .literal name

namespace FilterCompiler

/-- The operands that a condition is built from, the topmost one first. -/
inductive Builds (idField : String) : List Operand → Condition → Prop where
  | joined (j : Junction) (left right : Condition) :
      Builds idField [.condition right, .condition left] (.compound (junction j left right))
  | negated (field predicate : String) (flag : Bool) :
      Builds idField [.condition (.field field predicate flag)] (.field field predicate (!flag))
  | nullChecked (field : String) :
      Builds idField [.column field] (.field field (singleton "$eq" "null") false)
  | columnFirst {o : Operand} {name : String} (field : String) (op : CompareOp)
      (h : o.placeholder? = some name) :
      Builds idField [o, .column field] (.field field (predicate idField field op name) false)
  | columnLast {o : Operand} {name : String} (field : String) (op : CompareOp)
      (h : o.placeholder? = some name) :
      Builds idField [.column field, o] (.field field (predicate idField field op name) false)

/-- What a callback may do to the operands and the table of a compiler. -/
inductive Effect (s : FilterCompiler) (c : Callback) : List Operand → PlaceholderTable → Prop where
  /-- Some operands are taken away, perhaps none. -/
  | takes (popped rest : List Operand) (h : s.stack.items = popped ++ rest) : Effect s c rest s.table
  | column (column : Column) (h : c = .column column) :
      Effect s c (.column column.field :: s.stack.items) s.table
  /-- An entry is given a fresh placeholder. -/
  | allocates (entry : PlaceholderEntry) :
      Effect s c (entry.operand (s.table.sequence.nameOf entry) :: s.stack.items)
        (s.table.extend [entry])
  /-- A condition takes the place of the operands it is built from. -/
  | builds (popped rest : List Operand) {condition : Condition}
      (h : s.stack.items = popped ++ rest) (hbuilds : Builds s.idField popped condition) :
      Effect s c (.condition condition :: rest) s.table

/-- A step has one of the effects of a callback. -/
def HasEffect (step : Run FilterCompiler Unit) (s : FilterCompiler) (c : Callback) : Prop :=
  Effect s c (step.exec s).2.stack.items (step.exec s).2.table

variable {s : FilterCompiler} {c : Callback}

/-- Where nothing happens, nothing is taken away. -/
theorem hasEffect_of_exec_eq {step : Run FilterCompiler Unit} (h : (step.exec s).2 = s) :
    HasEffect step s c := by
  unfold HasEffect
  rw [h]
  exact .takes [] s.stack.items rfl

theorem hasEffect_join (j : Junction) : HasEffect (join j) s c := by
  obtain ⟨clause, idField, ⟨items⟩, table, lastMirrored⟩ := s
  rcases items with _ | ⟨right, _ | ⟨left, rest⟩⟩
  · exact .takes [] [] rfl
  · exact .takes [] [right] rfl
  · cases left with
    | condition left =>
      cases right with
      | condition right => exact .builds [_, _] rest rfl (.joined j left right)
      | _ => exact .takes [_, _] rest rfl
    | _ => exact .takes [_, _] rest rfl

theorem hasEffect_negate : HasEffect negate s c := by
  obtain ⟨clause, idField, ⟨items⟩, table, lastMirrored⟩ := s
  rcases items with _ | ⟨operand, rest⟩
  · exact .takes [] [] rfl
  · cases operand with
    | condition condition =>
      cases condition with
      | field field predicate flag => exact .builds [_] rest rfl (.negated field predicate flag)
      | compound text => exact .takes [_] rest rfl
    | _ => exact .takes [_] rest rfl

theorem hasEffect_checkNull : HasEffect checkNull s c := by
  obtain ⟨clause, idField, ⟨items⟩, table, lastMirrored⟩ := s
  rcases items with _ | ⟨operand, rest⟩
  · exact .takes [] [] rfl
  · cases operand with
    | column field => exact .builds [_] rest rfl (.nullChecked field)
    | _ => exact .takes [_] rest rfl

theorem hasEffect_compare (op : CompareOp) : HasEffect (compare op) s c := by
  obtain ⟨clause, idField, ⟨items⟩, table, lastMirrored⟩ := s
  rcases items with _ | ⟨right, _ | ⟨left, rest⟩⟩
  · exact .takes [] [] rfl
  · exact .takes [] [right] rfl
  · cases left with
    | column field =>
      cases right with
      | «variable» name => exact .builds [_, _] rest rfl (.columnFirst field op rfl)
      | literal name => exact .builds [_, _] rest rfl (.columnFirst field op rfl)
      | _ => exact .takes [_, _] rest rfl
    | «variable» name =>
      cases right with
      | column field => exact .builds [_, _] rest rfl (.columnLast field op.mirrored rfl)
      | _ => exact .takes [_, _] rest rfl
    | literal name =>
      cases right with
      | column field => exact .builds [_, _] rest rfl (.columnLast field op.mirrored rfl)
      | _ => exact .takes [_, _] rest rfl
    | condition condition => exact .takes [_, _] rest rfl

theorem exec_enter (s : FilterCompiler) (construct : Construct) :
    ((enter construct).exec s).2 = s := by
  cases construct with
  | isNull =>
    -- the clause decides whether it is refused
    simp only [enter, Run.exec_bind, Run.exec_get]
    split <;> rfl
  | _ => rfl

/-- **Every callback has one of the effects.** -/
theorem effect_visit (s : FilterCompiler) (c : Callback) :
    Effect s c ((visit c).exec s).2.stack.items ((visit c).exec s).2.table := by
  cases c with
  | enter construct => exact hasEffect_of_exec_eq (exec_enter s construct)
  | between construct => exact hasEffect_of_exec_eq rfl
  | leave construct =>
    cases construct with
    | and => exact hasEffect_join .and
    | or => exact hasEffect_join .or
    | not => exact hasEffect_negate
    | compare op => exact hasEffect_compare op
    | isNull => exact hasEffect_checkNull
    | _ => exact hasEffect_of_exec_eq rfl
  | column column => exact .column column rfl
  | «variable» v => exact .allocates (.variable v)
  | literal value type => exact .allocates (.literal value type)

end FilterCompiler

/-! ## §2 Tables of a compiler -/

/-- Tables that were empty at `start` and have only been given fresh placeholders since. -/
def PlaceholderTable.GrownFrom (start : Sequence) (t : PlaceholderTable) : Prop :=
  ∃ entries, t = (startingAt start).extend entries

namespace PlaceholderTable

variable {start : Sequence} {t : PlaceholderTable} {name : String} {entry : PlaceholderEntry}

theorem GrownFrom.extend (h : t.GrownFrom start) (entries : List PlaceholderEntry) :
    (t.extend entries).GrownFrom start := by
  obtain ⟨before, rfl⟩ := h
  exact ⟨before ++ entries, ((startingAt start).extend_append before entries).symm⟩

/-- An entry of a table has a number from the first one on and below the next one. -/
theorem GrownFrom.exists_number (h : t.GrownFrom start) (hget : t.entries.get? name = some entry) :
    ∃ n, start.number entry ≤ n ∧ n < t.sequence.number entry ∧ name = placeholderName entry n := by
  obtain ⟨entries, rfl⟩ := h
  rw [sequence_extend]
  exact Sequence.exists_number_between_of_mem_named (get?_extend_startingAt.1 hget)

/-- The name that comes next is not in the table yet. -/
theorem GrownFrom.get?_nameOf (h : t.GrownFrom start) (entry : PlaceholderEntry) :
    t.entries.get? (t.sequence.nameOf entry) = none := by
  cases hget : t.entries.get? (t.sequence.nameOf entry) with
  | none => rfl
  | some other =>
    obtain ⟨n, _, hlt, hname⟩ := h.exists_number hget
    -- equal names would be of one kind, with one number
    obtain ⟨hkind, hn⟩ := placeholderName_inj hname
    cases entry <;> cases other <;> simp_all [Sequence.number, PlaceholderEntry.variable?]

theorem get?_extend_singleton (t : PlaceholderTable) (entry : PlaceholderEntry) (name : String) :
    (t.extend [entry]).entries.get? name =
      if name = t.sequence.nameOf entry then some entry else t.entries.get? name := by
  rw [extend_cons, extend_nil, grow, NameTable.get?_insert]

/-- What is in a table stays there when a placeholder is added. -/
theorem GrownFrom.get?_extend (h : t.GrownFrom start) {old : PlaceholderEntry}
    (hget : t.entries.get? name = some old) (entry : PlaceholderEntry) :
    (t.extend [entry]).entries.get? name = some old := by
  rw [get?_extend_singleton, if_neg, hget]
  rintro rfl
  rw [h.get?_nameOf] at hget
  cases hget

end PlaceholderTable

/-! ## §3 Sound operands -/

/-- Names that look like placeholders: `var` or `lit`, and a number. -/
def isPlaceholderToken (name : String) : Bool :=
  [['v', 'a', 'r'], ['l', 'i', 't']].contains (name.toList.take 3) &&
    !(name.toList.drop 3).isEmpty && (name.toList.drop 3).all Char.isDigit

theorem isPlaceholderToken_placeholderName (entry : PlaceholderEntry) (n : Nat) :
    isPlaceholderToken (placeholderName entry n) = true := by
  have hdigits : (Nat.toDigits 10 n).all Char.isDigit = true := by
    rw [List.all_eq_true]
    intro c hc
    exact Nat.isDigit_of_mem_toDigits (by decide) (by decide) hc
  have hne : Nat.toDigits 10 n ≠ [] := Nat.toDigits_ne_nil
  cases entry <;> simp [isPlaceholderToken, placeholderName, hne, hdigits]

/-- The placeholders that an operand shows. -/
def Operand.placeholderNames : Operand → List String
  | .column _ => []
  | .variable name => [name]
  | .literal name => [name]
  | .condition c => (visibleNames c.render).filter isPlaceholderToken

@[simp] theorem Operand.placeholderNames_column (field : String) :
    (Operand.column field).placeholderNames = [] :=
  rfl

/-- Conditions made of closed texts. -/
def Condition.IsClosed : Condition → Prop
  | .field name predicate _ => QuoteFree name ∧ Closed predicate
  | .compound text => Closed text

theorem Condition.IsClosed.closed_render {c : Condition} (h : c.IsClosed) : Closed c.render := by
  cases c with
  | compound text => exact h
  | field field predicate negated =>
    obtain ⟨hfield, hpredicate⟩ := h
    cases negated with
    | false => exact closed_singleton hfield hpredicate
    | true => exact closed_singleton hfield (closed_singleton (by decide) hpredicate)

/-- A condition on one field shows what its predicate shows, negated or not. -/
theorem Condition.visibleNames_render_field {field predicate : String} (hfield : QuoteFree field)
    (hpredicate : Closed predicate) (negated : Bool) :
    visibleNames (Condition.field field predicate negated).render = visibleNames predicate := by
  cases negated with
  | false => exact visibleNames_singleton hfield hpredicate.balanced
  | true =>
    have hnot : QuoteFree "$not" := by decide
    rw [← visibleNames_singleton hnot hpredicate.balanced]
    exact visibleNames_singleton hfield (balanced_singleton hnot hpredicate.balanced)

/-- Operands that fit a table: column names have no quotes, placeholders are entries of their kind,
    and conditions are closed and show no names but `null` and entries of the table. -/
def Operand.SoundIn (t : PlaceholderTable) : Operand → Prop
  | .column field => QuoteFree field
  | .variable name => ∃ v, t.entries.get? name = some (.variable v)
  | .literal name => ∃ value type, t.entries.get? name = some (.literal value type)
  | .condition c => c.IsClosed ∧
      ∀ name ∈ visibleNames c.render, name = "null" ∨ ∃ entry, t.entries.get? name = some entry

namespace Operand

variable {start : Sequence} {t : PlaceholderTable} {o : Operand} {name : String}

theorem SoundIn.mono (ht : t.GrownFrom start) (h : o.SoundIn t) (entry : PlaceholderEntry) :
    o.SoundIn (t.extend [entry]) := by
  cases o with
  | column field => exact h
  | «variable» name =>
    obtain ⟨v, hv⟩ := h
    exact ⟨v, ht.get?_extend hv entry⟩
  | literal name =>
    obtain ⟨value, type, hliteral⟩ := h
    exact ⟨value, type, ht.get?_extend hliteral entry⟩
  | condition c =>
    refine ⟨h.1, ?_⟩
    intro name hname
    refine (h.2 name hname).imp_right ?_
    rintro ⟨old, hold⟩
    exact ⟨old, ht.get?_extend hold entry⟩

theorem SoundIn.exists_get?_of_placeholder? (h : o.SoundIn t) (ho : o.placeholder? = some name) :
    ∃ entry, t.entries.get? name = some entry := by
  cases o <;> cases ho
  · obtain ⟨v, hv⟩ := h
    exact ⟨_, hv⟩
  · obtain ⟨value, type, hliteral⟩ := h
    exact ⟨_, hliteral⟩

/-- The placeholders that a sound operand shows are in the table. -/
theorem SoundIn.exists_get? (h : o.SoundIn t) (hname : name ∈ o.placeholderNames) :
    ∃ entry, t.entries.get? name = some entry := by
  cases o with
  | column field => cases hname
  | «variable» n =>
    obtain rfl : name = n := List.mem_singleton.1 hname
    exact h.exists_get?_of_placeholder? rfl
  | literal n =>
    obtain rfl : name = n := List.mem_singleton.1 hname
    exact h.exists_get?_of_placeholder? rfl
  | condition c =>
    obtain ⟨hvisible, htoken⟩ := List.mem_filter.1 hname
    rcases h.2 name hvisible with rfl | hentry
    · exact absurd htoken (by decide)
    · exact hentry

theorem placeholderNames_of_placeholder? (ho : o.placeholder? = some name) :
    o.placeholderNames = [name] := by
  cases o <;> cases ho <;> rfl

end Operand

/-! ## §4 Sound stacks -/

namespace FilterCompiler

variable {start : Sequence} {t : PlaceholderTable}

/-- The predicate of a comparison shows the placeholder that the column is compared with. -/
theorem closed_predicate (idField field : String) (op : CompareOp) {name : String}
    (hname : IsName name) :
    Closed (predicate idField field op name) ∧
      visibleNames (predicate idField field op name) = [name] := by
  have hop : QuoteFree op.document :=
    op.document_eq_spelling ▸ FilterDocument.quoteFree_compareOp op
  have hoid : QuoteFree "$oid" := by decide
  unfold predicate
  split
  · have hvalue := closed_singleton hoid hname.closed
    refine ⟨closed_singleton hop hvalue, ?_⟩
    rw [visibleNames_singleton hop hvalue.balanced, visibleNames_singleton hoid hname.balanced,
      hname.visibleNames_eq]
  · refine ⟨closed_singleton hop hname.closed, ?_⟩
    rw [visibleNames_singleton hop hname.balanced, hname.visibleNames_eq]

/-- What a comparison of a column with a placeholder is built to. -/
theorem soundIn_comparison (ht : t.GrownFrom start) (idField : String) {field : String}
    (hfield : QuoteFree field) (op : CompareOp) {o : Operand} {name : String} (ho : o.SoundIn t)
    (hname : o.placeholder? = some name) :
    (Operand.condition (.field field (predicate idField field op name) false)).SoundIn t ∧
      (Operand.condition (.field field (predicate idField field op name) false)).placeholderNames =
        [name] := by
  obtain ⟨entry, hentry⟩ := ho.exists_get?_of_placeholder? hname
  obtain ⟨n, _, _, hn⟩ := ht.exists_number hentry
  have htoken : isPlaceholderToken name = true := hn ▸ isPlaceholderToken_placeholderName entry n
  have hisName : IsName name := hn ▸ isName_placeholderName entry n
  obtain ⟨hclosed, hvisible⟩ := closed_predicate idField field op hisName
  have hrender := Condition.visibleNames_render_field hfield hclosed false
  rw [hvisible] at hrender
  constructor
  · refine ⟨⟨hfield, hclosed⟩, ?_⟩
    rw [hrender]
    intro other hother
    obtain rfl : other = name := List.mem_singleton.1 hother
    exact .inr ⟨entry, hentry⟩
  · rw [Operand.placeholderNames, hrender]
    simp [htoken]

theorem soundIn_junction (j : Junction) {left right : Condition}
    (hleft : (Operand.condition left).SoundIn t) (hright : (Operand.condition right).SoundIn t) :
    (Operand.condition (.compound (junction j left right))).SoundIn t ∧
      (Operand.condition (.compound (junction j left right))).placeholderNames =
        (Operand.condition left).placeholderNames ++ (Operand.condition right).placeholderNames := by
  have hclosedLeft := hleft.1.closed_render
  have hclosedRight := hright.1.closed_render
  have hj : QuoteFree j.document := j.document_eq_spelling ▸ FilterDocument.quoteFree_junction j
  have hpair := closed_pair hclosedLeft hclosedRight
  have hvisible : visibleNames (junction j left right) =
      visibleNames left.render ++ visibleNames right.render := by
    rw [junction, visibleNames_singleton hj hpair.balanced,
      visibleNames_pair hclosedLeft.balanced hclosedRight.balanced]
  constructor
  · refine ⟨closed_singleton hj hpair, ?_⟩
    change ∀ name ∈ visibleNames (junction j left right), _
    rw [hvisible, List.forall_mem_append]
    exact ⟨hleft.2, hright.2⟩
  · change (visibleNames (junction j left right)).filter _ = _
    rw [hvisible, List.filter_append]
    rfl

/-- **A condition that is built of sound operands is sound**, and shows their placeholders. -/
theorem Builds.sound {idField : String} {popped : List Operand} {condition : Condition}
    (h : Builds idField popped condition) (ht : t.GrownFrom start)
    (hpopped : ∀ o ∈ popped, o.SoundIn t) :
    (Operand.condition condition).SoundIn t ∧
      (Operand.condition condition).placeholderNames.Perm
        (popped.flatMap Operand.placeholderNames) := by
  cases h with
  | joined j left right =>
    obtain ⟨hright, hrest⟩ := List.forall_mem_cons.1 hpopped
    obtain ⟨hsound, hnames⟩ := soundIn_junction j (List.forall_mem_singleton.1 hrest) hright
    refine ⟨hsound, ?_⟩
    -- the right condition lay on top of the left one
    rw [hnames]
    simpa using List.perm_append_comm
  | negated field predicate flag =>
    have hsound := hpopped _ (List.mem_singleton_self _)
    obtain ⟨⟨hfield, hpredicate⟩, hnames⟩ := hsound
    have hrender : visibleNames (Condition.field field predicate (!flag)).render =
        visibleNames (Condition.field field predicate flag).render := by
      rw [Condition.visibleNames_render_field hfield hpredicate,
        Condition.visibleNames_render_field hfield hpredicate]
    refine ⟨⟨⟨hfield, hpredicate⟩, ?_⟩, ?_⟩
    · rw [hrender]
      exact hnames
    · simp [Operand.placeholderNames, hrender]
  | nullChecked field =>
    have hfield : QuoteFree field := hpopped _ (List.mem_singleton_self _)
    have hnull : IsName "null" := ⟨⟨'n', by decide, rfl⟩, by decide⟩
    have heq : QuoteFree "$eq" := by decide
    have hclosed := closed_singleton heq hnull.closed
    have hrender := Condition.visibleNames_render_field hfield hclosed false
    rw [visibleNames_singleton heq hnull.balanced, hnull.visibleNames_eq] at hrender
    refine ⟨⟨⟨hfield, hclosed⟩, ?_⟩, ?_⟩
    · rw [hrender]
      intro name hname
      exact .inl (List.mem_singleton.1 hname)
    · have hnone : ["null"].filter isPlaceholderToken = [] := by decide
      rw [Operand.placeholderNames, hrender, hnone]
      exact .nil
  | columnFirst field op ho =>
    obtain ⟨hvalue, hrest⟩ := List.forall_mem_cons.1 hpopped
    have hfield : QuoteFree field := hrest _ (List.mem_singleton_self _)
    obtain ⟨hsound, hnames⟩ := soundIn_comparison ht idField hfield op hvalue ho
    refine ⟨hsound, ?_⟩
    rw [hnames]
    simp [Operand.placeholderNames_of_placeholder? ho]
  | columnLast field op ho =>
    obtain ⟨hcolumn, hrest⟩ := List.forall_mem_cons.1 hpopped
    have hfield : QuoteFree field := hcolumn
    obtain ⟨hsound, hnames⟩ :=
      soundIn_comparison ht idField hfield op (List.forall_mem_singleton.1 hrest) ho
    refine ⟨hsound, ?_⟩
    rw [hnames]
    simp [Operand.placeholderNames_of_placeholder? ho]

/-- Operands that fit a table, with no placeholder in two places. -/
structure Sound (t : PlaceholderTable) (operands : List Operand) : Prop where
  fits : ∀ o ∈ operands, o.SoundIn t
  once : (operands.flatMap Operand.placeholderNames).Nodup

/-- The name that comes next stands on no sound stack. -/
theorem Sound.not_mem_nameOf {operands : List Operand} (h : Sound t operands)
    (ht : t.GrownFrom start) (entry : PlaceholderEntry) :
    t.sequence.nameOf entry ∉ operands.flatMap Operand.placeholderNames := by
  intro hname
  obtain ⟨o, ho, hname⟩ := List.mem_flatMap.1 hname
  obtain ⟨old, hold⟩ := (h.fits o ho).exists_get? hname
  rw [ht.get?_nameOf entry] at hold
  cases hold

/-- **Every effect keeps the operands sound**, as long as column names have no quotes. -/
theorem Sound.effect {operands : List Operand} {t' : PlaceholderTable}
    (h : Sound s.table s.stack.items) (ht : s.table.GrownFrom start)
    (hcolumn : ∀ column, c = .column column → QuoteFree column.field)
    (heffect : Effect s c operands t') : Sound t' operands ∧ t'.GrownFrom start := by
  obtain ⟨hfits, honce⟩ := h
  cases heffect with
  | takes popped rest hitems =>
    -- a part of the operands is as sound as all of them
    rw [hitems] at hfits honce
    rw [List.flatMap_append] at honce
    exact ⟨⟨(List.forall_mem_append.1 hfits).2, (List.nodup_append.1 honce).2.1⟩, ht⟩
  | column column hc =>
    exact ⟨⟨List.forall_mem_cons.2 ⟨hcolumn column hc, hfits⟩, honce⟩, ht⟩
  | allocates entry =>
    have hfresh := (Sound.mk hfits honce).not_mem_nameOf ht entry
    have hget : (s.table.extend [entry]).entries.get? (s.table.sequence.nameOf entry) =
        some entry := by
      rw [PlaceholderTable.get?_extend_singleton, if_pos rfl]
    have hnames : (entry.operand (s.table.sequence.nameOf entry)).placeholderNames =
        [s.table.sequence.nameOf entry] := by
      cases entry <;> rfl
    -- the others still fit the larger table, and none of them has the new name
    refine ⟨⟨List.forall_mem_cons.2 ⟨?_, fun o ho => (hfits o ho).mono ht entry⟩, ?_⟩, ht.extend _⟩
    · cases entry with
      | «variable» v => exact ⟨v, hget⟩
      | literal value type => exact ⟨value, type, hget⟩
    · rw [List.flatMap_cons, hnames]
      exact List.nodup_cons.2 ⟨hfresh, honce⟩
  | builds popped rest hitems hbuilds =>
    rw [hitems] at hfits honce
    obtain ⟨hpopped, hrest⟩ := List.forall_mem_append.1 hfits
    obtain ⟨hsound, hperm⟩ := hbuilds.sound ht hpopped
    refine ⟨⟨List.forall_mem_cons.2 ⟨hsound, hrest⟩, ?_⟩, ht⟩
    -- the placeholders only change their places
    rw [List.flatMap_append] at honce
    rw [List.flatMap_cons]
    exact (hperm.append_right _).nodup_iff.2 honce

/-! ## §5 Any callbacks -/

/-- The operands after any callbacks are sound. -/
theorem sound_afterAll (config : Config) (clause : FilterClause) (sequence : Sequence)
    (cs : List Callback) (hcolumns : ∀ column, .column column ∈ cs → QuoteFree column.field) :
    Sound (afterAll visit (FilterCompiler.start config clause sequence) cs).table
        (afterAll visit (FilterCompiler.start config clause sequence) cs).stack.items ∧
      (afterAll visit (FilterCompiler.start config clause sequence) cs).table.GrownFrom sequence := by
  -- the columns are those of the callbacks so far, so they belong to the invariant
  revert hcolumns
  apply afterAll_induction (motive := fun past (s : FilterCompiler) =>
    (∀ column, .column column ∈ past → QuoteFree column.field) →
      Sound s.table s.stack.items ∧ s.table.GrownFrom sequence)
  · intro _
    exact ⟨⟨nofun, .nil⟩, [], rfl⟩
  · intro past c ih hcolumns
    obtain ⟨hsound, hgrown⟩ := ih fun column h => hcolumns column (List.mem_append_left _ h)
    refine hsound.effect hgrown ?_ (effect_visit _ c)
    rintro column rfl
    exact hcolumns column (List.mem_append_right _ (List.mem_singleton_self _))

/-- **Filter callbacks may come in any order.**  After any callbacks with quote-free column names,
    failed ones included, the placeholders on the stack are entries of the table of their kind,
    conditions show no placeholder that is not in the table, no placeholder stands in two places,
    every entry has a number from the first one on and below the next one, and every condition has an
    even number of quotes and matching braces and brackets outside quotes. -/
theorem callbacks_keep_stack_sound {config : Config} {clause : FilterClause} {sequence : Sequence}
    {cs : List Callback} (hcolumns : ∀ column, .column column ∈ cs → QuoteFree column.field)
    {s : FilterCompiler} (hs : afterAll visit (FilterCompiler.start config clause sequence) cs = s) :
    (∀ name, .variable name ∈ s.stack.items →
      ∃ v, s.table.entries.get? name = some (.variable v)) ∧
    (∀ name, .literal name ∈ s.stack.items →
      ∃ value type, s.table.entries.get? name = some (.literal value type)) ∧
    (∀ condition, .condition condition ∈ s.stack.items →
      ∀ name ∈ visibleNames condition.render, isPlaceholderToken name = true →
        ∃ entry, s.table.entries.get? name = some entry) ∧
    (s.stack.items.flatMap Operand.placeholderNames).Nodup ∧
    (∀ name entry, s.table.entries.get? name = some entry →
      ∃ n, sequence.number entry ≤ n ∧ n < s.table.sequence.number entry ∧
        name = placeholderName entry n) ∧
    ∀ condition, .condition condition ∈ s.stack.items →
      condition.render.toList.count '\'' % 2 = 0 ∧ Nested condition.render := by
  obtain ⟨⟨hfits, honce⟩, hgrown⟩ := sound_afterAll config clause sequence cs hcolumns
  rw [hs] at hfits honce hgrown
  refine ⟨fun name h => hfits _ h, fun name h => hfits _ h, ?_, honce,
    fun name entry hget => hgrown.exists_number hget, ?_⟩
  · intro condition h name hname htoken
    exact (hfits _ h).exists_get? (List.mem_filter.2 ⟨hname, htoken⟩)
  · intro condition h
    have hclosed := (hfits _ h).1.closed_render
    exact ⟨balanced_iff_even_count.1 hclosed.balanced, hclosed.nested⟩

/-- Callbacks out of turn.  A junction finds nothing to join, a null check loses the variable it was
    given, and between them stand two comparisons, with a negation, and a junction. -/
def outOfTurn : List Callback :=
  [.leave .and, .column { field := "a", type := .int }, .variable { field := "x", type := .int },
    .leave (.compare .lt), .leave .not, .variable { field := "y", type := .int }, .leave .isNull,
    .literal (.int 5) .int, .column { field := "_id", type := .int }, .leave (.compare .gt),
    .leave .or, .literal (.int 6) .int]

theorem callbacks_keep_stack_sound_outOfTurn :
    (∀ column, .column column ∈ outOfTurn → QuoteFree column.field) ∧
      ∃ condition s, afterAll visit (FilterCompiler.start {} .having ⟨3, 1⟩) outOfTurn = s ∧
        s.stack.items = [.literal "lit2", .condition condition] ∧
        condition.render = "\x7b'$or': [\x7b'a': \x7b'$not': \x7b'$lt': var3\x7d\x7d\x7d, " ++
          "\x7b'_id': \x7b'$lt': \x7b'$oid': lit1\x7d\x7d\x7d]\x7d" ∧
        Nested condition.render ∧ ∃ entry, s.table.entries.get? "var3" = some entry := by
  have hcolumns : ∀ column, .column column ∈ outOfTurn → QuoteFree column.field := by
    intro column h
    have hfield : column.field ∈ ["a", "_id"] := by
      simp only [outOfTurn, List.mem_cons, Callback.column.injEq, reduceCtorEq, false_or,
        List.not_mem_nil, or_false] at h
      rcases h with rfl | rfl <;> decide
    have hquotes : ∀ field ∈ ["a", "_id"], QuoteFree field := by decide
    exact hquotes _ hfield
  obtain ⟨s, hs⟩ : ∃ s, afterAll visit (FilterCompiler.start {} .having ⟨3, 1⟩) outOfTurn = s :=
    ⟨_, rfl⟩
  obtain ⟨_, _, hconditions, _, _, hnested⟩ := callbacks_keep_stack_sound hcolumns hs
  obtain ⟨condition, hitems, hrender⟩ : ∃ condition,
      s.stack.items = [.literal "lit2", .condition condition] ∧
      condition.render = "\x7b'$or': [\x7b'a': \x7b'$not': \x7b'$lt': var3\x7d\x7d\x7d, " ++
          "\x7b'_id': \x7b'$lt': \x7b'$oid': lit1\x7d\x7d\x7d]\x7d" := by
    rw [← hs]
    exact ⟨_, rfl, by decide +kernel⟩
  have hmem : Operand.condition condition ∈ s.stack.items := by
    rw [hitems]
    exact List.mem_cons_of_mem _ (List.mem_singleton_self _)
  refine ⟨hcolumns, condition, s, hs, hitems, hrender, (hnested condition hmem).2, ?_⟩
  apply hconditions condition hmem
  · rw [hrender]
    decide
  · decide

end FilterCompiler

end QueryPipeline
