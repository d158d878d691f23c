import QueryPipeline.Description.Query
import QueryPipeline.Proofs.Description.Expressions

/-!
# Descriptions of queries, written and read again

A query is read clause by clause, front to back, and written with every clause.  So it is enough to
know what each clause is read as.

## Main definitions

- `Query.reread`: what a query is after it was written and read again.
- `Query.Settled`: every constant of the query is as reading gives it.

## Main statements

- `Query.ofDraft_draft_toJson`: a written query can be read, and is then what `reread` says.
- `Query.settled_of_ofDraft`: a query that was read is settled.
- `Query.reading_is_stable`: so what was read is the same when it is written and read again.
-/

namespace QueryPipeline

/-! ## §1 Values without faults -/

namespace Json

theorem valueItems_draftItems {items : List Json} (h : ∀ j ∈ items, j.draft.value = .ok j) :
    Draft.valueItems (draftItems items) = .ok items := by
  induction items with
  | nil => rfl
  | cons j rest ih =>
    have hrest := ih fun j' hj' => h j' (List.mem_cons_of_mem _ hj')
    rw [draftItems, Draft.valueItems, h j List.mem_cons_self, hrest]
    rfl

theorem valueFields_draftFields {fields : List (String × Json)}
    (h : ∀ f ∈ fields, f.2.draft.value = .ok f.2) :
    Draft.valueFields (draftFields fields) = .ok fields := by
  induction fields with
  | nil => rfl
  | cons f rest ih =>
    have hrest := ih fun f' hf' => h f' (List.mem_cons_of_mem _ hf')
    rw [draftFields, Draft.valueFields, h f List.mem_cons_self, hrest]
    rfl

/-- A value is the value of its draft. -/
theorem value_draft (j : Json) : j.draft.value = .ok j := by
  induction j using Json.induction with
  | scalar s => rfl
  | list items hitems =>
    rw [draft, Draft.value, valueItems_draftItems hitems]
    rfl
  | object fields hfields =>
    rw [draft, Draft.value, valueFields_draftFields hfields]
    rfl

end Json

theorem ReadError.eq_some_of_orShape {α : Type} {o : Option α} {a : α} (h : orShape o = .ok a) :
    o = some a := by
  cases o <;> cases h
  rfl

theorem Draft.exists_of_whole {α : Type} {decode : Json → Option α} {d : Draft} {a : α}
    (h : d.whole decode = .ok a) : ∃ j, decode j = some a := by
  obtain ⟨j, _, h⟩ := Run.bind_eq_ok_iff.1 h
  exact ⟨j, ReadError.eq_some_of_orShape h⟩

/-! ## §2 Expressions front to back -/

namespace Expr

theorem exists_describe (e : Expr) : ∃ kind fields,
    e.toJson = describe kind fields ∧ kind ∈ kinds ∧ "kind" ∉ fields.map Prod.fst := by
  cases e <;> exact ⟨_, _, rfl, by decide, by simp [Column.fields, Variable.fields]⟩

theorem readFields_draftFields {fields : List (String × Json)} (h : "kind" ∉ fields.map Prod.fst)
    (kindSeen : Bool) : readFields kindSeen (Json.draftFields fields) = .ok fields := by
  induction fields with
  | nil => rfl
  | cons f rest ih =>
    obtain ⟨name, j⟩ := f
    rw [List.map_cons, List.mem_cons, not_or] at h
    rw [Json.draftFields, readFields, if_neg (Ne.symm h.1), j.value_draft, ih h.2]
    rfl

/-- A written expression can be read front to back. -/
theorem ofDraft_draft_toJson (e : Expr) : ofDraft e.toJson.draft = .ok e.reread := by
  obtain ⟨kind, fields, htoJson, hkind, hfields⟩ := e.exists_describe
  have hnamed : Draft.named kindOf? (.scalar (.text kind)) = .ok kind := by
    show ReadError.orShape (kindOf? kind) = _
    rw [kindOf?, if_pos (List.elem_eq_true_of_mem hkind)]
    rfl
  have hread : readFields false (Json.draftFields (("kind", .text kind) :: fields)) =
      .ok (("kind", .text kind) :: fields) := by
    rw [Json.draftFields, readFields, if_pos rfl, if_neg (by decide)]
    show Draft.named kindOf? (.scalar (.text kind)) >>= _ = _
    rw [hnamed, readFields_draftFields hfields]
    rfl
  rw [htoJson]
  show (do ReadError.orShape (ofSetAside? (.object (← readFields false _)))) = _
  rw [hread]
  show ReadError.orShape (ofSetAside? (describe kind fields)) = _
  rw [← htoJson, e.ofSetAside?_toJson]
  rfl

theorem exists_of_ofDraft {d : Draft} {e : Expr} (h : ofDraft d = .ok e) :
    ∃ j, ofSetAside? j = some e := by
  unfold ofDraft at h
  split at h
  · obtain ⟨fields, _, h⟩ := Run.bind_eq_ok_iff.1 h
    exact ⟨_, ReadError.eq_some_of_orShape h⟩
  · obtain ⟨kind, _, h⟩ := Run.bind_eq_ok_iff.1 h
    obtain ⟨items, _, h⟩ := Run.bind_eq_ok_iff.1 h
    exact ⟨_, ReadError.eq_some_of_orShape h⟩
  · exact Draft.exists_of_whole h

theorem settled_of_ofDraft {d : Draft} {e : Expr} (h : ofDraft d = .ok e) : e.Settled := by
  obtain ⟨j, hj⟩ := exists_of_ofDraft h
  exact reread_eq_self_iff.1 (reread_of_ofSetAside? hj)

theorem ofDraft_draft_of_settled {e : Expr} (h : e.Settled) : ofDraft e.toJson.draft = .ok e := by
  rw [ofDraft_draft_toJson, reread_eq_self_iff.2 h]

end Expr

/-! ## §3 Records and lists -/

namespace Draft

section Written

variable {ρ α : Type} {field : ρ → String → Option (Draft → Except ReadError ρ)} {r : ρ}
  {seen : List String} {name : String} {d : Draft} {rest : List (Except Fault String × Draft)}

/-- A known field is read into the record. -/
theorem readFields_known {read : Draft → Except ReadError α} {set : α → ρ} {a : α}
    (hfield : field r name = some fun d => do return set (← read d))
    (hseen : seen.contains name = false) (hread : read d = .ok a) :
    readFields field r seen ((.ok name, d) :: rest) =
      readFields field (set a) (name :: seen) rest := by
  rw [readFields, hfield]
  simp only [hseen, hread]
  rfl

/-- A list of written things is read item by item. -/
theorem items_draft {read : Draft → Except ReadError ρ} {write : α → Json} {reread : α → ρ}
    (h : ∀ a, read (write a).draft = .ok (reread a)) (as : List α) :
    (Json.list (as.map write)).draft.items read = .ok (as.map reread) := by
  show readItems read (Json.draftItems (as.map write)) = _
  induction as with
  | nil => rfl
  | cons a rest ih =>
    rw [List.map_cons, Json.draftItems, readItems, h, ih]
    rfl

end Written

section Read

variable {ρ : Type} {P : ρ → Prop}

/-- What every known field keeps is kept by all of them. -/
theorem readFields_invariant {field : ρ → String → Option (Draft → Except ReadError ρ)}
    (hstep : ∀ r name read d r', field r name = some read → P r → read d = .ok r' → P r')
    {fields : List (Except Fault String × Draft)} {r r' : ρ} {seen : List String} (hr : P r)
    (h : readFields field r seen fields = .ok r') : P r' := by
  induction fields generalizing r seen with
  | nil =>
    cases h
    exact hr
  | cons f rest ih =>
    obtain ⟨name, d⟩ := f
    cases name with
    | error fault => cases h
    | ok name =>
      rw [readFields] at h
      split at h
      · rename_i read hfield
        split at h
        · cases h
        · obtain ⟨next, hnext, h⟩ := Run.bind_eq_ok_iff.1 h
          exact ih (hstep r name read d next hfield hr hnext) h
      · -- an unknown field is passed over
        obtain ⟨_, _, h⟩ := Run.bind_eq_ok_iff.1 h
        exact ih hr h

theorem record_invariant {field : ρ → String → Option (Draft → Except ReadError ρ)}
    (hstep : ∀ r name read d r', field r name = some read → P r → read d = .ok r' → P r')
    {names : List String} {start r : ρ} {d : Draft} (hstart : P start)
    (h : d.record names field start = .ok r) : P r := by
  cases d with
  | object fields => exact readFields_invariant hstep hstart h
  | list items =>
    obtain ⟨r', hr', h⟩ := Run.bind_eq_ok_iff.1 h
    split at h <;> cases h
    exact readFields_invariant hstep hstart hr'
  | _ => cases h

variable {read : Draft → Except ReadError ρ} (hread : ∀ d a, read d = .ok a → P a) {d : Draft}

include hread

theorem forall_of_items {as : List ρ} (h : d.items read = .ok as) : ∀ a ∈ as, P a := by
  cases d with
  | list ds =>
    rw [items] at h
    induction ds generalizing as with
    | nil =>
      cases h
      exact fun a ha => absurd ha List.not_mem_nil
    | cons first rest ih =>
      obtain ⟨a, ha, h⟩ := Run.bind_eq_ok_iff.1 h
      obtain ⟨others, hothers, h⟩ := Run.bind_eq_ok_iff.1 h
      cases h
      exact List.forall_mem_cons.2 ⟨hread first a ha, ih hothers⟩
  | _ => cases h

theorem forall_of_orNull {o : Option ρ} (h : d.orNull read = .ok o) : ∀ a ∈ o, P a := by
  unfold orNull at h
  split at h
  · cases h
    exact fun a ha => by cases ha
  · obtain ⟨a, ha, h⟩ := Run.map_eq_ok_iff.1 h
    cases h
    exact fun b hb => Option.some.inj hb ▸ hread _ a ha

end Read

end Draft

/-! ## §4 Queries -/

def SelectItem.reread (i : SelectItem) : SelectItem :=
  { i with expression := i.expression.reread }

def OrderItem.reread (i : OrderItem) : OrderItem :=
  { i with expression := i.expression.reread }

namespace Query

/-- A query that was written and read again. -/
def reread (q : Query) : Query :=
  { q with
    filter := q.filter.map Expr.reread
    select := q.select.map SelectItem.reread
    groupBy := q.groupBy.map Expr.reread
    having := q.having.map Expr.reread
    orderBy := q.orderBy.map OrderItem.reread }

/-- Every constant of the query is as reading gives it. -/
structure Settled (q : Query) : Prop where
  filter : ∀ e ∈ q.filter, e.Settled
  select : ∀ i ∈ q.select, i.expression.Settled
  groupBy : ∀ e ∈ q.groupBy, e.Settled
  having : ∀ e ∈ q.having, e.Settled
  orderBy : ∀ i ∈ q.orderBy, i.expression.Settled

end Query

theorem orNull_clauseToJson (o : Option Expr) :
    (clauseToJson o).draft.orNull Expr.ofDraft = .ok (o.map Expr.reread) := by
  cases o with
  | none => rfl
  | some e =>
    -- a description is an object, so it is not taken for null
    obtain ⟨kind, fields, htoJson, _, _⟩ := e.exists_describe
    have hread : (clauseToJson (some e)).draft.orNull Expr.ofDraft =
        some <$> Expr.ofDraft e.toJson.draft := by
      rw [clauseToJson, htoJson]
      rfl
    rw [hread, e.ofDraft_draft_toJson]
    rfl

theorem orNull_countToJson (o : Option UInt64) :
    (countToJson o).draft.orNull readCount = .ok o := by
  cases o with
  | none => rfl
  | some n =>
    have hread : (countToJson (some n)).draft.orNull readCount =
        some <$> ReadError.orShape
          (if 0 ≤ (n.toNat : Int) ∧ (n.toNat : Int) < Int.pow 2 64 then
            some (.ofNat (n.toNat : Int).toNat) else none) := rfl
    have hbound : (n.toNat : Int) < Int.pow 2 64 := Int.ofNat_lt.2 n.toNat_lt
    rw [hread, if_pos ⟨Int.natCast_nonneg _, hbound⟩, Int.toNat_natCast, UInt64.ofNat_toNat]
    rfl

namespace SelectItem

theorem read_draft_toJson (i : SelectItem) :
    SelectItem.read Expr.ofDraft i.toJson.draft = .ok i.reread := by
  unfold SelectItem.read
  refine Run.bind_eq_ok_iff.2 ⟨(some i.name, some i.expression.reread), ?_, rfl⟩
  show Draft.readFields _ _ [] _ = _
  have hname : Draft.text (.scalar (.text i.name)) = .ok i.name := rfl
  refine (Draft.readFields_known rfl rfl hname).trans ?_
  exact (Draft.readFields_known rfl rfl i.expression.ofDraft_draft_toJson).trans rfl

theorem settled_of_read {d : Draft} {i : SelectItem} (h : SelectItem.read Expr.ofDraft d = .ok i) :
    i.expression.Settled := by
  obtain ⟨⟨name, expression⟩, hrecord, h⟩ := Run.bind_eq_ok_iff.1 h
  have hsettled : ∀ e ∈ expression, e.Settled := by
    refine Draft.record_invariant (P := fun s => ∀ e ∈ s.2, e.Settled) ?_ ?_ hrecord
    · rintro ⟨name, expression⟩ field read d r' hfield hr hread
      dsimp only at hfield
      split at hfield <;> cases hfield
      · obtain ⟨name', _, hread⟩ := Run.bind_eq_ok_iff.1 hread
        cases hread
        exact hr
      · obtain ⟨e, he, hread⟩ := Run.bind_eq_ok_iff.1 hread
        cases hread
        exact fun e' he' => Option.some.inj he' ▸ Expr.settled_of_ofDraft he
    · exact fun e he => by cases he
  obtain ⟨name', _, h⟩ := Run.bind_eq_ok_iff.1 h
  obtain ⟨e, he, h⟩ := Run.bind_eq_ok_iff.1 h
  cases h
  exact hsettled e (ReadError.eq_some_of_orShape he)

end SelectItem

namespace OrderItem

theorem read_draft_toJson (i : OrderItem) :
    OrderItem.read Expr.ofDraft i.toJson.draft = .ok i.reread := by
  unfold OrderItem.read
  refine Run.bind_eq_ok_iff.2 ⟨(some i.expression.reread, i.order), ?_, rfl⟩
  show Draft.readFields _ _ [] _ = _
  have horder : Draft.choice SortOrder.ofName? (.scalar (.text i.order.name)) = .ok i.order := by
    rw [Draft.choice, i.order.ofName?_name]
    rfl
  refine (Draft.readFields_known rfl rfl i.expression.ofDraft_draft_toJson).trans ?_
  exact (Draft.readFields_known rfl rfl horder).trans rfl

theorem settled_of_read {d : Draft} {i : OrderItem} (h : OrderItem.read Expr.ofDraft d = .ok i) :
    i.expression.Settled := by
  obtain ⟨⟨expression, order⟩, hrecord, h⟩ := Run.bind_eq_ok_iff.1 h
  have hsettled : ∀ e ∈ expression, e.Settled := by
    refine Draft.record_invariant (P := fun s => ∀ e ∈ s.1, e.Settled) ?_ ?_ hrecord
    · rintro ⟨expression, order⟩ field read d r' hfield hr hread
      dsimp only at hfield
      split at hfield <;> cases hfield
      · obtain ⟨e, he, hread⟩ := Run.bind_eq_ok_iff.1 hread
        cases hread
        exact fun e' he' => Option.some.inj he' ▸ Expr.settled_of_ofDraft he
      · obtain ⟨order', _, hread⟩ := Run.bind_eq_ok_iff.1 hread
        cases hread
        exact hr
    · exact fun e he => by cases he
  obtain ⟨e, he, h⟩ := Run.bind_eq_ok_iff.1 h
  cases h
  exact hsettled e (ReadError.eq_some_of_orShape he)

end OrderItem

namespace Query

/-- A written query can be read. -/
theorem ofDraft_draft_toJson (q : Query) : ofDraft q.toJson.draft = .ok q.reread := by
  -- every clause is written, so the fields are read in the order of writing
  show Draft.readFields (readClause Expr.ofDraft) {} [] _ = _
  refine (Draft.readFields_known rfl rfl (orNull_clauseToJson q.filter)).trans ?_
  refine (Draft.readFields_known rfl rfl
    (Draft.items_draft SelectItem.read_draft_toJson q.select)).trans ?_
  refine (Draft.readFields_known rfl rfl
    (Draft.items_draft Expr.ofDraft_draft_toJson q.groupBy)).trans ?_
  refine (Draft.readFields_known rfl rfl (orNull_clauseToJson q.having)).trans ?_
  refine (Draft.readFields_known rfl rfl
    (Draft.items_draft OrderItem.read_draft_toJson q.orderBy)).trans ?_
  refine (Draft.readFields_known rfl rfl (orNull_countToJson q.limit)).trans ?_
  exact (Draft.readFields_known rfl rfl (orNull_countToJson q.offset)).trans rfl

/-- Every clause that is read is settled. -/
theorem settled_readClause {q q' : Query} {name : String} {read : Draft → Except ReadError Query}
    {d : Draft} (hclause : q.readClause Expr.ofDraft name = some read) (hq : q.Settled)
    (h : read d = .ok q') : q'.Settled := by
  have hexpr : ∀ d e, Expr.ofDraft d = .ok e → e.Settled := fun _ _ => Expr.settled_of_ofDraft
  have hselect : ∀ d i, SelectItem.read Expr.ofDraft d = .ok i → i.expression.Settled :=
    fun _ _ => SelectItem.settled_of_read
  have horder : ∀ d i, OrderItem.read Expr.ofDraft d = .ok i → i.expression.Settled :=
    fun _ _ => OrderItem.settled_of_read
  unfold readClause at hclause
  split at hclause <;> cases hclause <;> obtain ⟨clause, hread, h⟩ := Run.bind_eq_ok_iff.1 h <;>
    cases h
  case h_1 => exact { hq with filter := Draft.forall_of_orNull hexpr hread }
  case h_2 => exact { hq with select := Draft.forall_of_items hselect hread }
  case h_3 => exact { hq with groupBy := Draft.forall_of_items hexpr hread }
  case h_4 => exact { hq with having := Draft.forall_of_orNull hexpr hread }
  case h_5 => exact { hq with orderBy := Draft.forall_of_items horder hread }
  case h_6 | h_7 => exact ⟨hq.filter, hq.select, hq.groupBy, hq.having, hq.orderBy⟩

theorem settled_empty : Settled {} := by
  constructor <;> intro _ h <;> cases h

/-- A query that was read is settled. -/
theorem settled_of_ofDraft {d : Draft} {q : Query} (h : ofDraft d = .ok q) : q.Settled := by
  refine Draft.record_invariant ?_ settled_empty h
  intro q name read d q' hclause hq hread
  exact settled_readClause hclause hq hread

/-- A settled query is the same when it is written and read again. -/
theorem reread_of_settled {q : Query} (h : q.Settled) : q.reread = q := by
  have hclause : ∀ o : Option Expr, (∀ e ∈ o, e.Settled) → o.map Expr.reread = o := by
    intro o ho
    exact (Option.map_congr fun e he => Expr.reread_eq_self_iff.2 (ho e he)).trans Option.map_id'
  have hselect : q.select.map SelectItem.reread = q.select := by
    refine (List.map_congr_left fun i hi => ?_).trans (List.map_id _)
    rw [SelectItem.reread, Expr.reread_eq_self_iff.2 (h.select i hi)]
    rfl
  have hgroupBy : q.groupBy.map Expr.reread = q.groupBy :=
    (List.map_congr_left fun e he => Expr.reread_eq_self_iff.2 (h.groupBy e he)).trans
      (List.map_id _)
  have horderBy : q.orderBy.map OrderItem.reread = q.orderBy := by
    refine (List.map_congr_left fun i hi => ?_).trans (List.map_id _)
    rw [OrderItem.reread, Expr.reread_eq_self_iff.2 (h.orderBy i hi)]
    rfl
  rw [reread, hclause _ h.filter, hselect, hgroupBy, hclause _ h.having, horderBy]

theorem ofDraft_draft_of_settled {q : Query} (h : q.Settled) : ofDraft q.toJson.draft = .ok q := by
  rw [ofDraft_draft_toJson, reread_of_settled h]

end Query

/-! ## §5 Reading again -/

theorem toOption_eq_some_iff {ε α : Type} {r : Except ε α} {a : α} :
    r.toOption = some a ↔ r = .ok a := by
  cases r <;> simp [Except.toOption]

theorem Expr.ofJson?_eq_some_iff {j : Json} {e : Expr} :
    Expr.ofJson? j = some e ↔ Expr.ofDraft j.draft = .ok e :=
  toOption_eq_some_iff

theorem Query.ofJson?_eq_some_iff {j : Json} {q : Query} :
    Query.ofJson? j = some q ↔ Query.ofDraft j.draft = .ok q :=
  toOption_eq_some_iff

/-- What was read is the same when it is written and read again, an expression as well as a query,
    and whether it came from a value or is read front to back.  What can be read is what has constants
    of the narrowest kinds only: an integer is an int if 32 bits hold it, else a long if 64 bits hold
    it, and any other number is a double. -/
theorem Query.reading_is_stable :
    (∀ j e, Expr.ofJson? j = some e → Expr.ofJson? e.toJson = some e) ∧
    (∀ j q, Query.ofJson? j = some q → Query.ofJson? q.toJson = some q) ∧
    (∀ d e, Expr.ofDraft d = .ok e → Expr.ofDraft e.toJson.draft = .ok e) ∧
    (∀ d q, Query.ofDraft d = .ok q → Query.ofDraft q.toJson.draft = .ok q) ∧
    (∀ e, (∃ j, Expr.ofJson? j = some e) ↔ e.Settled) ∧
    (∀ q, (∃ j, Query.ofJson? j = some q) ↔ q.Settled) ∧
    (∀ n : Int32, (Value.int n).toJson = .int n.toInt ∧
      Value.ofJson? (.int n.toInt) = some (.int n)) ∧
    (∀ n : Int64, n.toInt < Int32.minValue.toInt ∨ Int32.maxValue.toInt < n.toInt →
      (Value.long n).toJson = .int n.toInt ∧ Value.ofJson? (.int n.toInt) = some (.long n)) ∧
    (∀ n : Int, n < Int64.minValue.toInt ∨ Int64.maxValue.toInt < n →
      ∃ x, Value.ofJson? (.int n) = some (.double x)) ∧
    (∀ x, (Value.double x).toJson = .scalar (.double x) ∧
      Value.ofJson? (.scalar (.double x)) = some (.double x)) := by
  have hexpr : ∀ d e, Expr.ofDraft d = .ok e → Expr.ofDraft e.toJson.draft = .ok e :=
    fun d e h => Expr.ofDraft_draft_of_settled (Expr.settled_of_ofDraft h)
  have hquery : ∀ d q, Query.ofDraft d = .ok q → Query.ofDraft q.toJson.draft = .ok q :=
    fun d q h => ofDraft_draft_of_settled (settled_of_ofDraft h)
  refine ⟨?_, ?_, hexpr, hquery, ?_, ?_, ?_, ?_, ?_, ?_⟩
  · intro j e h
    exact Expr.ofJson?_eq_some_iff.2 (hexpr _ e (Expr.ofJson?_eq_some_iff.1 h))
  · intro j q h
    exact ofJson?_eq_some_iff.2 (hquery _ q (ofJson?_eq_some_iff.1 h))
  · refine fun e => ⟨?_, fun h => ⟨e.toJson, ?_⟩⟩
    · rintro ⟨j, h⟩
      exact Expr.settled_of_ofDraft (Expr.ofJson?_eq_some_iff.1 h)
    · exact Expr.ofJson?_eq_some_iff.2 (Expr.ofDraft_draft_of_settled h)
  · refine fun q => ⟨?_, fun h => ⟨q.toJson, ?_⟩⟩
    · rintro ⟨j, h⟩
      exact settled_of_ofDraft (ofJson?_eq_some_iff.1 h)
    · exact ofJson?_eq_some_iff.2 (ofDraft_draft_of_settled h)
  · exact fun n => ⟨rfl, congrArg some (Value.ofInt_toInt n)⟩
  · exact fun n h => ⟨rfl, congrArg some (Value.ofInt_toInt_of_wide (by omega))⟩
  · exact fun n h => ⟨_, congrArg some (Value.ofInt_of_huge (by omega))⟩
  · exact fun x => ⟨rfl, rfl⟩

/-- A query written with lists for its records: what is left out at the end has its default, and a
    name may be an object with nothing in it. -/
def positionalSample : Json :=
  .list
    [.list [.text "compare", .object [("lt", .null)],
        .list [.int 8, .text "shop", .text "price", .text "double"],
        .object [("type", .object [("long", .object [])]), ("value", .int 5000000000),
          ("kind", .text "constant")]],
      .list [], .list [], .null,
      .list [.list [.list [.text "column", .null, .text "price", .text "double"],
        .object [("desc", .null)]]],
      .int 10]

/-- The query that `positionalSample` describes. -/
def positionalQuery : Query where
  filter := some (.compare .lt (.column ⟨some "shop", "price", .double⟩)
    (.constant (.long 5000000000) .long))
  orderBy := [⟨.column ⟨none, "price", .double⟩, .desc⟩]
  limit := some 10

theorem Query.reading_is_stable_positional :
    Query.ofJson? (.list []) = some {} ∧ Query.ofJson? positionalSample = some positionalQuery ∧
      Query.ofJson? positionalQuery.toJson = some positionalQuery := by
  have hread : Query.ofJson? positionalSample = some positionalQuery := rfl
  exact ⟨rfl, hread, Query.reading_is_stable.2.1 positionalSample positionalQuery hread⟩

end QueryPipeline
