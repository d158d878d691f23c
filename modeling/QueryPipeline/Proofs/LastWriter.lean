import QueryPipeline.Proofs.DocumentText
import QueryPipeline.Proofs.FieldList
import QueryPipeline.Proofs.Pipeline.Stages
import QueryPipeline.Proofs.Placeholder.Joining

/-!
# Fields that are set more than once

Setting fields one after the other leaves each name at the place where it first came up, with the
value that it was last given.  The keys of a sort stage and the columns of an update are set in this
way: a key that is given twice sorts at its first place, in its last direction, and a column that is
assigned twice stands at its first place, with its last value.

## Main definitions

- `FieldList.Records`: what is left of fields that were set one after the other.
- `FieldList.Ranked`: names in the order in which they first came up.

## Main statements

- `FieldList.getElem?_fields_insert`: setting a field moves and changes no other one.
- `FieldList.records_ofList`: what setting fields leaves behind.
- `FieldList.Records.fields_eq`: nothing else can be left.
- `Selection.sort_mem_stages_iff`: the sort stage of a pipeline.
- `FieldList.last_writer_wins`: both together, for field lists, sort stages and updates.
-/

namespace QueryPipeline

namespace FieldList

/-! ## §1 The order of names -/

/-- The names of a field list, in the order in which they first came up among the names that were
    set. -/
structure Ranked (l : FieldList) (past : List String) : Prop where
  mem_iff : ∀ name, name ∈ l.names ↔ name ∈ past
  inOrder : l.names.Pairwise fun a b => past.idxOf a < past.idxOf b

theorem ranked_empty : Ranked {} [] where
  mem_iff := fun _ => Iff.rfl
  inOrder := .nil

/-- **One more field** leaves the names in order. -/
theorem Ranked.insert {l : FieldList} {past : List String} (h : l.Ranked past)
    (name value : String) : (l.insert name value).Ranked (past ++ [name]) where
  mem_iff := by
    intro other
    rw [names_insert, List.mem_append, List.mem_singleton, ← h.mem_iff]
    split
    · rename_i hname
      constructor
      · exact .inl
      · rintro (hother | rfl)
        · exact hother
        · exact hname
    · rw [List.mem_append, List.mem_singleton]
  inOrder := by
    -- names that came up before keep their index
    have hindex : ∀ other ∈ l.names, (past ++ [name]).idxOf other = past.idxOf other := by
      intro other hother
      rw [List.idxOf_append, if_pos ((h.mem_iff other).1 hother)]
    have hkept : l.names.Pairwise fun a b =>
        (past ++ [name]).idxOf a < (past ++ [name]).idxOf b := by
      refine h.inOrder.imp_of_mem fun {a b} ha hb hlt => ?_
      rw [hindex a ha, hindex b hb]
      exact hlt
    rw [names_insert]
    split
    · exact hkept
    · rename_i hnew
      refine List.pairwise_append.2 ⟨hkept, List.pairwise_singleton _ _, ?_⟩
      intro a ha b hb
      rw [List.mem_singleton] at hb
      subst hb
      -- a new name comes behind all that there is
      have hpast : b ∉ past := fun hb => hnew ((h.mem_iff b).2 hb)
      rw [hindex a ha, List.idxOf_append, if_neg hpast]
      exact Nat.lt_add_left _ (List.idxOf_lt_length_of_mem ((h.mem_iff a).1 ha))

theorem Ranked.insertAll {l : FieldList} {past : List String} (h : l.Ranked past)
    (entries : List (String × String)) :
    (l.insertAll entries).Ranked (past ++ entries.map Prod.fst) := by
  induction entries generalizing l past with
  | nil =>
    rw [List.map_nil, List.append_nil]
    exact h
  | cons first rest ih =>
    have hrest := ih (h.insert first.1 first.2)
    rw [List.append_assoc] at hrest
    exact hrest

theorem ranked_ofList (entries : List (String × String)) :
    (ofList entries).Ranked (entries.map Prod.fst) :=
  ranked_empty.insertAll entries

/-! ## §2 One field among others -/

/-- **Setting a field** leaves every other one at its place and with its value. -/
theorem getElem?_fields_insert (l : FieldList) {name other : String} (hother : other ≠ name)
    (value old : String) (i : Nat) :
    (l.insert name value).fields[i]? = some (other, old) ↔ l.fields[i]? = some (other, old) := by
  show (insertField name value l.fields)[i]? = _ ↔ l.fields[i]? = _
  induction l.fields generalizing i with
  | nil => cases i <;> simp [insertField, hother.symm]
  | cons first rest ih =>
    obtain ⟨present, old'⟩ := first
    unfold insertField
    split
    · rename_i heq
      subst heq
      cases i <;> simp [hother.symm]
    · cases i with
      | zero => rfl
      | succ i => exact ih i

/-! ## §3 What is left -/

/-- **What is left of fields that were set one after the other**: every name once, in the order in
    which the names first came up, with the value that was last set. -/
structure Records (l : FieldList) (entries : List (String × String)) : Prop where
  once : l.names.Nodup
  inOrder : l.names.Pairwise fun a b =>
    (entries.map Prod.fst).idxOf a < (entries.map Prod.fst).idxOf b
  lastValue : ∀ name value, (name, value) ∈ l.fields ↔
    ∃ before after, entries = before ++ (name, value) :: after ∧ name ∉ after.map Prod.fst

/-- An entry is held exactly if it is the last one of its name. -/
theorem mem_fields_ofList_iff_last {entries : List (String × String)} {name value : String} :
    (name, value) ∈ (ofList entries).fields ↔
      ∃ before after, entries = before ++ (name, value) :: after ∧ name ∉ after.map Prod.fst := by
  constructor
  · intro h
    obtain ⟨later, earlier, hsplit, hlater⟩ := List.lookup_eq_some_iff.1 (mem_fields_ofList.1 h)
    refine ⟨earlier.reverse, later.reverse, ?_, ?_⟩
    · rw [← List.reverse_reverse entries, hsplit]
      simp
    · intro hname
      obtain ⟨entry, hentry, rfl⟩ := List.mem_map.1 hname
      simpa using hlater entry (List.mem_reverse.1 hentry)
  · rintro ⟨before, after, rfl, hlast⟩
    rw [mem_fields_ofList, ← get?_ofList]
    exact get?_ofList_of_last hlast

theorem records_ofList (entries : List (String × String)) : (ofList entries).Records entries where
  once := (ofList entries).nodup
  inOrder := (ranked_ofList entries).inOrder
  lastValue := fun _ _ => mem_fields_ofList_iff_last

/-- **What is left of fields is determined** by them. -/
theorem Records.fields_eq {l l' : FieldList} {entries : List (String × String)}
    (h : l.Records entries) (h' : l'.Records entries) : l.fields = l'.fields := by
  have hnodup : ∀ l : FieldList, l.fields.Nodup := fun l =>
    List.Pairwise.of_map Prod.fst (fun a b hne heq => hne (congrArg Prod.fst heq)) l.nodup
  have hperm : l.fields.Perm l'.fields := by
    rw [List.perm_ext_iff_of_nodup (hnodup l) (hnodup l')]
    rintro ⟨name, value⟩
    rw [h.lastValue, h'.lastValue]
  -- both are in the order in which the names first came up
  have hinOrder : ∀ l : FieldList, l.Records entries → l.fields.Pairwise fun a b =>
      (entries.map Prod.fst).idxOf a.1 < (entries.map Prod.fst).idxOf b.1 := by
    intro l h
    have hnames := h.inOrder
    rwa [names, List.pairwise_map] at hnames
  refine hperm.eq_of_pairwise ?_ (hinOrder l h) (hinOrder l' h')
  intro a b _ _ hab hba
  exact absurd hba (Nat.lt_asymm hab)

end FieldList

/-! ## §4 Sort stages and updates -/

theorem not_mem_stageOf {α : Type} {clause : Option α} {stage : α → Stage} {other : Stage}
    (h : ∀ a, other ≠ stage a) : other ∉ stageOf clause stage := by
  cases clause <;> simp [stageOf, h]

namespace Selection

/-- Between the clauses of a selection nothing is sorted. -/
theorem sort_not_mem_middle {config : Config} {s : Selection} {middle : List Stage}
    (h : s.middle config = .ok middle) (body : String) : .sort body ∉ middle := by
  have hproject : Stage.sort body ∉ s.projectStage := by
    unfold projectStage
    split <;> simp
  rw [middle_eq_ok_iff] at h
  split at h
  · rw [h]
    exact hproject
  · obtain ⟨group, _, rfl⟩ := h
    simp [hproject]

/-- **The sort stage** is there if there are keys, and lists their fields. -/
theorem sort_mem_stages_iff {config : Config} {s : Selection} {p : Pipeline}
    (h : s.assemble config = .ok p) {body : String} :
    .sort body ∈ p.stages ↔ s.orderBy ≠ [] ∧ body = spelled (sortFields s.orderBy).fields := by
  rw [assemble_eq] at h
  obtain ⟨stages, hstages, h⟩ := Run.bind_eq_ok_iff.1 h
  obtain ⟨_, _, rfl⟩ := Run.map_eq_ok_iff.1 h
  rw [stages_eq] at hstages
  obtain ⟨middle, hmiddle, rfl⟩ := Run.map_eq_ok_iff.1 hstages
  have hfilter : Stage.sort body ∉ stageOf s.filter fun c => .matching c.fragment :=
    not_mem_stageOf (by simp)
  have hhaving : Stage.sort body ∉ stageOf s.having fun c => .having c.fragment :=
    not_mem_stageOf (by simp)
  have hskip : Stage.sort body ∉ stageOf s.offset .skip := not_mem_stageOf (by simp)
  have hlimit : Stage.sort body ∉ stageOf s.limit .limit := not_mem_stageOf (by simp)
  -- no other stage sorts, so only the one of the keys is left
  simp only [arranged, ending, List.mem_append, hfilter, sort_not_mem_middle hmiddle body, hhaving,
    hskip, hlimit, false_or, or_false]
  rw [← FieldList.render_eq_spelled]
  by_cases hkeys : s.orderBy = []
  · simp [hkeys]
  · simp [hkeys]

/-- The keys of a sort stage are listed with their directions. -/
theorem records_sortFields (keys : List SortKey) :
    (sortFields keys).Records (keys.map fun k => (k.field, k.order.spelling)) := by
  have hentries : (keys.map fun k => (k.field, toString k.order.direction)) =
      keys.map fun k => (k.field, k.order.spelling) :=
    List.map_congr_left fun k _ => by rw [k.order.toString_direction_eq_spelling]
  rw [sortFields, hentries]
  exact FieldList.records_ofList _

end Selection

/-- The document of an update lists the fields of its assignments. -/
theorem Update.fragment_of_assemble {assignments : List (String × CompiledFragment)} {u : Update}
    (h : Update.assemble assignments = .ok u) :
    u.fragment = spelled
      [("$set", spelled (FieldList.ofList (assignments.map fun a => (a.1, a.2.fragment))).fields)] := by
  unfold assemble at h
  split at h
  · cases h
  · rcases habsorb : (assignments.forM fun a => Placeholders.absorb a.2.placeholders).exec .empty with
      ⟨err | ⟨⟩, table⟩
    · rw [Run.eval, Run.exec_bind_error habsorb] at h
      cases h
    · rw [Run.eval, Run.exec_bind_ok habsorb] at h
      cases h
      rfl

/-- **The last writer wins, at the place of the first one.**

    - Fields that are set one after the other leave every name once, in the order in which the names
      first came up, each with the value that was last set.
    - Setting a field leaves every other one at its place and with its value.
    - A pipeline sorts if its selection has keys, and the body of its sort stage spells what is left of
      the keys and their directions.
    - The document of an update spells what is left of its columns and their values. -/
theorem FieldList.last_writer_wins :
    (∀ entries : List (String × String), (ofList entries).Records entries) ∧
    (∀ (l : FieldList) (name value other old : String) (i : Nat), other ≠ name →
      ((l.insert name value).fields[i]? = some (other, old) ↔ l.fields[i]? = some (other, old))) ∧
    (∀ (config : Config) (s : Selection) (p : Pipeline), s.assemble config = .ok p →
      ∃ keys : FieldList, keys.Records (s.orderBy.map fun k => (k.field, k.order.spelling)) ∧
        ∀ body, .sort body ∈ p.stages ↔ s.orderBy ≠ [] ∧ body = spelled keys.fields) ∧
    (∀ (assignments : List (String × CompiledFragment)) (u : Update),
      Update.assemble assignments = .ok u →
      ∃ columns : FieldList, columns.Records (assignments.map fun a => (a.1, a.2.fragment)) ∧
        u.fragment = spelled [("$set", spelled columns.fields)]) := by
  refine ⟨records_ofList, ?_, ?_, ?_⟩
  · intro l name value other old i hother
    exact l.getElem?_fields_insert hother value old i
  · intro config s p hassemble
    exact ⟨sortFields s.orderBy, Selection.records_sortFields s.orderBy,
      fun _ => Selection.sort_mem_stages_iff hassemble⟩
  · intro assignments u hassemble
    exact ⟨_, records_ofList _, Update.fragment_of_assemble hassemble⟩

/-- A selection that is sorted by one key twice, in different directions. -/
def sortedTwice : Selection :=
  { orderBy := [⟨"price", .asc⟩, ⟨"name", .asc⟩, ⟨"price", .desc⟩] }

/-- An update that assigns one column twice. -/
def assignedTwice : List (String × CompiledFragment) :=
  [("price", ⟨"1", .empty, {}, false⟩), ("name", ⟨"'x'", .empty, {}, false⟩),
    ("price", ⟨"2", .empty, {}, false⟩)]

/-- The first key comes first and sorts in its second direction, and the first column comes first and
    has its second value. -/
theorem FieldList.last_writer_wins_twice :
    (∃ p, sortedTwice.assemble {} = .ok p ∧ .sort "\x7b'price': -1, 'name': 1\x7d" ∈ p.stages) ∧
    ∃ u, Update.assemble assignedTwice = .ok u ∧
      u.fragment = "\x7b'$set': \x7b'price': 2, 'name': 'x'\x7d\x7d" := by
  obtain ⟨hrecords, _, hsort, hset⟩ := last_writer_wins
  have hsorted : (sortedTwice.assemble {}).isOk = true := by decide +kernel
  have hassigned : (Update.assemble assignedTwice).isOk = true := by decide +kernel
  obtain ⟨p, hp⟩ := Run.exists_eq_ok hsorted
  obtain ⟨u, hu⟩ := Run.exists_eq_ok hassigned
  obtain ⟨keys, hkeys, hbody⟩ := hsort {} sortedTwice p hp
  obtain ⟨columns, hcolumns, hfragment⟩ := hset assignedTwice u hu
  refine ⟨⟨p, hp, (hbody _).2 ⟨by simp [sortedTwice], ?_⟩⟩, u, hu, hfragment.trans ?_⟩
  · rw [hkeys.fields_eq (hrecords _)]
    decide +kernel
  · rw [hcolumns.fields_eq (hrecords _)]
    decide +kernel

end QueryPipeline
