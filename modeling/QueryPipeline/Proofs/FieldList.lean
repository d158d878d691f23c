import QueryPipeline.FieldList
import QueryPipeline.NameTable

/-!
# What field lists hold

A field list holds each name once, where it first came up.  The last value set under a name is the
one that it holds, so a field of the list is an entry that no later entry has overwritten.

## Main statements

- `FieldList.names_ofList`: names are held in the order in which they first come up.
- `FieldList.get?_eq_some_iff`: looking up a name finds its field.
- `FieldList.get?_ofList`: the last value set under a name is held.
- `FieldList.mem_fields_ofList_cons`: which entries are held.
- `FieldList.fields_ofList_map`: what is held of changed values.
-/

namespace QueryPipeline

namespace FieldList

/-! ## §1 Names -/

theorem names_insert (l : FieldList) (name value : String) :
    (l.insert name value).names = if name ∈ l.names then l.names else l.names ++ [name] :=
  map_fst_insertField name value l.fields

/-- Of the names that are set, those that are new go to the end, each once. -/
theorem names_insertAll (l : FieldList) (entries : List (String × String)) :
    (l.insertAll entries).names =
      l.names ++ ((entries.map Prod.fst).filter fun name => name ∉ l.names).eraseDups := by
  induction entries generalizing l with
  | nil => simp [insertAll]
  | cons first rest ih =>
    obtain ⟨name, value⟩ := first
    have hstep : l.insertAll ((name, value) :: rest) = (l.insert name value).insertAll rest := rfl
    rw [hstep, ih, names_insert, List.map_cons, List.filter_cons]
    by_cases hname : name ∈ l.names
    · -- a name that is there keeps its place
      simp [hname]
    · -- a new name goes to the end, where its later entries find it
      have hrest : (rest.map Prod.fst).filter (fun other => other ∉ l.names ++ [name]) =
          ((rest.map Prod.fst).filter fun other => other ∉ l.names).filter fun b => !b == name := by
        rw [List.filter_filter]
        apply List.filter_congr
        intro other _
        by_cases hother : other = name <;> simp [hother]
      simp only [hname, if_false, not_false_eq_true, decide_true, if_true, hrest,
        List.eraseDups_cons, List.append_assoc, List.cons_append, List.nil_append]

/-- **Names are held in the order in which they first come up.** -/
theorem names_ofList (entries : List (String × String)) :
    (ofList entries).names = (entries.map Prod.fst).eraseDups := by
  have hall : (entries.map Prod.fst).filter (fun name => name ∉ ({} : FieldList).names) =
      entries.map Prod.fst := by
    rw [List.filter_eq_self]
    simp [names]
  rw [ofList, names_insertAll, hall]
  rfl

/-! ## §2 Values -/

/-- Since each name is held once, looking it up finds the only field that has it. -/
theorem get?_eq_some_iff {l : FieldList} {name value : String} :
    l.get? name = some value ↔ (name, value) ∈ l.fields :=
  NameTable.lookup_eq_some_iff_mem l.nodup

theorem get?_insertAll (l : FieldList) (entries : List (String × String)) (name : String) :
    (l.insertAll entries).get? name = (entries.reverse.lookup name).or (l.get? name) := by
  induction entries generalizing l with
  | nil => rfl
  | cons first rest ih =>
    obtain ⟨other, value⟩ := first
    have hstep : l.insertAll ((other, value) :: rest) = (l.insert other value).insertAll rest := rfl
    have hinsert : (l.insert other value).get? name =
        if name = other then some value else l.get? name :=
      lookup_insertField other value name l.fields
    rw [hstep, ih, hinsert, List.reverse_cons, List.lookup_append, Option.or_assoc]
    -- an earlier value counts only if no later one is set under its name
    by_cases hname : name = other
    · simp [hname]
    · have hne : (name == other) = false := beq_eq_false_iff_ne.2 hname
      simp [List.lookup_cons, hne, hname]

/-- **The last value set under a name** is the one that is held. -/
theorem get?_ofList (entries : List (String × String)) (name : String) :
    (ofList entries).get? name = entries.reverse.lookup name := by
  rw [ofList, get?_insertAll]
  exact Option.or_none

/-- An entry without a later one of its name is held. -/
theorem get?_ofList_of_last {before after : List (String × String)} {name value : String}
    (h : name ∉ after.map Prod.fst) :
    (ofList (before ++ (name, value) :: after)).get? name = some value := by
  have hafter : after.reverse.lookup name = none := by
    rw [NameTable.lookup_eq_none_iff_not_mem]
    simpa using h
  rw [get?_ofList]
  simp [List.lookup_append, hafter]

theorem mem_fields_ofList {entries : List (String × String)} {name value : String} :
    (name, value) ∈ (ofList entries).fields ↔ entries.reverse.lookup name = some value := by
  rw [← get?_ofList, get?_eq_some_iff]

/-- Only entries are held. -/
theorem mem_of_mem_fields_ofList {entries : List (String × String)} {field : String × String}
    (h : field ∈ (ofList entries).fields) : field ∈ entries := by
  obtain ⟨name, value⟩ := field
  obtain ⟨before, after, hsplit, _⟩ := List.lookup_eq_some_iff.1 (mem_fields_ofList.1 h)
  rw [← List.mem_reverse, hsplit]
  exact List.mem_append_right _ List.mem_cons_self

/-- **An entry is held** unless a later one has its name. -/
theorem mem_fields_ofList_cons {first field : String × String} {rest : List (String × String)} :
    field ∈ (ofList (first :: rest)).fields ↔
      field ∈ (ofList rest).fields ∨ field = first ∧ first.1 ∉ rest.map Prod.fst := by
  obtain ⟨name, value⟩ := field
  obtain ⟨other, old⟩ := first
  rw [mem_fields_ofList, mem_fields_ofList, List.reverse_cons, List.lookup_append]
  have hnone : other ∉ rest.map Prod.fst ↔ rest.reverse.lookup other = none := by
    rw [NameTable.lookup_eq_none_iff_not_mem, List.map_reverse, List.mem_reverse]
  rw [hnone]
  by_cases hname : name = other
  · subst hname
    cases rest.reverse.lookup name <;> simp [eq_comm]
  · have hne : (name == other) = false := beq_eq_false_iff_ne.2 hname
    simp [List.lookup_cons, hne, hname]

/-! ## §3 Changed values -/

theorem insertField_map (f : String → String) (name value : String) (l : List (String × String)) :
    insertField name (f value) (l.map (Prod.map id f)) =
      (insertField name value l).map (Prod.map id f) := by
  induction l with
  | nil => rfl
  | cons head rest ih =>
    obtain ⟨other, old⟩ := head
    rw [List.map_cons, Prod.map_apply, id, insertField, insertField]
    split
    · rfl
    · rw [ih]
      rfl

/-- Changing the values of all entries changes those that are held. -/
theorem fields_ofList_map (f : String → String) (entries : List (String × String)) :
    (ofList (entries.map (Prod.map id f))).fields =
      (ofList entries).fields.map (Prod.map id f) := by
  have hinsertAll : ∀ l l' : FieldList, l'.fields = l.fields.map (Prod.map id f) →
      (l'.insertAll (entries.map (Prod.map id f))).fields =
        (l.insertAll entries).fields.map (Prod.map id f) := by
    induction entries with
    | nil => exact fun _ _ h => h
    | cons first rest ih =>
      intro l l' h
      apply ih (l.insert first.1 first.2) (l'.insert first.1 (f first.2))
      show insertField first.1 (f first.2) l'.fields = _
      rw [h]
      exact insertField_map f first.1 first.2 l.fields
  exact hinsertAll {} {} rfl

/-- If the value depends on the name alone, each name is held with its value. -/
theorem fields_ofList_of_names (f : String → String) (names : List String) :
    (ofList (names.map fun name => (name, f name))).fields =
      names.eraseDups.map fun name => (name, f name) := by
  have hvalue : ∀ field ∈ (ofList (names.map fun name => (name, f name))).fields,
      (field.1, f field.1) = field := by
    intro field hfield
    obtain ⟨name, _, rfl⟩ := List.mem_map.1 (mem_of_mem_fields_ofList hfield)
    rfl
  have hnames : (ofList (names.map fun name => (name, f name))).names = names.eraseDups := by
    rw [names_ofList, List.map_map]
    simp [Function.comp_def]
  rw [← hnames, FieldList.names, List.map_map]
  -- writing the values anew changes no field
  exact ((List.map_congr_left hvalue).trans (List.map_id _)).symm

end FieldList

end QueryPipeline
