import QueryPipeline.DocumentText

/-!
# Field lists

The bodies of stages list named values in the order in which the names first came up.  Setting a name
again changes its value where it stands.
-/

namespace QueryPipeline

/-- Named texts in order of first insertion, each name once. -/
structure FieldList where
  fields : List (String × String) := []
  nodup : (fields.map Prod.fst).Nodup := by decide
deriving Repr, DecidableEq

namespace FieldList

/-! ## §1 Setting a value -/

/-- A value set in a list of fields: in place if the name is there, else at the end. -/
def insertField (name value : String) : List (String × String) → List (String × String)
  | [] => [(name, value)]
  | (other, old) :: rest =>
    if other = name then (name, value) :: rest
    else (other, old) :: insertField name value rest

/-- Looking up in fields that a value was set in. -/
theorem lookup_insertField (name value other : String) (l : List (String × String)) :
    (insertField name value l).lookup other = if other = name then some value else l.lookup other := by
  induction l with
  | nil => grind [insertField]
  | cons head rest ih => grind [insertField]

/-- Setting a name moves none: a name that is there keeps its place, a new one goes to the end. -/
theorem map_fst_insertField (name value : String) (l : List (String × String)) :
    (insertField name value l).map Prod.fst =
      if name ∈ l.map Prod.fst then l.map Prod.fst else l.map Prod.fst ++ [name] := by
  induction l with
  | nil => simp [insertField]
  | cons head rest ih =>
    obtain ⟨first, old⟩ := head
    unfold insertField
    split
    · rename_i heq
      simp [heq]
    · rename_i hne
      have hne' : ¬ name = first := fun h => hne h.symm
      simp only [List.map_cons, ih, List.mem_cons, hne', false_or]
      split <;> simp

theorem nodup_insertField (name value : String) {l : List (String × String)}
    (h : (l.map Prod.fst).Nodup) : ((insertField name value l).map Prod.fst).Nodup := by
  rw [map_fst_insertField]
  split
  · exact h
  · rename_i hnew
    refine List.nodup_append.2 ⟨h, List.nodup_cons.2 ⟨List.not_mem_nil, .nil⟩, ?_⟩
    intro a ha b hb
    rw [List.mem_singleton.1 hb]
    rintro rfl
    exact hnew ha

/-! ## §2 Field lists -/

/-- The list with a value set. -/
def insert (l : FieldList) (name value : String) : FieldList where
  fields := insertField name value l.fields
  nodup := nodup_insertField name value l.nodup

/-- Values set one after the other. -/
def insertAll (l : FieldList) (entries : List (String × String)) : FieldList :=
  entries.foldl (fun l e => l.insert e.1 e.2) l

/-- The list of the given values, set one after the other. -/
def ofList (entries : List (String × String)) : FieldList :=
  ({} : FieldList).insertAll entries

def names (l : FieldList) : List String :=
  l.fields.map Prod.fst

/-- The value of a name. -/
def get? (l : FieldList) (name : String) : Option String :=
  l.fields.lookup name

def render (l : FieldList) : String :=
  document l.fields

end FieldList

end QueryPipeline
