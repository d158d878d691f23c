/-!
# Tables ordered by name

A `NameTable` keeps its entries in ascending order of their names, each name once.  Names are ordered
by code points, so `var10` stands before `var2`.
-/

namespace QueryPipeline

/-- Entries in ascending order of names. -/
structure NameTable (α : Type) where
  entries : List (String × α)
  ascending : entries.Pairwise fun a b => a.1 < b.1

namespace NameTable

variable {α β : Type}

def empty : NameTable α :=
  ⟨[], .nil⟩

instance : Inhabited (NameTable α) := ⟨empty⟩

@[ext] theorem ext {s t : NameTable α} (h : s.entries = t.entries) : s = t := by
  cases s; cases t; cases h; rfl

/-! ## §1 Looking up -/

def get? (t : NameTable α) (name : String) : Option α :=
  t.entries.lookup name

def contains (t : NameTable α) (name : String) : Bool :=
  (t.get? name).isSome

/-- The names of a table, in order. -/
def names (t : NameTable α) : List String :=
  t.entries.map Prod.fst

def size (t : NameTable α) : Nat :=
  t.entries.length

def isEmpty (t : NameTable α) : Bool :=
  t.entries.isEmpty

/-- Looking up finds nothing exactly for names without an entry. -/
theorem lookup_eq_none_iff_not_mem {l : List (String × α)} {name : String} :
    l.lookup name = none ↔ name ∉ l.map Prod.fst := by
  rw [List.lookup_eq_none_iff]
  constructor
  · intro h hmem
    obtain ⟨entry, hentry, heq⟩ := List.mem_map.1 hmem
    exact bne_iff_ne.1 (h entry hentry) heq.symm
  · intro h entry hentry
    rw [bne_iff_ne]
    intro heq
    exact h (List.mem_map.2 ⟨entry, hentry, heq.symm⟩)

/-- In a list without repeated names, looking up finds every entry. -/
theorem lookup_eq_some_iff_mem {l : List (String × α)} (h : (l.map Prod.fst).Nodup)
    {name : String} {a : α} : l.lookup name = some a ↔ (name, a) ∈ l := by
  induction l with
  | nil => simp
  | cons first rest ih =>
    obtain ⟨other, b⟩ := first
    have hrest := List.nodup_cons.1 h
    by_cases hname : name = other
    · subst hname
      -- behind its own entry a name has no other one
      have hno : (name, a) ∉ rest := fun hin => hrest.1 (List.mem_map.2 ⟨(name, a), hin, rfl⟩)
      simp [hno, eq_comm]
    · have hne : (name == other) = false := beq_eq_false_iff_ne.2 hname
      simp [List.lookup_cons, hne, hname, ih hrest.2]

/-- No name of a table is repeated. -/
theorem nodup_names (t : NameTable α) : t.names.Nodup := by
  refine List.Pairwise.map Prod.fst (fun a b hab heq => ?_) t.ascending
  exact String.lt_irrefl b.1 (heq ▸ hab)

/-- The entries of a table are what looking up finds. -/
theorem mem_entries_iff (t : NameTable α) {name : String} {a : α} :
    (name, a) ∈ t.entries ↔ t.get? name = some a :=
  (lookup_eq_some_iff_mem t.nodup_names).symm

theorem mem_names_iff (t : NameTable α) {name : String} :
    name ∈ t.names ↔ t.contains name = true := by
  rw [contains, Option.isSome_iff_exists, names, List.mem_map]
  constructor
  · rintro ⟨⟨_, a⟩, hentry, rfl⟩
    exact ⟨a, t.mem_entries_iff.1 hentry⟩
  · rintro ⟨a, ha⟩
    exact ⟨(name, a), t.mem_entries_iff.2 ha, rfl⟩

theorem exists_get?_of_mem_names (t : NameTable α) {name : String} (h : name ∈ t.names) :
    ∃ a, t.get? name = some a :=
  Option.isSome_iff_exists.1 (t.mem_names_iff.1 h)

theorem get?_eq_none_iff (t : NameTable α) {name : String} : t.get? name = none ↔ name ∉ t.names :=
  lookup_eq_none_iff_not_mem

theorem mem_names_of_get? (t : NameTable α) {name : String} {a : α} (h : t.get? name = some a) :
    name ∈ t.names := by
  rw [mem_names_iff, contains, h]
  rfl

/-- Tables in which every name is looked up alike are the same. -/
theorem ext_get? {s t : NameTable α} (h : ∀ name, s.get? name = t.get? name) : s = t := by
  have hnodup (t : NameTable α) : t.entries.Nodup :=
    List.Pairwise.of_map Prod.fst (fun a b hne heq => hne (congrArg Prod.fst heq)) t.nodup_names
  have hperm : s.entries.Perm t.entries := by
    rw [List.perm_ext_iff_of_nodup (hnodup s) (hnodup t)]
    rintro ⟨name, a⟩
    rw [mem_entries_iff, mem_entries_iff, h]
  -- there is only one order that ascends
  exact NameTable.ext (hperm.eq_of_pairwise
    (fun a b _ _ hab hba => absurd hba (String.lt_asymm hab)) s.ascending t.ascending)

/-- Searching the entries finds the first name, in order, that passes. -/
theorem find?_entries_eq_some_iff (t : NameTable α) {passes : String → Bool} {name : String}
    {a : α} : t.entries.find? (fun e => passes e.1) = some (name, a) ↔
      t.get? name = some a ∧ passes name = true ∧
        ∀ other ∈ t.names, other < name → passes other = false := by
  rw [List.find?_eq_some_iff_append, ← mem_entries_iff]
  constructor
  · rintro ⟨hpasses, front, back, hentries, hfront⟩
    refine ⟨by simp [hentries], hpasses, fun other hother hlt => ?_⟩
    obtain ⟨e, he, rfl⟩ := List.mem_map.1 hother
    have hsorted := t.ascending
    rw [hentries] at he hsorted
    rcases List.mem_append.1 he with he | he
    · simpa using hfront e he
    · -- from the found name on, no smaller one comes
      have hback := (List.pairwise_cons.1 (List.pairwise_append.1 hsorted).2.1).1
      rcases List.mem_cons.1 he with rfl | he
      · exact absurd hlt (String.lt_irrefl _)
      · exact absurd (hback e he) (String.lt_asymm hlt)
  · rintro ⟨hentry, hpasses, hfirst⟩
    obtain ⟨front, back, hentries⟩ := List.append_of_mem hentry
    refine ⟨hpasses, front, back, hentries, fun e he => ?_⟩
    have hsorted := t.ascending
    rw [hentries] at hsorted
    have hlt := (List.pairwise_append.1 hsorted).2.2 e he (name, a) List.mem_cons_self
    have hmem : e.1 ∈ t.names := List.mem_map.2 ⟨e, by simp [hentries, he], rfl⟩
    simp [hfirst e.1 hmem hlt]

/-! ## §2 Inserting -/

/-- An entry put at its place in an ordered list, in place of an older one of the same name. -/
def insertEntry (name : String) (a : α) : List (String × α) → List (String × α)
  | [] => [(name, a)]
  | (other, b) :: rest =>
    if name < other then (name, a) :: (other, b) :: rest
    else if name = other then (name, a) :: rest
    else (other, b) :: insertEntry name a rest

/-- Inserting adds no name but the inserted one. -/
theorem mem_insertEntry {name : String} {a : α} {l : List (String × α)} {e : String × α}
    (h : e ∈ insertEntry name a l) : e = (name, a) ∨ e ∈ l := by
  induction l with
  | nil => simpa [insertEntry] using h
  | cons head rest ih =>
    unfold insertEntry at h
    split at h
    · simpa using h
    · split at h
      · rcases List.mem_cons.1 h with h | h
        · exact .inl h
        · exact .inr (List.mem_cons_of_mem _ h)
      · rcases List.mem_cons.1 h with h | h
        · exact .inr (h ▸ List.mem_cons_self)
        · exact (ih h).imp id (List.mem_cons_of_mem _)

/-- Inserting keeps the order. -/
theorem pairwise_insertEntry {name : String} {a : α} {l : List (String × α)}
    (h : l.Pairwise fun a b => a.1 < b.1) :
    (insertEntry name a l).Pairwise fun a b => a.1 < b.1 := by
  induction l with
  | nil => simp [insertEntry]
  | cons head rest ih =>
    obtain ⟨other, b⟩ := head
    have hrest := List.pairwise_cons.1 h
    unfold insertEntry
    split
    · rename_i hlt
      refine List.pairwise_cons.2 ⟨fun e he => ?_, h⟩
      rcases List.mem_cons.1 he with he | he
      · exact he ▸ hlt
      · exact String.lt_trans hlt (hrest.1 e he)
    · rename_i hnlt
      split
      · rename_i heq
        subst heq
        exact List.pairwise_cons.2 ⟨hrest.1, hrest.2⟩
      · rename_i hne
        refine List.pairwise_cons.2 ⟨fun e he => ?_, ih hrest.2⟩
        rcases mem_insertEntry he with he | he
        · subst he
          have hle : other ≤ name := String.not_lt.1 hnlt
          exact Decidable.byContradiction fun hn =>
            hne (String.le_antisymm (String.not_lt.1 hn) hle)
        · exact hrest.1 e he

/-- The table with an entry added, or replaced if the name has one. -/
def insert (t : NameTable α) (name : String) (a : α) : NameTable α :=
  ⟨insertEntry name a t.entries, pairwise_insertEntry t.ascending⟩

/-- Looking up in a list that an entry was put into. -/
theorem lookup_insertEntry (name other : String) (a : α) (l : List (String × α)) :
    (insertEntry name a l).lookup other = if other = name then some a else l.lookup other := by
  induction l with
  | nil => grind [insertEntry]
  | cons head rest ih => grind [insertEntry]

@[simp] theorem get?_empty (name : String) : (empty : NameTable α).get? name = none :=
  rfl

/-- Inserting sets one name and no other. -/
theorem get?_insert (t : NameTable α) (name other : String) (a : α) :
    (t.insert name a).get? other = if other = name then some a else t.get? other :=
  lookup_insertEntry name other a t.entries

/-- The table of a list of entries; of several entries of one name the last one stays. -/
def ofList (l : List (String × α)) : NameTable α :=
  l.foldl (fun t e => t.insert e.1 e.2) empty

/-! ## §3 Selecting -/

/-- The entries that `f` keeps, with their new contents. -/
def filterMap (f : α → Option β) (t : NameTable α) : NameTable β where
  entries := t.entries.filterMap fun e => (f e.2).map (e.1, ·)
  ascending := by
    refine List.Pairwise.filterMap _ (fun a b hab c hc d hd => ?_) t.ascending
    simp only [Option.map_eq_some_iff] at hc hd
    obtain ⟨_, _, rfl⟩ := hc
    obtain ⟨_, _, rfl⟩ := hd
    exact hab

/-- A name stays if its entry is kept. -/
theorem get?_filterMap (f : α → Option β) (t : NameTable α) (name : String) :
    (t.filterMap f).get? name = (t.get? name).bind f := by
  apply Option.ext
  intro b
  rw [← mem_entries_iff]
  simp only [filterMap, List.mem_filterMap, Option.map_eq_some_iff, Option.bind_eq_some_iff,
    ← mem_entries_iff]
  constructor
  · rintro ⟨⟨other, a⟩, hin, b', hf, heq⟩
    cases heq
    exact ⟨a, hin, hf⟩
  · rintro ⟨a, hin, hf⟩
    exact ⟨(name, a), hin, b, hf, rfl⟩

end NameTable

end QueryPipeline
