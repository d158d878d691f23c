import QueryPipeline.Proofs.Leaves

/-!
# Numbering of placeholders

Entries that are given placeholders one after the other get the names of consecutive numbers, each
kind counted for itself.  So no name is given out twice, and the table that results says of every
name which entry it was given to.

## Main definitions

- `PlaceholderTable.grow`, `PlaceholderTable.extend`: a table with a placeholder for one entry, or for
  several, one after the other.
- `Sequence.advance`, `Sequence.named`: the numbers after those entries, and their names.
- `Sequence.Issued`: the names given out to variables between two sequences.

## Main statements

- `Sequence.nodup_named`: no name is given out twice.
- `Sequence.Issued.not_later`: not later either.
- `PlaceholderTable.get?_extend_startingAt`: what a table holds that started empty.
-/

namespace QueryPipeline

/-! ## §1 Names in order -/

/-- The name of the placeholder with a given number for an entry. -/
def placeholderName : PlaceholderEntry → Nat → String
  | .variable _, n => "var" ++ toString n
  | .literal _ _, n => "lit" ++ toString n

namespace Sequence

/-- The next free number for an entry. -/
def number (s : Sequence) : PlaceholderEntry → Nat
  | .variable _ => s.nextVariable
  | .literal _ _ => s.nextLiteral

/-- The name that the next placeholder for an entry gets. -/
def nameOf (s : Sequence) (entry : PlaceholderEntry) : String :=
  placeholderName entry (s.number entry)

def next (s : Sequence) : PlaceholderEntry → Sequence
  | .variable _ => { s with nextVariable := s.nextVariable + 1 }
  | .literal _ _ => { s with nextLiteral := s.nextLiteral + 1 }

/-- The next free numbers after several entries. -/
def advance (s : Sequence) (entries : List PlaceholderEntry) : Sequence :=
  entries.foldl next s

/-- Entries with the names they get, in order. -/
def named (s : Sequence) : List PlaceholderEntry → List (String × PlaceholderEntry)
  | [] => []
  | entry :: rest => (s.nameOf entry, entry) :: (s.next entry).named rest

@[simp] theorem advance_cons (s : Sequence) (entry : PlaceholderEntry)
    (rest : List PlaceholderEntry) :
    s.advance (entry :: rest) = (s.next entry).advance rest :=
  rfl

theorem named_append (s : Sequence) (first second : List PlaceholderEntry) :
    s.named (first ++ second) = s.named first ++ (s.advance first).named second := by
  induction first generalizing s with
  | nil => rfl
  | cons entry rest ih => rw [List.cons_append, named, named, ih, List.cons_append, advance_cons]

/-- Names are given to the entries and to nothing else. -/
theorem mem_of_mem_named {s : Sequence} {entries : List PlaceholderEntry} {name : String}
    {entry : PlaceholderEntry} (h : (name, entry) ∈ s.named entries) : entry ∈ entries := by
  induction entries generalizing s with
  | nil => cases h
  | cons first rest ih =>
    rcases List.mem_cons.1 h with heq | hrest
    · cases heq
      exact List.mem_cons_self
    · exact List.mem_cons_of_mem _ (ih hrest)

/-- Every entry is given a name. -/
theorem exists_mem_named (s : Sequence) {entries : List PlaceholderEntry} {entry : PlaceholderEntry}
    (h : entry ∈ entries) : ∃ name, (name, entry) ∈ s.named entries := by
  induction entries generalizing s with
  | nil => cases h
  | cons first rest ih =>
    rcases List.mem_cons.1 h with rfl | hrest
    · exact ⟨_, List.mem_cons_self⟩
    · obtain ⟨name, hname⟩ := ih (s.next first) hrest
      exact ⟨name, List.mem_cons_of_mem _ hname⟩

/-- The variable among what has been given a name, with that name. -/
def namedVariable? : String × PlaceholderEntry → Option (String × Variable)
  | (name, entry) => entry.variable?.map fun v => (name, v)

/-- Variables are numbered one after the other, whatever constants stand between them. -/
theorem filterMap_namedVariable?_named (s : Sequence) (entries : List PlaceholderEntry) :
    (s.named entries).filterMap namedVariable? =
      (entries.filterMap PlaceholderEntry.variable?).mapIdx fun i v =>
        ("var" ++ toString (s.nextVariable + i), v) := by
  induction entries generalizing s with
  | nil => rfl
  | cons entry rest ih =>
    rw [named, List.filterMap_cons, ih, List.filterMap_cons]
    cases entry with
    | literal value type => rfl
    | «variable» v =>
      -- the numbers of the rest are one higher
      simp only [namedVariable?, PlaceholderEntry.variable?, Option.map_some, List.mapIdx_cons, next,
        Nat.add_zero, Nat.add_assoc, Nat.add_comm 1]
      rfl

/-! ## §2 No name twice -/

theorem number_le_number_next (s : Sequence) (entry other : PlaceholderEntry) :
    s.number other ≤ (s.next entry).number other := by
  cases entry <;> cases other <;> simp [number, next]

/-- An entry takes its number away from every entry of its kind. -/
theorem number_lt_number_next (s : Sequence) {entry other : PlaceholderEntry}
    (h : entry.variable?.isSome = other.variable?.isSome) :
    s.number entry < (s.next entry).number other := by
  cases entry <;> cases other <;> simp_all [number, next, PlaceholderEntry.variable?]

end Sequence

/-- A name tells the kind of its entry and its number. -/
theorem placeholderName_inj {entry other : PlaceholderEntry} {m n : Nat}
    (h : placeholderName entry m = placeholderName other n) :
    entry.variable?.isSome = other.variable?.isSome ∧ m = n := by
  have hchars := congrArg String.toList h
  -- the digits of a number determine it
  have hnumber : ∀ {m n : Nat}, Nat.toDigits 10 m = Nat.toDigits 10 n → m = n := by
    intro m n hdigits
    rw [← Nat.ofDigitChars_ten_toDigits (n := m), hdigits, Nat.ofDigitChars_ten_toDigits]
  -- names of different kinds differ in their first letter
  cases entry <;> cases other <;>
    simp [placeholderName, PlaceholderEntry.variable?] at hchars ⊢
  · exact hnumber hchars
  · exact hnumber hchars

/-- Names that start otherwise are no placeholders. -/
theorem ne_placeholderName {name : String}
    (h : name.toList.take 3 ∉ [['v', 'a', 'r'], ['l', 'i', 't']]) (entry : PlaceholderEntry)
    (n : Nat) : name ≠ placeholderName entry n := by
  rintro rfl
  apply h
  cases entry <;> simp [placeholderName]

namespace Sequence

theorem number_le_number_advance (s : Sequence) (entries : List PlaceholderEntry)
    (other : PlaceholderEntry) : s.number other ≤ (s.advance entries).number other := by
  induction entries generalizing s with
  | nil => exact Nat.le_refl _
  | cons entry rest ih => exact Nat.le_trans (s.number_le_number_next entry other) (ih (s.next entry))

/-- Names that are given out have numbers from the next free one on, and below the one that is next
    free afterwards. -/
theorem exists_number_between_of_mem_named {s : Sequence} {entries : List PlaceholderEntry}
    {name : String} {entry : PlaceholderEntry} (h : (name, entry) ∈ s.named entries) :
    ∃ n, s.number entry ≤ n ∧ n < (s.advance entries).number entry ∧
      name = placeholderName entry n := by
  induction entries generalizing s with
  | nil => cases h
  | cons first rest ih =>
    rcases List.mem_cons.1 h with heq | hrest
    · cases heq
      -- its own number is gone, and no number comes back
      have hlt := s.number_lt_number_next (rfl : entry.variable?.isSome = entry.variable?.isSome)
      exact ⟨s.number entry, Nat.le_refl _,
        Nat.lt_of_lt_of_le hlt ((s.next entry).number_le_number_advance rest entry), rfl⟩
    · obtain ⟨n, hle, hlt, hname⟩ := ih hrest
      exact ⟨n, Nat.le_trans (s.number_le_number_next first entry) hle, hlt, hname⟩

theorem exists_number_of_mem_named {s : Sequence} {entries : List PlaceholderEntry} {name : String}
    {entry : PlaceholderEntry} (h : (name, entry) ∈ s.named entries) :
    ∃ n, s.number entry ≤ n ∧ name = placeholderName entry n := by
  obtain ⟨n, hle, _, hname⟩ := exists_number_between_of_mem_named h
  exact ⟨n, hle, hname⟩

/-- The name of an entry is not given out again. -/
theorem nameOf_not_mem_named_next (s : Sequence) (entry : PlaceholderEntry)
    (rest : List PlaceholderEntry) :
    s.nameOf entry ∉ ((s.next entry).named rest).map Prod.fst := by
  intro h
  obtain ⟨⟨name, other⟩, hin, hname⟩ := List.mem_map.1 h
  obtain ⟨n, hle, hother⟩ := exists_number_of_mem_named hin
  -- equal names would be of one kind, where the numbers have moved on
  obtain ⟨hkind, hn⟩ := placeholderName_inj (hname.symm.trans hother)
  have hlt := s.number_lt_number_next hkind
  omega

/-- **No name is given out twice.** -/
theorem nodup_named (s : Sequence) (entries : List PlaceholderEntry) :
    ((s.named entries).map Prod.fst).Nodup := by
  induction entries generalizing s with
  | nil => exact List.nodup_nil
  | cons entry rest ih =>
    exact List.nodup_cons.2 ⟨s.nameOf_not_mem_named_next entry rest, ih (s.next entry)⟩

end Sequence

/-! ## §3 Sequences in order -/

namespace Sequence

/-- One sequence comes before another if it has given out no number that the other has not. -/
instance : LE Sequence :=
  ⟨fun s t => s.nextVariable ≤ t.nextVariable ∧ s.nextLiteral ≤ t.nextLiteral⟩

theorem le_refl (s : Sequence) : s ≤ s :=
  ⟨Nat.le_refl _, Nat.le_refl _⟩

theorem le_trans {s t u : Sequence} (hst : s ≤ t) (htu : t ≤ u) : s ≤ u :=
  ⟨Nat.le_trans hst.1 htu.1, Nat.le_trans hst.2 htu.2⟩

/-- Each kind of placeholder is counted for itself. -/
theorem advance_eq (s : Sequence) (entries : List PlaceholderEntry) :
    s.advance entries =
      ⟨s.nextVariable + (entries.filterMap PlaceholderEntry.variable?).length,
        s.nextLiteral + (entries.filterMap PlaceholderEntry.literal?).length⟩ := by
  induction entries generalizing s with
  | nil => rfl
  | cons entry rest ih =>
    rw [advance_cons, ih]
    cases entry <;>
      simp [next, PlaceholderEntry.variable?, PlaceholderEntry.literal?, List.filterMap_cons,
        Nat.add_assoc, Nat.add_comm 1]

theorem le_advance (s : Sequence) (entries : List PlaceholderEntry) : s ≤ s.advance entries := by
  rw [advance_eq]
  exact ⟨Nat.le_add_right _ _, Nat.le_add_right _ _⟩

/-- Names that are given out to variables between two sequences. -/
def Issued (s t : Sequence) (name : String) : Prop :=
  ∃ n, s.nextVariable ≤ n ∧ n < t.nextVariable ∧ name = "var" ++ toString n

theorem Issued.mono {s t s' t' : Sequence} {name : String} (h : Issued s t name) (hs : s' ≤ s)
    (ht : t ≤ t') : Issued s' t' name := by
  obtain ⟨n, hle, hlt, hname⟩ := h
  exact ⟨n, Nat.le_trans hs.1 hle, Nat.lt_of_lt_of_le hlt ht.1, hname⟩

/-- What has been given out is not given out again later. -/
theorem Issued.not_later {s t s' t' : Sequence} {name : String} (h : Issued s t name)
    (hts : t ≤ s') : ¬ Issued s' t' name := by
  rintro ⟨m, hle, _, hm⟩
  obtain ⟨n, _, hlt, hn⟩ := h
  -- the number can be read off the name
  have hnumber : m = n := by
    let v : PlaceholderEntry := .variable { field := "", type := .object }
    exact (@placeholderName_inj v v m n (hm.symm.trans hn)).2
  have hfree := hts.1
  omega

theorem issued_of_mem_named {s : Sequence} {entries : List PlaceholderEntry} {name : String}
    {v : Variable} (h : (name, .variable v) ∈ s.named entries) :
    Issued s (s.advance entries) name :=
  exists_number_between_of_mem_named h

end Sequence

/-! ## §4 Growing tables -/

namespace PlaceholderTable

/-- The table with one more entry, under the next free name of its kind. -/
def grow (t : PlaceholderTable) (entry : PlaceholderEntry) : PlaceholderTable where
  entries := t.entries.insert (t.sequence.nameOf entry) entry
  sequence := t.sequence.next entry

/-- The table with fresh placeholders for the given entries, in order. -/
def extend (t : PlaceholderTable) (entries : List PlaceholderEntry) : PlaceholderTable :=
  entries.foldl grow t

@[simp] theorem extend_nil (t : PlaceholderTable) : t.extend [] = t :=
  rfl

@[simp] theorem extend_cons (t : PlaceholderTable) (entry : PlaceholderEntry)
    (rest : List PlaceholderEntry) :
    t.extend (entry :: rest) = (t.grow entry).extend rest :=
  rfl

theorem extend_append (t : PlaceholderTable) (first second : List PlaceholderEntry) :
    t.extend (first ++ second) = (t.extend first).extend second :=
  List.foldl_append

@[simp] theorem sequence_extend (t : PlaceholderTable) (entries : List PlaceholderEntry) :
    (t.extend entries).sequence = t.sequence.advance entries := by
  induction entries generalizing t with
  | nil => rfl
  | cons entry rest ih => rw [extend_cons, ih, grow, Sequence.advance_cons]

/-- A grown table holds the new entries under their names, and what it held before. -/
theorem get?_extend (t : PlaceholderTable) (entries : List PlaceholderEntry) (name : String) :
    (t.extend entries).entries.get? name =
      ((t.sequence.named entries).lookup name).or (t.entries.get? name) := by
  induction entries generalizing t with
  | nil => rfl
  | cons entry rest ih =>
    rw [extend_cons, ih, grow, Sequence.named, NameTable.get?_insert, List.lookup_cons]
    by_cases hname : name = t.sequence.nameOf entry
    · subst hname
      -- the rest does not give the name out again
      have hrest :
          ((t.sequence.next entry).named rest).lookup (t.sequence.nameOf entry) = none :=
        NameTable.lookup_eq_none_iff_not_mem.2
          (t.sequence.nameOf_not_mem_named_next entry rest)
      simp [hrest]
    · have hne : (name == t.sequence.nameOf entry) = false := beq_eq_false_iff_ne.2 hname
      simp [hne, hname]

/-- A table that started empty holds exactly the entries it was given, under their names. -/
theorem get?_extend_startingAt {s : Sequence} {entries : List PlaceholderEntry} {name : String}
    {entry : PlaceholderEntry} :
    ((startingAt s).extend entries).entries.get? name = some entry ↔
      (name, entry) ∈ s.named entries := by
  have hempty : (startingAt s).entries.get? name = none := rfl
  rw [get?_extend, hempty, Option.or_none]
  exact NameTable.lookup_eq_some_iff_mem (s.nodup_named entries)

/-- What remains of such a table are the variables, under the names they were given. -/
theorem get?_remaining_extend_startingAt {s : Sequence} {entries : List PlaceholderEntry}
    {name : String} {v : Variable} :
    ((startingAt s).extend entries).remaining.get? name = some v ↔
      (name, .variable v) ∈ s.named entries := by
  rw [remaining, NameTable.get?_filterMap, ← get?_extend_startingAt, Option.bind_eq_some_iff]
  constructor
  · rintro ⟨entry, hentry, hv⟩
    cases entry <;> cases hv
    exact hentry
  · intro hentry
    exact ⟨_, hentry, rfl⟩

end PlaceholderTable

end QueryPipeline
