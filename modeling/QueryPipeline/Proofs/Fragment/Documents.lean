import QueryPipeline.Proofs.Fragment.ValueText

/-!
# Scanning documents of several entries

The bodies of stages are documents of several entries.  What such a document shows is what its
values show, one after the other, as long as no name has a quote in it and every value closes the
quotes it opens.

## Main definitions

- `documentTail`: what follows a value of a document.

## Main statements

- `balanced_document`, `visibleNames_document`, `replaceNames_document`: scanning a document is
  scanning its values.
- `ShowsNoPlaceholder.document`: a document of harmless values is harmless.
-/

namespace QueryPipeline

open Segment

/-! ## §1 Entries in a row -/

/-- What follows a value of a document: the other entries and the brace that closes it. -/
def documentTail : List (String × String) → String
  | [] => "\x7d"
  | (name, value) :: rest => ", '" ++ name ++ "': " ++ (value ++ documentTail rest)

theorem intercalate_entries (name value : String) (rest : List (String × String)) :
    ", ".intercalate (((name, value) :: rest).map fun e => documentEntry e.1 e.2) ++ "\x7d" =
      documentEntry name (value ++ documentTail rest) := by
  induction rest generalizing name value with
  | nil => simp [documentTail, documentEntry, String.append_assoc]
  | cons next rest ih =>
    obtain ⟨name', value'⟩ := next
    have hrest := ih name' value'
    rw [List.map_cons] at hrest ⊢
    rw [List.map_cons, String.intercalate_cons_cons, String.append_assoc, hrest, documentTail]
    apply String.toList_injective
    simp [documentEntry]

theorem document_cons (name value : String) (rest : List (String × String)) :
    document ((name, value) :: rest) =
      "\x7b'" ++ name ++ "': " ++ (value ++ documentTail rest) := by
  rw [document, braced, String.append_assoc, intercalate_entries]
  apply String.toList_injective
  simp [documentEntry]

/-! ## §2 One entry -/

/-- What opens an entry of a document. -/
def entryOpenings : List String :=
  ["\x7b'", ", '"]

section

variable {opening name value rest : String} (hopening : opening ∈ entryOpenings)
  (hname : QuoteFree name)

include hopening hname

theorem scan_opening :
    scan false (opening ++ name ++ "': ").toList = (opening ++ name ++ "': ").toList.map plain := by
  have hopens : ∀ o ∈ entryOpenings, ∀ cs,
      scan false (o.toList ++ cs) = o.toList.map plain ++ scan true cs := by
    intro o ho cs
    rcases List.mem_cons.1 ho with rfl | ho
    · rfl
    · rw [List.mem_singleton.1 ho]
      rfl
  have hcloses : scan true "': ".toList = "': ".toList.map plain := by decide
  rw [String.toList_append, String.toList_append, List.append_assoc, hopens opening hopening,
    scan_quoted hname, hcloses, List.map_append, List.map_append]

theorem quotedAfter_opening : quotedAfter false (opening ++ name ++ "': ").toList = false := by
  have hopens : ∀ o ∈ entryOpenings, quotedAfter false o.toList = true := by decide
  rw [String.toList_append, String.toList_append, quotedAfter_append, quotedAfter_append,
    hopens opening hopening, quotedAfter_of_not_mem hname]
  decide

/-- An entry and what follows it, scanned one after the other. -/
theorem ofText_opening (hvalue : Balanced value)
    (hrest : ∀ c ∈ rest.toList.head?, isWordChar c = false) :
    ofText (opening ++ name ++ "': " ++ (value ++ rest)) =
      (opening ++ name ++ "': ").toList.map plain ++ (ofText value ++ ofText rest) := by
  have hlast : (opening ++ name ++ "': ").toList.getLast? = some ' ' := by
    rw [String.toList_append, List.getLast?_append]
    rfl
  have hseam : ∀ c ∈ (opening ++ name ++ "': ").toList.getLast?, isWordChar c = false := by
    rw [hlast]
    intro c hc
    cases hc
    decide
  have hsecond : scan false (value ++ rest).toList = ofText value ++ ofText rest := by
    rw [String.toList_append, scan_append (.inr hrest), hvalue]
    rfl
  rw [ofText, String.toList_append, scan_append (.inl hseam), scan_opening hopening hname,
    quotedAfter_opening hopening hname, hsecond]

theorem balanced_opening (hvalue : Balanced value) (hrest : Balanced rest) :
    Balanced (opening ++ name ++ "': " ++ (value ++ rest)) := by
  unfold Balanced at *
  rw [String.toList_append, quotedAfter_append, quotedAfter_opening hopening hname,
    String.toList_append, quotedAfter_append, hvalue, hrest]

variable (hvalue : Balanced value) (hrest : ∀ c ∈ rest.toList.head?, isWordChar c = false)

include hvalue hrest

theorem visibleNames_opening :
    visibleNames (opening ++ name ++ "': " ++ (value ++ rest)) =
      visibleNames value ++ visibleNames rest := by
  rw [visibleNames, ofText_opening hopening hname hvalue hrest, List.filterMap_append,
    filterMap_name?_plain, List.filterMap_append]
  rfl

theorem replaceNames_opening (replace : String → Option String) :
    replaceNames replace (opening ++ name ++ "': " ++ (value ++ rest)) =
      opening ++ name ++ "': " ++ (replaceNames replace value ++ replaceNames replace rest) := by
  rw [replaceNames, ofText_opening hopening hname hvalue hrest, List.map_append, List.map_append,
    String.join_append, String.join_append, join_rewrite_plain, String.ofList_toList]
  rfl

end

theorem head?_documentTail (entries : List (String × String)) :
    ∀ c ∈ (documentTail entries).toList.head?, isWordChar c = false := by
  cases entries with
  | nil =>
    intro c hc
    cases hc
    decide
  | cons first rest =>
    intro c hc
    have hhead : (documentTail (first :: rest)).toList.head? = some ',' := by
      simp [documentTail]
    rw [hhead] at hc
    cases hc
    decide

/-! ## §3 Whole documents -/

/-- Entries that can be scanned on their own: no quote in the name, and none left open by the
    value. -/
def Scannable (entries : List (String × String)) : Prop :=
  ∀ e ∈ entries, QuoteFree e.1 ∧ Balanced e.2

section

variable {entries : List (String × String)} (h : Scannable entries)

include h

theorem balanced_documentTail : Balanced (documentTail entries) := by
  induction entries with
  | nil => exact QuoteFree.balanced (by decide)
  | cons first rest ih =>
    obtain ⟨⟨hname, hvalue⟩, hrest⟩ := List.forall_mem_cons.1 h
    exact balanced_opening (by decide) hname hvalue (ih hrest)

theorem visibleNames_documentTail :
    visibleNames (documentTail entries) = entries.flatMap fun e => visibleNames e.2 := by
  induction entries with
  | nil => decide
  | cons first rest ih =>
    obtain ⟨⟨hname, hvalue⟩, hrest⟩ := List.forall_mem_cons.1 h
    rw [documentTail, visibleNames_opening (by decide) hname hvalue (head?_documentTail rest),
      ih hrest, List.flatMap_cons]

theorem replaceNames_documentTail (replace : String → Option String) :
    replaceNames replace (documentTail entries) =
      documentTail (entries.map (Prod.map id (replaceNames replace))) := by
  induction entries with
  | nil => rfl
  | cons first rest ih =>
    obtain ⟨⟨hname, hvalue⟩, hrest⟩ := List.forall_mem_cons.1 h
    rw [documentTail, replaceNames_opening (by decide) hname hvalue (head?_documentTail rest),
      ih hrest]
    rfl

theorem balanced_document : Balanced (document entries) := by
  cases entries with
  | nil => exact QuoteFree.balanced (by decide)
  | cons first rest =>
    obtain ⟨⟨hname, hvalue⟩, hrest⟩ := List.forall_mem_cons.1 h
    rw [document_cons]
    exact balanced_opening (by decide) hname hvalue (balanced_documentTail hrest)

/-- **The visible names of a document** are those of its values, in order. -/
theorem visibleNames_document :
    visibleNames (document entries) = entries.flatMap fun e => visibleNames e.2 := by
  cases entries with
  | nil => decide
  | cons first rest =>
    obtain ⟨⟨hname, hvalue⟩, hrest⟩ := List.forall_mem_cons.1 h
    rw [document_cons, visibleNames_opening (by decide) hname hvalue (head?_documentTail rest),
      visibleNames_documentTail hrest, List.flatMap_cons]

/-- **Replacing names in a document** replaces them in its values. -/
theorem replaceNames_document (replace : String → Option String) :
    replaceNames replace (document entries) =
      document (entries.map (Prod.map id (replaceNames replace))) := by
  cases entries with
  | nil => rfl
  | cons first rest =>
    obtain ⟨⟨hname, hvalue⟩, hrest⟩ := List.forall_mem_cons.1 h
    rw [document_cons, replaceNames_opening (by decide) hname hvalue (head?_documentTail rest),
      replaceNames_documentTail hrest, List.map_cons, Prod.map_apply, document_cons]
    rfl

end

/-! ## §4 Documents without placeholders -/

theorem ShowsNoPlaceholder.singleton {name value : String} (hname : QuoteFree name)
    (h : ShowsNoPlaceholder value) : ShowsNoPlaceholder (singleton name value) where
  balanced := balanced_singleton hname h.balanced
  ne_placeholder := by
    rw [visibleNames_singleton hname h.balanced]
    exact h.ne_placeholder

theorem ShowsNoPlaceholder.document {entries : List (String × String)}
    (h : ∀ e ∈ entries, QuoteFree e.1 ∧ ShowsNoPlaceholder e.2) :
    ShowsNoPlaceholder (document entries) := by
  have hscannable : Scannable entries := fun e he => ⟨(h e he).1, (h e he).2.balanced⟩
  refine ⟨balanced_document hscannable, ?_⟩
  intro name hname
  rw [visibleNames_document hscannable] at hname
  obtain ⟨e, he, hname⟩ := List.mem_flatMap.1 hname
  exact (h e he).2.ne_placeholder name hname

theorem QuoteFree.append {a b : String} (ha : QuoteFree a) (hb : QuoteFree b) :
    QuoteFree (a ++ b) := by
  unfold QuoteFree at *
  rw [String.toList_append, List.mem_append, not_or]
  exact ⟨ha, hb⟩

theorem showsNoPlaceholder_fieldPath {field : String} (h : QuoteFree field) :
    ShowsNoPlaceholder (fieldPath field) := by
  have hpath : fieldPath field = "'" ++ ("$" ++ field) ++ "'" := by
    apply String.toList_injective
    simp [fieldPath]
  rw [hpath]
  exact showsNoPlaceholder_quoted (QuoteFree.append (by decide) h)

end QueryPipeline
