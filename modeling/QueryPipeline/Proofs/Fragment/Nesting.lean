import QueryPipeline.Proofs.Fragment.Scan

/-!
# Nesting of braces and brackets

Outside quotes, the braces and brackets of a document are closed in the reverse order of their
opening.  `pendingAfter` keeps a list of those that are still to be closed, the innermost first; what
stands in quotes does not count.

## Main definitions

- `pendingAfter`: what is still to be closed after a text.
- `Nested`: texts whose braces and brackets match outside quotes.
- `Closed`: texts that are nested and close their quotes.

## Main statements

- `balanced_iff_even_count`: the quotes of a text are closed exactly if their number is even.
- `closed_singleton`, `closed_pair`: the shapes that documents are made of keep texts closed.
-/

namespace QueryPipeline

/-! ## §1 What is still to be closed -/

/-- What is still to be closed after one character outside quotes.  There is no answer if a brace or
    bracket is closed that is not the innermost one. -/
def pendingStep (pending : List Char) (c : Char) : Option (List Char) :=
  if c = '\x7b' then some ('\x7d' :: pending)
  else if c = '[' then some (']' :: pending)
  else if c = '\x7d' ∨ c = ']' then
    match pending with
    | [] => none
    | innermost :: rest => if innermost = c then some rest else none
  else some pending

/-- What is still to be closed after a text that starts inside or outside quotes. -/
def pendingAfter (quoted : Bool) (pending : List Char) : List Char → Option (List Char)
  | [] => some pending
  | c :: cs =>
    if c = '\'' then pendingAfter (!quoted) pending cs
    else if quoted then pendingAfter quoted pending cs
    else (pendingStep pending c).bind fun pending => pendingAfter quoted pending cs

/-- Texts whose braces and brackets match outside quotes. -/
def Nested (text : String) : Prop :=
  pendingAfter false [] text.toList = some []

instance (text : String) : Decidable (Nested text) :=
  inferInstanceAs (Decidable (_ = _))

theorem pendingAfter_append (quoted : Bool) (pending : List Char) (a b : List Char) :
    pendingAfter quoted pending (a ++ b) =
      (pendingAfter quoted pending a).bind fun pending =>
        pendingAfter (quotedAfter quoted a) pending b := by
  induction a generalizing quoted pending with
  | nil => rfl
  | cons c a ih =>
    rw [List.cons_append, pendingAfter, pendingAfter, quotedAfter_cons]
    split
    · exact ih _ _
    · split
      · exact ih _ _
      · rw [Option.bind_assoc]
        congr 1
        funext pending
        exact ih _ _

/-- What is pending further out does not matter for a character that is accepted. -/
theorem pendingStep_outer {pending after : List Char} {c : Char}
    (h : pendingStep pending c = some after) (outer : List Char) :
    pendingStep (pending ++ outer) c = some (after ++ outer) := by
  unfold pendingStep at h ⊢
  split
  · rw [if_pos ‹_›] at h
    cases h
    rfl
  · rw [if_neg ‹_›] at h
    split
    · rw [if_pos ‹_›] at h
      cases h
      rfl
    · rw [if_neg ‹_›] at h
      split
      · -- something is closed, so something was pending
        cases pending with
        | nil => simp_all
        | cons innermost rest => simp_all
      · simp_all

theorem pendingAfter_outer {quoted : Bool} {pending after cs : List Char}
    (h : pendingAfter quoted pending cs = some after) (outer : List Char) :
    pendingAfter quoted (pending ++ outer) cs = some (after ++ outer) := by
  induction cs generalizing quoted pending with
  | nil =>
    cases h
    rfl
  | cons c cs ih =>
    rw [pendingAfter] at h ⊢
    split
    · exact ih (by simp_all)
    · split
      · exact ih (by simp_all)
      · rw [if_neg ‹_›, if_neg ‹_›] at h
        obtain ⟨next, hstep, hrest⟩ := Option.bind_eq_some_iff.1 h
        rw [pendingStep_outer hstep outer]
        exact ih hrest

/-- A nested text closes what it opens, whatever is pending around it. -/
theorem Nested.pendingAfter_eq {text : String} (h : Nested text) (pending : List Char) :
    pendingAfter false pending text.toList = some pending :=
  pendingAfter_outer h pending

/-- A text behind another one goes on with what that one has left to be closed. -/
theorem pendingAfter_trans {quoted : Bool} {pending middle after a b : List Char}
    (ha : pendingAfter quoted pending a = some middle)
    (hb : pendingAfter (quotedAfter quoted a) middle b = some after) :
    pendingAfter quoted pending (a ++ b) = some after := by
  rw [pendingAfter_append, ha, Option.bind_some, hb]

/-- Quoted text opens and closes nothing. -/
theorem pendingAfter_quoted {cs : List Char} (h : '\'' ∉ cs) (pending : List Char) :
    pendingAfter true pending cs = some pending := by
  induction cs with
  | nil => rfl
  | cons c cs ih =>
    rw [List.mem_cons, not_or] at h
    rw [pendingAfter, if_neg (Ne.symm h.1), if_pos rfl, ih h.2]

/-! ## §2 Closed texts -/

/-- Texts that close their quotes, and whose braces and brackets match outside quotes. -/
structure Closed (text : String) : Prop where
  balanced : Balanced text
  nested : Nested text

/-- What follows a closed text goes on as if the text were not there. -/
theorem Closed.pendingAfter_append {text : String} (h : Closed text) {pending after : List Char}
    {rest : List Char} (hrest : pendingAfter false pending rest = some after) :
    pendingAfter false pending (text.toList ++ rest) = some after := by
  have hbalanced : quotedAfter false text.toList = false := h.balanced
  refine pendingAfter_trans (h.nested.pendingAfter_eq pending) ?_
  rw [hbalanced]
  exact hrest

/-- A name that opens an entry leaves the brace of the entry to be closed. -/
theorem pendingAfter_entry {name : String} (h : QuoteFree name) (pending : List Char) :
    pendingAfter false pending ("\x7b'" ++ name ++ "': ").toList = some ('\x7d' :: pending) := by
  have hchars : ("\x7b'" ++ name ++ "': ").toList =
      '\x7b' :: '\'' :: (name.toList ++ "': ".toList) := by
    simp
  -- behind the brace and the quote, the name is scanned as quoted text
  have hname : pendingAfter true ('\x7d' :: pending) (name.toList ++ "': ".toList) =
      some ('\x7d' :: pending) := by
    refine pendingAfter_trans (pendingAfter_quoted h _) ?_
    rw [quotedAfter_of_not_mem h]
    rfl
  rw [hchars]
  exact hname

/-- **A document with one entry** is closed if its value is. -/
theorem closed_singleton {name value : String} (hname : QuoteFree name) (hvalue : Closed value) :
    Closed (singleton name value) where
  balanced := balanced_singleton hname hvalue.balanced
  nested := by
    rw [Nested, toList_singleton]
    refine pendingAfter_trans (pendingAfter_entry hname []) ?_
    rw [quotedAfter_entry hname]
    exact hvalue.pendingAfter_append rfl

/-- **A list of two** is closed if its members are. -/
theorem closed_pair {left right : String} (hleft : Closed left) (hright : Closed right) :
    Closed ("[" ++ left ++ ", " ++ right ++ "]") where
  balanced := balanced_pair hleft.balanced hright.balanced
  nested := by
    have hrest : pendingAfter false [']'] (right.toList ++ [']']) = some [] :=
      hright.pendingAfter_append rfl
    have hmembers : pendingAfter false [']']
        (left.toList ++ (',' :: ' ' :: (right.toList ++ [']']))) = some [] :=
      hleft.pendingAfter_append hrest
    rw [Nested, toList_pair]
    exact hmembers

/-- A name opens and closes nothing. -/
theorem IsName.closed {text : String} (h : IsName text) : Closed text where
  balanced := h.balanced
  nested := by
    have hword := List.all_eq_true.1 h.word
    unfold Nested
    generalize text.toList = cs at hword
    induction cs with
    | nil => rfl
    | cons c cs ih =>
      obtain ⟨hc, hcs⟩ := List.forall_mem_cons.1 hword
      have hne : ∀ d, isWordChar d = false → c ≠ d := by
        rintro d hd rfl
        exact absurd (hc.symm.trans hd) (by decide)
      have hstep : pendingStep [] c = some [] := by
        simp [pendingStep, hne '\x7b' rfl, hne '[' rfl, hne '\x7d' rfl, hne ']' rfl]
      rw [pendingAfter, if_neg (hne '\'' rfl), hstep]
      exact ih hcs

/-! ## §3 Numbers of quotes -/

/-- A text ends inside or outside quotes as it starts exactly if the number of its quotes is even. -/
theorem quotedAfter_eq_self_iff {quoted : Bool} {cs : List Char} :
    quotedAfter quoted cs = quoted ↔ cs.count '\'' % 2 = 0 := by
  induction cs generalizing quoted with
  | nil => simp
  | cons c cs ih =>
    rw [quotedAfter_cons]
    by_cases hc : c = '\''
    · subst hc
      -- the rest starts the other way round
      have hturned : quotedAfter (!quoted) cs = quoted ↔ ¬ quotedAfter (!quoted) cs = !quoted := by
        cases quoted <;> simp
      rw [if_pos rfl, hturned, ih, List.count_cons_self]
      omega
    · rw [if_neg hc, ih, List.count_cons_of_ne hc]

/-- **The quotes of a text are closed** exactly if their number is even. -/
theorem balanced_iff_even_count {text : String} :
    Balanced text ↔ text.toList.count '\'' % 2 = 0 :=
  quotedAfter_eq_self_iff

end QueryPipeline
