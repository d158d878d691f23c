import Mathlib
import QueryPipeline.Proofs.Fragment.Scan
import QueryPipeline.Proofs.Numbering

/-!
# What the texts of values show

A constant is inert if it can stand in a fragment without harm: its text has no quotes, and text is
declared as text.  An inert constant closes its quotes, and none of the names that it shows is a
placeholder: text shows no names at all, and the others show at most `null`, `true`, `false`, `NaN`
or `inf`.

## Main definitions

- `Value.InertAs`: constants that can stand in a fragment without harm.
- `ShowsNoPlaceholder`: texts that close their quotes and show no placeholder.
- `Expr.HasInertConstants`, `Expr.IsInert`: expressions that can stand in a fragment without harm.

## Main statements

- `Value.InertAs.showsNoPlaceholder`: inert constants do no harm.
-/

namespace QueryPipeline

open Segment

/-! ## §1 Texts without placeholders -/

/-- Texts that close their quotes and show no placeholder. -/
structure ShowsNoPlaceholder (text : String) : Prop where
  balanced : Balanced text
  ne_placeholder : ∀ name ∈ visibleNames text, ∀ entry n, name ≠ placeholderName entry n

theorem visibleNames_eq_nil {text : String} (h : ∀ c ∈ text.toList, isNameStart c = false) :
    visibleNames text = [] := by
  rw [visibleNames, List.filterMap_eq_nil_iff]
  intro s hs
  cases s with
  | plain c => rfl
  | run cs =>
    cases cs with
    | nil => rfl
    | cons c cs =>
      -- the first character of a run is one of the text
      have hc : c ∈ text.toList := by
        rw [← flatMap_chars_scan false text.toList]
        exact List.mem_flatMap.2 ⟨_, hs, List.mem_cons_self⟩
      simp [name?, h c hc]

/-- Text in quotes shows no names. -/
theorem visibleNames_quoted {text : String} (h : QuoteFree text) :
    visibleNames ("'" ++ text ++ "'") = [] := by
  have hchars : ("'" ++ text ++ "'").toList = '\'' :: (text.toList ++ ['\'']) := by
    simp
  have hclose : scan true ['\''] = [plain '\''] := rfl
  rw [visibleNames, ofText, hchars, scan_cons, if_pos rfl, Bool.not_false, scan_quoted h, hclose]
  have hplain : plain '\'' :: (text.toList.map plain ++ [plain '\'']) =
      ('\'' :: (text.toList ++ ['\''])).map plain := by
    simp
  rw [hplain, filterMap_name?_plain]

theorem balanced_quoted {text : String} (h : QuoteFree text) : Balanced ("'" ++ text ++ "'") := by
  unfold Balanced
  simp [quotedAfter_cons, quotedAfter_append, quotedAfter_of_not_mem h]

/-- Text in quotes shows no placeholder. -/
theorem showsNoPlaceholder_quoted {text : String} (h : QuoteFree text) :
    ShowsNoPlaceholder ("'" ++ text ++ "'") := by
  refine ⟨balanced_quoted h, ?_⟩
  rw [visibleNames_quoted h]
  intro name hname
  cases hname

/-! ## §2 Numerals -/

/-- Characters of numerals written without exponent. -/
def isNumeralChar (c : Char) : Bool :=
  c.isDigit || c == '-' || c == '.'

/-- Texts of numerals. -/
def IsNumeral (text : String) : Prop :=
  text.toList.all isNumeralChar = true

instance (text : String) : Decidable (IsNumeral text) :=
  inferInstanceAs (Decidable (text.toList.all isNumeralChar = true))

theorem isNumeralChar_of_mem_toDigits {n : Nat} {c : Char} (h : c ∈ Nat.toDigits 10 n) :
    isNumeralChar c = true := by
  have hdigit := Nat.isDigit_of_mem_toDigits (by decide) (by decide) h
  simp [isNumeralChar, hdigit]

theorem IsNumeral.append {a b : String} (ha : IsNumeral a) (hb : IsNumeral b) :
    IsNumeral (a ++ b) := by
  rw [IsNumeral, String.toList_append, List.all_append, ha, hb, Bool.and_self]

theorem isNumeral_ofList {cs : List Char} (h : ∀ c ∈ cs, isNumeralChar c = true) :
    IsNumeral (String.ofList cs) := by
  rw [IsNumeral, String.toList_ofList, List.all_eq_true]
  exact h

theorem isNumeral_replicate_zero (n : Nat) :
    ∀ c ∈ List.replicate n '0', isNumeralChar c = true := by
  intro c hc
  rw [List.eq_of_mem_replicate hc]
  decide

/-- The digits with a point among them are a numeral. -/
theorem isNumeral_layoutPositional {digits : List Char}
    (h : ∀ c ∈ digits, isNumeralChar c = true) (pointZero : Bool) (point : Int) :
    IsNumeral (Number.layoutPositional pointZero digits point) := by
  unfold Number.layoutPositional
  split
  · -- the point stands before all digits
    refine IsNumeral.append (by decide) (isNumeral_ofList fun c hc => ?_)
    exact (List.mem_append.1 hc).elim (isNumeral_replicate_zero _ c) (h c)
  · split
    · -- behind all digits
      refine IsNumeral.append (isNumeral_ofList fun c hc => ?_) ?_
      · exact (List.mem_append.1 hc).elim (h c) (isNumeral_replicate_zero _ c)
      · split <;> decide
    · -- or among them
      refine IsNumeral.append (IsNumeral.append (isNumeral_ofList fun c hc => ?_) (by decide))
        (isNumeral_ofList fun c hc => ?_)
      · exact h c (List.mem_of_mem_take hc)
      · exact h c (List.mem_of_mem_drop hc)

theorem isNumeral_int (n : Int) : IsNumeral (toString n) := by
  have hnat : ∀ m : Nat, IsNumeral m.repr := by
    intro m
    rw [IsNumeral, Nat.toList_repr, List.all_eq_true]
    exact fun c hc => isNumeralChar_of_mem_toDigits hc
  rw [Int.toString_eq_repr, Int.repr_eq_if]
  split
  · exact hnat _
  · exact IsNumeral.append (by decide) (hnat _)

/-- In fragments, a finite floating value is written as a numeral. -/
theorem isNumeral_or_special (r : Number.Reading) :
    IsNumeral (fragmentNumbers.writeReading r) ∨
      fragmentNumbers.writeReading r ∈ ["NaN", "inf", "-inf"] := by
  obtain ⟨negative, magnitude⟩ := r
  cases magnitude with
  | nan => exact .inr (by cases negative <;> decide)
  | infinite => exact .inr (by cases negative <;> decide)
  | finite x =>
    have hsign : IsNumeral (if negative then "-" else "") := by
      cases negative <;> decide
    refine .inl (IsNumeral.append hsign ?_)
    exact isNumeral_layoutPositional (fun c hc => isNumeralChar_of_mem_toDigits hc) _ _

theorem isNameStart_of_isDigit {c : Char} (h : c.isDigit = true) : isNameStart c = false := by
  have hunderscore : c ≠ '_' := by
    rintro rfl
    exact absurd h (by decide)
  simp only [Char.isDigit, Bool.and_eq_true, decide_eq_true_eq, ge_iff_le,
    UInt32.le_iff_toNat_le] at h
  -- all digits come before all letters
  have hnine : '9'.val.toNat = 57 := rfl
  have hupper : 'A'.val.toNat = 65 := rfl
  have hlower : 'a'.val.toNat = 97 := rfl
  have halpha : c.isAlpha = false := by
    simp only [Char.isAlpha, Char.isUpper, Char.isLower, Bool.or_eq_false_iff,
      Bool.and_eq_false_iff, decide_eq_false_iff_not, ge_iff_le, UInt32.le_iff_toNat_le]
    omega
  simp [isNameStart, halpha, hunderscore]

theorem IsNumeral.showsNoPlaceholder {text : String} (h : IsNumeral text) :
    ShowsNoPlaceholder text where
  balanced := by
    apply QuoteFree.balanced
    intro hquote
    exact absurd (List.all_eq_true.1 h _ hquote) (by decide)
  ne_placeholder := by
    -- neither a digit nor a sign nor a point starts a name
    have hstart : ∀ c ∈ text.toList, isNameStart c = false := by
      intro c hc
      have hnumeral := List.all_eq_true.1 h c hc
      simp only [isNumeralChar, Bool.or_eq_true, beq_iff_eq] at hnumeral
      rcases hnumeral with (hdigit | rfl) | rfl
      · exact isNameStart_of_isDigit hdigit
      · decide
      · decide
    rw [visibleNames_eq_nil hstart]
    intro name hname
    cases hname

/-! ## §3 Inert constants -/

/-- The words that constants may be written as. -/
def constantWords : List String :=
  ["null", "true", "false", "NaN", "inf", "-inf"]

theorem showsNoPlaceholder_of_mem_constantWords {word : String} (h : word ∈ constantWords) :
    ShowsNoPlaceholder word where
  balanced := by
    have hquote : ∀ w ∈ constantWords, QuoteFree w := by decide
    exact (hquote word h).balanced
  ne_placeholder := by
    have hnames : ∀ w ∈ constantWords, ∀ name ∈ visibleNames w,
        name.toList.take 3 ∉ [['v', 'a', 'r'], ['l', 'i', 't']] := by
      decide
    intro name hname
    exact ne_placeholderName (hnames word h name hname)

/-- Constants whose text has no quotes, and which are declared as text if they are text. -/
def Value.InertAs (v : Value) (type : AttributeType) : Prop :=
  QuoteFree v.display ∧ ∀ s, v = .text s → type = .string

instance (v : Value) (type : AttributeType) : Decidable (v.InertAs type) :=
  match v with
  | .text s => decidable_of_iff (QuoteFree s ∧ type = .string)
      ⟨fun h => ⟨h.1, fun _ _ => h.2⟩, fun h => ⟨h.1, h.2 s rfl⟩⟩
  | .null | .bool _ | .int _ | .long _ | .double _ | .float _ =>
    decidable_of_iff (QuoteFree (Value.display _)) ⟨fun h => ⟨h, nofun⟩, fun h => h.1⟩

/-- A constant that is not text shows no placeholder even without quotes around it. -/
theorem Value.showsNoPlaceholder_display {v : Value} (h : ∀ s, v ≠ .text s) :
    ShowsNoPlaceholder v.display := by
  have hfloat : ∀ r : Number.Reading, ShowsNoPlaceholder (fragmentNumbers.writeReading r) := by
    intro r
    rcases isNumeral_or_special r with hnumeral | hspecial
    · exact hnumeral.showsNoPlaceholder
    · apply showsNoPlaceholder_of_mem_constantWords
      exact List.mem_append_right ["null", "true", "false"] hspecial
  cases v with
  | null => exact showsNoPlaceholder_of_mem_constantWords (by decide)
  | bool b =>
    apply showsNoPlaceholder_of_mem_constantWords
    cases b <;> decide
  | int n => exact (isNumeral_int n.toInt).showsNoPlaceholder
  | long n => exact (isNumeral_int n.toInt).showsNoPlaceholder
  | double x => exact hfloat _
  | float x => exact hfloat _
  | text s => exact absurd rfl (h s)

theorem Value.renderAs_of_ne_null {v : Value} (h : v ≠ .null) (type : AttributeType) :
    v.renderAs type = if type.isQuoted then "'" ++ v.display ++ "'" else v.display := by
  cases v <;> first | rfl | exact absurd rfl h

/-- **Inert constants do no harm.** -/
theorem Value.InertAs.showsNoPlaceholder {v : Value} {type : AttributeType}
    (h : v.InertAs type) : ShowsNoPlaceholder (v.renderAs type) := by
  by_cases hnull : v = .null
  · subst hnull
    exact showsNoPlaceholder_of_mem_constantWords (by decide : "null" ∈ constantWords)
  · rw [v.renderAs_of_ne_null hnull]
    split
    · exact showsNoPlaceholder_quoted h.1
    · -- text is always in quotes, and nothing else can look like a placeholder
      rename_i hquoted
      apply showsNoPlaceholder_display
      rintro s rfl
      exact hquoted (h.2 s rfl ▸ rfl)

/-! ## §4 Inert expressions -/

/-- Expressions whose constants can stand in a fragment without harm. -/
def Expr.HasInertConstants (e : Expr) : Prop :=
  ∀ value type, PlaceholderEntry.literal value type ∈ e.entries → value.InertAs type

theorem Expr.hasInertConstants_iff {e : Expr} :
    e.HasInertConstants ↔ ∀ c ∈ e.constants, c.1.InertAs c.2 := by
  constructor
  · rintro h ⟨value, type⟩ hc
    exact h value type (mem_constants_iff.1 hc)
  · intro h value type hentry
    exact h (value, type) (mem_constants_iff.2 hentry)

instance (e : Expr) : Decidable e.HasInertConstants :=
  decidable_of_iff _ Expr.hasInertConstants_iff.symm

/-- Expressions whose column names have no quotes and whose constants are inert. -/
structure Expr.IsInert (e : Expr) : Prop where
  columns : ∀ c ∈ e.columns, QuoteFree c.field
  constants : e.HasInertConstants

instance (e : Expr) : Decidable e.IsInert :=
  decidable_of_iff ((∀ c ∈ e.columns, QuoteFree c.field) ∧ e.HasInertConstants)
    ⟨fun h => ⟨h.1, h.2⟩, fun h => ⟨h.1, h.2⟩⟩

/-- Leaves whose column name has no quotes, or whose constant is inert. -/
def Leaf.IsInert : Leaf → Prop
  | .column c => QuoteFree c.field
  | .entry (.variable _) => True
  | .entry (.literal value type) => value.InertAs type

theorem Expr.IsInert.leaf {e : Expr} (h : e.IsInert) {l : Leaf} (hleaf : e.leaf = .ok l) :
    l.IsInert := by
  obtain ⟨hcolumns, hconstants⟩ := h
  unfold HasInertConstants at hconstants
  rw [columns_of_leaf hleaf] at hcolumns
  rw [entries_of_leaf hleaf] at hconstants
  rcases l with c | (v | ⟨value, type⟩)
  · exact hcolumns c (List.mem_singleton_self c)
  · trivial
  · exact hconstants value type (List.mem_singleton_self _)

/-! ## §5 How values start -/

/-- A numeral does not start like a placeholder. -/
theorem IsNumeral.exists_head {text : String} (h : IsNumeral text) (hne : text.toList ≠ []) :
    ∃ c ∈ text.toList.head?, c ∉ ['v', 'l'] := by
  obtain ⟨c, cs, hcs⟩ := List.exists_cons_of_ne_nil hne
  have hc : isNumeralChar c = true := List.all_eq_true.1 h c (by rw [hcs]; exact List.mem_cons_self)
  refine ⟨c, by rw [hcs]; rfl, ?_⟩
  intro hmem
  simp only [List.mem_cons, List.not_mem_nil, or_false] at hmem
  rcases hmem with rfl | rfl <;> exact absurd hc (by decide)

/-- Digits with a point among them are some text, even if there are no digits. -/
theorem toList_layoutPositional_ne_nil (pointZero : Bool) (digits : List Char) (point : Int) :
    (Number.layoutPositional pointZero digits point).toList ≠ [] := by
  unfold Number.layoutPositional
  split
  · simp
  · split
    · -- zeros fill up to the point
      rename_i hpoint hlength
      intro hnil
      rw [String.toList_append, String.toList_ofList, List.append_eq_nil_iff,
        List.append_eq_nil_iff, List.replicate_eq_nil_iff] at hnil
      obtain ⟨⟨rfl, hzeros⟩, _⟩ := hnil
      rw [List.length_nil] at hzeros
      omega
    · simp

theorem toList_toString_int_ne_nil (n : Int) : (toString n).toList ≠ [] := by
  have hnat : ∀ m : Nat, m.repr.toList ≠ [] := by
    intro m
    rw [Nat.toList_repr]
    exact Nat.toDigits_ne_nil
  rw [Int.toString_eq_repr, Int.repr_eq_if]
  split
  · exact hnat _
  · simp

/-- Without quotes around it, a value that is not text does not start like a placeholder. -/
theorem Value.exists_head_display {v : Value} (h : ∀ s, v ≠ .text s) :
    ∃ c ∈ v.display.toList.head?, c ∉ ['v', 'l'] := by
  have hint : ∀ n : Int, ∃ c ∈ (toString n).toList.head?, c ∉ ['v', 'l'] := fun n =>
    (isNumeral_int n).exists_head (toList_toString_int_ne_nil n)
  have hfloat : ∀ r : Number.Reading,
      ∃ c ∈ (fragmentNumbers.writeReading r).toList.head?, c ∉ ['v', 'l'] := by
    intro r
    rcases isNumeral_or_special r with hnumeral | hword
    · -- a numeral, so it only has to be some text
      apply hnumeral.exists_head
      obtain ⟨negative, magnitude⟩ := r
      cases magnitude with
      | nan => cases negative <;> decide
      | infinite => cases negative <;> decide
      | finite x =>
        intro hnil
        have hlayout := (List.append_eq_nil_iff.1 ((String.toList_append ..).symm.trans hnil)).2
        exact toList_layoutPositional_ne_nil _ _ _ hlayout
    · simp only [List.mem_cons, List.not_mem_nil, or_false] at hword
      rcases hword with hword | hword | hword <;> rw [hword] <;> exact ⟨_, rfl, by decide⟩
  cases v with
  | null => exact ⟨'n', rfl, by decide⟩
  | bool b => cases b <;> exact ⟨_, rfl, by decide⟩
  | int n => exact hint n.toInt
  | long n => exact hint n.toInt
  | double x => exact hfloat _
  | float x => exact hfloat _
  | text s => exact absurd rfl (h s)

/-- **No value starts like a placeholder**, if text is declared as text. -/
theorem Value.exists_head_renderAs {v : Value} {type : AttributeType}
    (h : ∀ s, v = .text s → type = .string) :
    ∃ c ∈ (v.renderAs type).toList.head?, c ∉ ['v', 'l'] := by
  by_cases hnull : v = .null
  · subst hnull
    exact ⟨'n', show "null".toList.head? = some 'n' from rfl, by decide⟩
  · rw [v.renderAs_of_ne_null hnull]
    split
    · -- quotes come first
      exact ⟨'\'', by simp, by decide⟩
    · rename_i hquoted
      apply exists_head_display
      rintro s rfl
      exact hquoted (h s rfl ▸ rfl)

theorem Value.exists_head_render (v : Value) : ∃ c ∈ v.render.toList.head?, c ∉ ['v', 'l'] := by
  unfold Value.render
  cases htype : v.type? with
  | none => exact ⟨'n', show "null".toList.head? = some 'n' from rfl, by decide⟩
  | some type =>
    apply exists_head_renderAs
    rintro s rfl
    exact (Option.some.inj htype).symm

end QueryPipeline
