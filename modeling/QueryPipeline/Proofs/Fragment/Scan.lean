import QueryPipeline.DocumentText
import QueryPipeline.Placeholder.Table

/-!
# Scanning texts piece by piece

The segments of a text are those of its pieces, as long as no run of word characters goes across a
seam and the quotes of each piece are closed.  Documents are written so that both hold, whatever
stands in them: a name stands between quotes, and a value between a space and a brace.

## Main definitions

- `quotedAfter`: whether a text that starts inside or outside quotes ends inside.
- `Balanced`: texts that close the quotes they open.
- `replaceNames`: a text with its visible names replaced, without effects.
- `namesFrom`, `replaceFrom`: the same for a text that may start inside quotes.

## Main statements

- `Segment.scan_append`: scanning two pieces.
- `ofText_singleton`, `ofText_pair`: scanning the shapes that documents are made of.
-/

namespace QueryPipeline

/-! ## §1 Quotes -/

/-- Whether a text that starts inside or outside quotes ends inside. -/
def quotedAfter (quoted : Bool) (cs : List Char) : Bool :=
  cs.foldl (fun q c => if c = '\'' then !q else q) quoted

@[simp] theorem quotedAfter_nil (quoted : Bool) : quotedAfter quoted [] = quoted :=
  rfl

theorem quotedAfter_cons (quoted : Bool) (c : Char) (cs : List Char) :
    quotedAfter quoted (c :: cs) = quotedAfter (if c = '\'' then !quoted else quoted) cs :=
  rfl

theorem quotedAfter_append (quoted : Bool) (a b : List Char) :
    quotedAfter quoted (a ++ b) = quotedAfter (quotedAfter quoted a) b :=
  List.foldl_append

/-- Without quotes nothing is opened or closed. -/
theorem quotedAfter_of_not_mem {cs : List Char} (h : '\'' ∉ cs) (quoted : Bool) :
    quotedAfter quoted cs = quoted := by
  induction cs with
  | nil => rfl
  | cons c cs ih =>
    rw [List.mem_cons, not_or] at h
    rw [quotedAfter_cons, if_neg (Ne.symm h.1), ih h.2]

/-- Texts without quotes. -/
def QuoteFree (text : String) : Prop :=
  '\'' ∉ text.toList

instance (text : String) : Decidable (QuoteFree text) :=
  inferInstanceAs (Decidable ('\'' ∉ text.toList))

/-- Texts that close the quotes they open. -/
def Balanced (text : String) : Prop :=
  quotedAfter false text.toList = false

theorem QuoteFree.balanced {text : String} (h : QuoteFree text) : Balanced text :=
  quotedAfter_of_not_mem h false

/-! ## §2 Seams -/

namespace Segment

theorem scan_cons (quoted : Bool) (c : Char) (cs : List Char) :
    scan quoted (c :: cs) =
      if c = '\'' then plain c :: scan (!quoted) cs
      else if quoted || !isWordChar c then plain c :: scan quoted cs
      else extend c (scan quoted cs) :=
  rfl

theorem scan_ne_nil {quoted : Bool} {cs : List Char} (h : cs ≠ []) : scan quoted cs ≠ [] := by
  intro hscan
  have hchars := flatMap_chars_scan quoted cs
  rw [hscan] at hchars
  exact h hchars.symm

/-- A word character joins the first of several segments. -/
theorem extend_append {c : Char} {l : List Segment} (h : l ≠ []) (m : List Segment) :
    extend c (l ++ m) = extend c l ++ m := by
  match l with
  | plain _ :: _ => rfl
  | run _ :: _ => rfl

/-- A word character stays for itself in front of a text that starts with none. -/
theorem extend_scan_of_head {c : Char} {quoted : Bool} {cs : List Char}
    (h : ∀ d ∈ cs.head?, isWordChar d = false) :
    extend c (scan quoted cs) = run [c] :: scan quoted cs := by
  cases cs with
  | nil => rfl
  | cons d cs =>
    have hd : isWordChar d = false := h d rfl
    unfold scan
    split
    · rfl
    · simp [hd, extend]

/-- **Scanning two pieces.**  No run goes across the seam if the first piece does not end, or the
    second one does not start, with a word character. -/
theorem scan_append {a b : List Char}
    (h : (∀ c ∈ a.getLast?, isWordChar c = false) ∨ (∀ c ∈ b.head?, isWordChar c = false))
    (quoted : Bool) : scan quoted (a ++ b) = scan quoted a ++ scan (quotedAfter quoted a) b := by
  induction a generalizing quoted with
  | nil => rfl
  | cons c a ih =>
    have htail : (∀ d ∈ a.getLast?, isWordChar d = false) ∨
        (∀ d ∈ b.head?, isWordChar d = false) := by
      refine h.imp_left fun hlast d hd => hlast d ?_
      rw [List.getLast?_cons, Option.mem_def.1 hd]
      rfl
    rw [List.cons_append, quotedAfter_cons, scan_cons, scan_cons]
    split
    · -- a quote is a segment of its own
      rw [ih htail, List.cons_append]
    · split
      · -- so is a character inside quotes or between words
        rw [ih htail, List.cons_append]
      · rename_i hquote hword
        -- a word character: the seam matters only right behind it
        rw [ih htail]
        by_cases ha : a = []
        · subst ha
          rcases h with hlast | hhead
          · have hc : isWordChar c = false := hlast c rfl
            simp [hc] at hword
          · exact extend_scan_of_head hhead
        · exact extend_append (scan_ne_nil ha) _

theorem scan_quoted {cs : List Char} (h : '\'' ∉ cs) (rest : List Char) :
    scan true (cs ++ rest) = cs.map plain ++ scan true rest := by
  induction cs with
  | nil => rfl
  | cons c cs ih =>
    rw [List.mem_cons, not_or] at h
    rw [List.cons_append, scan, if_neg (Ne.symm h.1), Bool.true_or, if_pos rfl, ih h.2]
    rfl

/-- A character between words stands for itself. -/
theorem scan_cons_separator {c : Char} (hquote : c ≠ '\'') (hword : isWordChar c = false)
    (cs : List Char) : scan false (c :: cs) = plain c :: scan false cs := by
  simp [scan, hquote, hword]

/-- Word characters form one run. -/
theorem scan_word {c : Char} {cs : List Char} (h : ∀ d ∈ c :: cs, isWordChar d = true) :
    scan false (c :: cs) = [run (c :: cs)] := by
  -- a quote is no word character
  have hquote : ∀ d ∈ c :: cs, d ≠ '\'' := by
    rintro d hd rfl
    exact absurd (h '\'' hd) (by decide)
  induction cs generalizing c with
  | nil => simp [scan, h c, hquote c, extend]
  | cons d cs ih =>
    rw [scan, if_neg (hquote c List.mem_cons_self), h c List.mem_cons_self,
      ih (fun x hx => h x (List.mem_cons_of_mem _ hx))
        (fun x hx => hquote x (List.mem_cons_of_mem _ hx))]
    rfl

end Segment

/-! ## §3 The shapes of documents -/

open Segment

theorem toList_singleton (name value : String) :
    (singleton name value).toList =
      ("\x7b'" ++ name ++ "': ").toList ++ (value.toList ++ ['\x7d']) := by
  simp [singleton, braced, documentEntry]

theorem toList_pair (left right : String) :
    ("[" ++ left ++ ", " ++ right ++ "]").toList =
      '[' :: (left.toList ++ (',' :: ' ' :: (right.toList ++ [']']))) := by
  simp

/-- A name that opens an entry leaves no quote open. -/
theorem quotedAfter_entry {name : String} (h : QuoteFree name) :
    quotedAfter false ("\x7b'" ++ name ++ "': ").toList = false := by
  simp [quotedAfter_append, quotedAfter_cons, quotedAfter_of_not_mem h]

/-- A name that opens an entry shows no words. -/
theorem scan_entry {name : String} (h : QuoteFree name) :
    scan false ("\x7b'" ++ name ++ "': ").toList =
      ("\x7b'" ++ name ++ "': ").toList.map plain := by
  have hclosed : scan true ("': ".toList) = "': ".toList.map plain := by decide
  have hchars : ("\x7b'" ++ name ++ "': ").toList =
      '\x7b' :: '\'' :: (name.toList ++ "': ".toList) := by
    simp
  -- the brace stands alone, then the quote opens and the name is scanned as quoted text
  rw [hchars, scan_cons_separator (by decide) (by decide), scan_cons, if_pos rfl, Bool.not_false,
    scan_quoted h, hclosed]
  simp

theorem balanced_singleton {name value : String} (hname : QuoteFree name)
    (hvalue : Balanced value) : Balanced (singleton name value) := by
  unfold Balanced at hvalue ⊢
  rw [toList_singleton, quotedAfter_append, quotedAfter_entry hname, quotedAfter_append, hvalue]
  rfl

theorem balanced_pair {left right : String} (hleft : Balanced left) (hright : Balanced right) :
    Balanced ("[" ++ left ++ ", " ++ right ++ "]") := by
  unfold Balanced at hleft hright ⊢
  simp [quotedAfter_cons, quotedAfter_append, hleft, hright]

/-- **A document with one entry** shows what its value shows. -/
theorem ofText_singleton {name value : String} (hname : QuoteFree name)
    (hvalue : Balanced value) :
    ofText (singleton name value) =
      ("\x7b'" ++ name ++ "': ").toList.map plain ++ (ofText value ++ [plain '\x7d']) := by
  unfold Balanced at hvalue
  have hlast : ("\x7b'" ++ name ++ "': ").toList.getLast? = some ' ' := by
    rw [String.toList_append, List.getLast?_append]
    rfl
  -- the value stands behind a space and before a brace
  have hseam : ∀ c ∈ ("\x7b'" ++ name ++ "': ").toList.getLast?, isWordChar c = false := by
    rw [hlast]
    intro c hc
    cases hc
    decide
  rw [ofText, toList_singleton, scan_append (.inl hseam), quotedAfter_entry hname,
    scan_entry hname, scan_append (.inr fun c hc => by cases hc; decide), hvalue]
  rfl

/-- **A list of two** shows what its members show. -/
theorem ofText_pair {left right : String} (hleft : Balanced left) (hright : Balanced right) :
    ofText ("[" ++ left ++ ", " ++ right ++ "]") =
      plain '[' :: (ofText left ++ (plain ',' :: plain ' ' :: (ofText right ++ [plain ']']))) := by
  unfold Balanced at hleft hright
  -- what follows a member is a comma or a bracket, so no run goes beyond it
  rw [ofText, toList_pair, scan_cons_separator (by decide) (by decide),
    scan_append (.inr fun c hc => by cases hc; decide), hleft,
    scan_cons_separator (by decide) (by decide), scan_cons_separator (by decide) (by decide),
    scan_append (.inr fun c hc => by cases hc; decide), hright]
  rfl

/-! ## §4 Replacing names -/

/-- A segment with its name replaced. -/
def Segment.rewrite (replace : String → Option String) (s : Segment) : String :=
  match s.name? with
  | none => s.text
  | some name => (replace name).getD s.text

section

variable {replace other : String → Option String} {s : Segment}

/-- What a segment becomes depends on the replacement of its name only. -/
theorem Segment.rewrite_eq_getD : s.rewrite replace = (s.name?.bind replace).getD s.text := by
  unfold rewrite
  cases s.name? <;> rfl

theorem Segment.rewrite_of_some {value : String} (h : s.name?.bind replace = some value) :
    s.rewrite replace = value := by
  simp [rewrite_eq_getD, h]

theorem Segment.rewrite_of_none (h : s.name?.bind replace = none) : s.rewrite replace = s.text := by
  simp [rewrite_eq_getD, h]

theorem Segment.rewrite_congr (h : s.name?.bind replace = s.name?.bind other) :
    s.rewrite replace = s.rewrite other := by
  rw [rewrite_eq_getD, rewrite_eq_getD, h]

end

/-- A text with each visible name replaced as `replace` says. -/
def replaceNames (replace : String → Option String) (text : String) : String :=
  String.join ((ofText text).map (Segment.rewrite replace))

/-- The visible names of a text that starts inside or outside quotes. -/
def namesFrom (quoted : Bool) (text : String) : List String :=
  (scan quoted text.toList).filterMap name?

/-- A text that starts inside or outside quotes, with its visible names replaced. -/
def replaceFrom (quoted : Bool) (replace : String → Option String) (text : String) : String :=
  String.join ((scan quoted text.toList).map (Segment.rewrite replace))

section

variable {m : Type → Type} [Monad m] [LawfulMonad m]

/-- Without effects, substituting replaces names. -/
theorem substitute_pure (replace : String → Option String) (text : String) :
    substitute (fun name => (pure (replace name) : m _)) text = pure (replaceNames replace text) := by
  unfold substitute replaceNames
  -- the traversal of the segments is a map
  have hpieces : ∀ step : Segment → m String, (∀ s, step s = pure (s.rewrite replace)) →
      (ofText text).mapM step = pure ((ofText text).map (Segment.rewrite replace)) := by
    intro step hstep
    rw [funext hstep, List.mapM_pure]
  rw [hpieces, pure_bind]
  intro s
  unfold Segment.rewrite
  cases s.name? with
  | none => rfl
  | some name => cases hname : replace name <;> simp [hname]

end

/-- Writing out the literals of a table replaces their names. -/
theorem PlaceholderTable.inline_eq (t : PlaceholderTable) (fragment : String) :
    t.inline fragment = replaceNames t.literalText? fragment :=
  congrArg Id.run (substitute_pure t.literalText? fragment)

@[simp] theorem rewrite_plain (replace : String → Option String) (c : Char) :
    (plain c).rewrite replace = String.ofList [c] :=
  rfl

theorem toList_rewrite_plain (replace : String → Option String) (c : Char) :
    ((plain c).rewrite replace).toList = [c] := by
  rw [rewrite_plain, String.toList_ofList]

theorem join_rewrite_plain (replace : String → Option String) (cs : List Char) :
    String.join ((cs.map plain).map (Segment.rewrite replace)) = String.ofList cs := by
  apply String.toList_injective
  rw [String.toList_join, String.toList_ofList]
  induction cs with
  | nil => rfl
  | cons c cs ih =>
    rw [List.map_cons, List.map_cons, List.flatMap_cons, ih, toList_rewrite_plain]
    rfl

/-- Only what the visible names are replaced by matters. -/
theorem replaceNames_congr {replace other : String → Option String} {text : String}
    (h : ∀ name ∈ visibleNames text, replace name = other name) :
    replaceNames replace text = replaceNames other text := by
  unfold replaceNames
  congr 1
  apply List.map_congr_left
  intro s hs
  apply Segment.rewrite_congr
  cases hname : s.name? with
  | none => rfl
  | some name => exact h name (List.mem_filterMap.2 ⟨s, hs, hname⟩)

theorem join_text_scan (quoted : Bool) (text : String) :
    String.join ((scan quoted text.toList).map Segment.text) = text := by
  have hchars : ∀ s : Segment, s.text.toList = s.chars := fun s => String.toList_ofList
  apply String.toList_injective
  rw [String.toList_join, List.flatMap_map]
  simp only [hchars]
  exact flatMap_chars_scan quoted text.toList

/-- A text stays as it is if none of its visible names is replaced. -/
theorem replaceFrom_eq_self {replace : String → Option String} {quoted : Bool} {text : String}
    (hnone : ∀ name ∈ namesFrom quoted text, replace name = none) :
    replaceFrom quoted replace text = text := by
  have hsegment : ∀ s ∈ scan quoted text.toList, s.rewrite replace = s.text := by
    intro s hs
    apply s.rewrite_of_none
    rw [Option.bind_eq_none_iff]
    intro name hname
    exact hnone name (List.mem_filterMap.2 ⟨s, hs, hname⟩)
  rw [replaceFrom, List.map_congr_left hsegment, join_text_scan]

theorem replaceNames_eq_self {replace : String → Option String} {text : String}
    (h : ∀ name ∈ visibleNames text, replace name = none) : replaceNames replace text = text :=
  replaceFrom_eq_self h

theorem replaceNames_singleton (replace : String → Option String) {name value : String}
    (hname : QuoteFree name) (hvalue : Balanced value) :
    replaceNames replace (singleton name value) = singleton name (replaceNames replace value) := by
  have hclose : String.join ([plain '\x7d'].map (Segment.rewrite replace)) = "\x7d" := rfl
  rw [replaceNames, ofText_singleton hname hvalue, List.map_append, List.map_append,
    String.join_append, String.join_append, join_rewrite_plain, String.ofList_toList, hclose]
  apply String.toList_injective
  rw [toList_singleton]
  simp [replaceNames]

theorem replaceNames_pair (replace : String → Option String) {left right : String}
    (hleft : Balanced left) (hright : Balanced right) :
    replaceNames replace ("[" ++ left ++ ", " ++ right ++ "]") =
      "[" ++ replaceNames replace left ++ ", " ++ replaceNames replace right ++ "]" := by
  rw [replaceNames, ofText_pair hleft hright]
  apply String.toList_injective
  simp [replaceNames]

/-! ## §5 Visible names -/

theorem filterMap_name?_plain (cs : List Char) : (cs.map plain).filterMap name? = [] := by
  rw [List.filterMap_map, List.filterMap_eq_nil_iff]
  exact fun c _ => rfl

theorem visibleNames_singleton {name value : String} (hname : QuoteFree name)
    (hvalue : Balanced value) : visibleNames (singleton name value) = visibleNames value := by
  have hclose : [plain '\x7d'].filterMap name? = [] := rfl
  rw [visibleNames, ofText_singleton hname hvalue, List.filterMap_append, List.filterMap_append,
    filterMap_name?_plain, hclose, List.nil_append, List.append_nil]
  rfl

theorem visibleNames_pair {left right : String} (hleft : Balanced left) (hright : Balanced right) :
    visibleNames ("[" ++ left ++ ", " ++ right ++ "]") =
      visibleNames left ++ visibleNames right := by
  rw [visibleNames, ofText_pair hleft hright]
  simp [visibleNames, name?, List.filterMap_cons]

/-! ## §6 Contexts -/

/-- Contexts that show what the text inside them shows, and nothing of their own. -/
structure Transparent (context : String → String) : Prop where
  balanced {text : String} : Balanced text → Balanced (context text)
  replaceNames {text : String} (replace : String → Option String) : Balanced text →
    replaceNames replace (context text) = context (replaceNames replace text)
  visibleNames {text : String} : Balanced text → visibleNames (context text) = visibleNames text

theorem transparent_id : Transparent id :=
  ⟨fun h => h, fun _ _ => rfl, fun _ => rfl⟩

theorem transparent_singleton {name : String} (h : QuoteFree name) :
    Transparent (singleton name) where
  balanced := balanced_singleton h
  replaceNames := fun replace => replaceNames_singleton replace h
  visibleNames := visibleNames_singleton h

theorem Transparent.comp {outer inner : String → String} (houter : Transparent outer)
    (hinner : Transparent inner) : Transparent (outer ∘ inner) where
  balanced := fun h => houter.balanced (hinner.balanced h)
  replaceNames := by
    intro text replace h
    rw [Function.comp_apply, houter.replaceNames replace (hinner.balanced h),
      hinner.replaceNames replace h]
    rfl
  visibleNames := by
    intro text h
    rw [Function.comp_apply, houter.visibleNames (hinner.balanced h), hinner.visibleNames h]

/-! ## §7 Texts that are a name -/

/-- Texts that are a name as a whole. -/
structure IsName (text : String) : Prop where
  start : ∃ c ∈ text.toList.head?, isNameStart c = true
  word : text.toList.all isWordChar = true

theorem IsName.append {text rest : String} (h : IsName text)
    (hrest : rest.toList.all isWordChar = true) : IsName (text ++ rest) where
  start := by
    obtain ⟨c, hc, hstart⟩ := h.start
    refine ⟨c, ?_, hstart⟩
    rw [String.toList_append, List.head?_append, Option.mem_def.1 hc]
    rfl
  word := by rw [String.toList_append, List.all_append, h.word, hrest, Bool.and_self]

theorem IsName.ofText_eq {text : String} (h : IsName text) : ofText text = [run text.toList] := by
  obtain ⟨c, hc, _⟩ := h.start
  obtain ⟨cs, hcs⟩ : ∃ cs, text.toList = c :: cs := by
    cases htext : text.toList with
    | nil => simp [htext] at hc
    | cons d cs =>
      rw [htext] at hc
      cases hc
      exact ⟨cs, rfl⟩
  have hword := List.all_eq_true.1 h.word
  rw [ofText, hcs] at *
  exact scan_word hword

theorem IsName.name?_run {text : String} (h : IsName text) : name? (run text.toList) = some text := by
  obtain ⟨c, hc, hstart⟩ := h.start
  cases htext : text.toList with
  | nil => simp [htext] at hc
  | cons d cs =>
    rw [htext] at hc
    cases hc
    rw [name?, if_pos hstart, ← htext, String.ofList_toList]

theorem IsName.visibleNames_eq {text : String} (h : IsName text) : visibleNames text = [text] := by
  rw [visibleNames, h.ofText_eq, List.filterMap_cons, h.name?_run]
  rfl

theorem IsName.replaceNames_eq {text : String} (h : IsName text)
    (replace : String → Option String) :
    replaceNames replace text = (replace text).getD text := by
  have hrun : (run text.toList).rewrite replace = (replace text).getD text := by
    rw [Segment.rewrite, h.name?_run]
    simp [Segment.text, chars]
  rw [replaceNames, h.ofText_eq, List.map_cons, hrun]
  simp

theorem IsName.quoteFree {text : String} (h : IsName text) : QuoteFree text := by
  intro hquote
  exact absurd (List.all_eq_true.1 h.word _ hquote) (by decide)

theorem IsName.balanced {text : String} (h : IsName text) : Balanced text :=
  h.quoteFree.balanced

end QueryPipeline
