import QueryPipeline.Proofs.Assignment.Direct
import QueryPipeline.Proofs.Filter.Grammar
import QueryPipeline.Proofs.Pipeline.Stages
import QueryPipeline.Proofs.Projection.Direct
import QueryPipeline.Session

/-!
# What a step of a session keeps to

Whatever a session is asked to do, and whether it succeeds or fails half-way, the configuration
stays, the numbering does not go back, and a failure is a refusal.  What a step gives out on success
holds only placeholders that were numbered during that step.

## Main definitions

- `Session.Keeps`: the contract of a step.

## Main statements

- `Session.Keeps.bind`: the contract of a sequence of steps.
- `Session.keeps_filter`, `Session.keeps_having`, `Session.keeps_assignment`: one clause.
- `Session.keeps_query`, `Session.keeps_update`: several clauses together.
-/

namespace QueryPipeline

namespace Session

variable {α β : Type} {s : Session} {step : Run Session α} {next : α → Run Session β}
  {post : α → Sequence → Prop} {post' : β → Sequence → Prop}

/-! ## §1 The contract of a step -/

/-- What a step keeps to when it is taken in a given session.  On success its result and the
    numbering that is reached meet `post`. -/
structure Keeps (s : Session) (step : Run Session α) (post : α → Sequence → Prop) : Prop where
  config : (step.exec s).2.config = s.config
  forward : s.sequence ≤ (step.exec s).2.sequence
  refuses : OnlyRefuses (step.eval s)
  meets : ∀ a, step.eval s = .ok a → post a (step.exec s).2.sequence

/-- A step that leaves the session alone. -/
theorem Keeps.of_stateless {r : Except CompileError α} (hexec : step.exec s = (r, s))
    (hr : OnlyRefuses r) (hpost : ∀ a, r = .ok a → post a s.sequence) : Keeps s step post where
  config := by rw [hexec]
  forward := by
    rw [hexec]
    exact s.sequence.le_refl
  refuses := by
    rw [Run.eval, hexec]
    exact hr
  meets := by
    intro a ha
    rw [Run.eval, hexec] at ha
    rw [hexec]
    exact hpost a ha

theorem Keeps.pure {a : α} (h : post a s.sequence) : Keeps s (Pure.pure a) post := by
  refine .of_stateless (Run.exec_pure a s) (.ok a) fun b hb => ?_
  cases hb
  exact h

/-- The second of two steps starts in the session that the first one leaves. -/
theorem Keeps.bind (h : Keeps s step post)
    (hnext : ∀ a s', s'.config = s.config → s.sequence ≤ s'.sequence → post a s'.sequence →
      Keeps s' (next a) post') : Keeps s (step >>= next) post' := by
  obtain ⟨hconfig, hforward, hrefuses, hmeets⟩ := h
  unfold Run.eval at hrefuses hmeets
  rcases hexec : step.exec s with ⟨outcome, s'⟩
  rw [hexec] at hconfig hforward hrefuses hmeets
  cases outcome with
  | error err =>
    -- a failure of the first step ends the sequence
    have hbind : (step >>= next).exec s = (.error err, s') := by rw [Run.exec_bind, hexec]
    refine ⟨?_, ?_, ?_, ?_⟩
    · rw [hbind]
      exact hconfig
    · rw [hbind]
      exact hforward
    · rw [Run.eval, hbind]
      exact .error (hrefuses err rfl)
    · intro b hb
      rw [Run.eval, hbind] at hb
      cases hb
  | ok a =>
    have hbind : (step >>= next).exec s = (next a).exec s' := Run.exec_bind_ok hexec
    obtain ⟨hconfig', hforward', hrefuses', hmeets'⟩ := hnext a s' hconfig hforward (hmeets a rfl)
    unfold Run.eval at hrefuses' hmeets'
    refine ⟨?_, ?_, ?_, ?_⟩
    · rw [hbind, hconfig', hconfig]
    · rw [hbind]
      exact Sequence.le_trans hforward hforward'
    · rw [Run.eval, hbind]
      exact hrefuses'
    · intro b hb
      rw [Run.eval, hbind] at hb
      rw [hbind]
      exact hmeets' b hb

/-- Steps that do the same in a session keep to the same. -/
theorem Keeps.congr {other : Run Session α} (hexec : step.exec s = other.exec s)
    (h : Keeps s other post) : Keeps s step post := by
  obtain ⟨hconfig, hforward, hrefuses, hmeets⟩ := h
  unfold Run.eval at hrefuses hmeets
  rw [← hexec] at hconfig hforward hrefuses hmeets
  exact ⟨hconfig, hforward, hrefuses, hmeets⟩

/-! ## §2 One clause -/

/-- A clause was numbered from where a session stood, and the session goes on behind it. -/
def Numbers (s : Session) (e : Expr) (c : CompiledFragment) (t : Sequence) : Prop :=
  c.NumberedFrom s.sequence e ∧ t = c.sequence

theorem Numbers.issued {e : Expr} {c : CompiledFragment} {t : Sequence} (h : Numbers s e c t) :
    ∀ name ∈ c.placeholders.names, s.sequence.Issued t name := by
  obtain ⟨hnumbered, rfl⟩ := h
  exact fun name hname => hnumbered.issued hname

/-- A finished clause moves the numbering on by its variables and constants. -/
theorem keeps_advance {r : Except CompileError CompiledFragment} {e : Expr} (hr : OnlyRefuses r)
    (hnumbered : ∀ c, r = .ok c → c.NumberedFrom s.sequence e) :
    Keeps s (advance r) (Numbers s e) := by
  cases r with
  | error err =>
    refine .of_stateless (r := .error err) ?_ hr fun c hc => ?_
    · rfl
    · cases hc
  | ok c =>
    have hc := hnumbered c rfl
    have hexec : (advance (.ok c)).exec s = (.ok c, { s with sequence := c.sequence }) := rfl
    refine ⟨by rw [hexec], ?_, ?_, ?_⟩
    · rw [hexec, hc.sequence]
      exact s.sequence.le_advance e.entries
    · rw [Run.eval, hexec]
      exact .ok c
    · intro a ha
      rw [Run.eval, hexec] at ha
      cases ha
      exact ⟨hc, rfl⟩

theorem exec_filter (s : Session) (e : Expr) :
    (filter e).exec s = (advance (compileFilter s.config s.sequence e)).exec s :=
  rfl

theorem exec_having (s : Session) (e : Expr) :
    (having e).exec s = (advance (compileHaving s.config s.sequence e)).exec s :=
  rfl

theorem exec_assignment (s : Session) (e : Expr) :
    (assignment e).exec s = (advance (compileAssignment s.sequence e)).exec s :=
  rfl

theorem keeps_compile (s : Session) (clause : FilterClause) (e : Expr) :
    Keeps s (advance ((FilterCompiler.start s.config clause s.sequence).compile e)) (Numbers s e) := by
  refine keeps_advance (FilterCompiler.onlyRefuses_compile s.config clause s.sequence e) ?_
  intro c hc
  obtain ⟨_, _, _, hnumbered⟩ := FilterCompiler.compile_eq_ok hc
  exact hnumbered

theorem keeps_filter (s : Session) (e : Expr) : Keeps s (filter e) (Numbers s e) :=
  .congr (exec_filter s e) (keeps_compile s .matching e)

theorem keeps_having (s : Session) (e : Expr) : Keeps s (having e) (Numbers s e) :=
  .congr (exec_having s e) (keeps_compile s .having e)

theorem keeps_assignment (s : Session) (e : Expr) : Keeps s (assignment e) (Numbers s e) := by
  apply Keeps.congr (exec_assignment s e)
  apply keeps_advance (onlyRefuses_compileAssignment s.sequence e)
  intro c hc
  exact numberedFrom_of_compileAssignment hc

/-- A clause that may be absent. -/
theorem keeps_mapM_option {step : Expr → Run Session CompiledFragment}
    (hstep : ∀ e, Keeps s (step e) (Numbers s e)) (clause : Option Expr) :
    Keeps s (clause.mapM step) fun compiled t =>
      ∀ c ∈ compiled, ∀ name ∈ c.placeholders.names, s.sequence.Issued t name := by
  cases clause with
  | none =>
    rw [Option.mapM_none]
    exact .pure fun c hc => nomatch hc
  | some e =>
    rw [Option.mapM_some]
    refine (hstep e).bind fun c s' _ _ hnumbers => .pure ?_
    intro c' hc'
    cases hc'
    exact hnumbers.issued

/-! ## §3 Projections and keys -/

theorem keeps_projection (s : Session) (e : Expr) :
    Keeps s (projection e) fun _ t => t = s.sequence :=
  .of_stateless (Run.exec_lift _ s) (onlyRefuses_compileProjection e) fun _ _ => rfl

theorem keeps_key (s : Session) (e : Expr) : Keeps s (key e) fun _ t => t = s.sequence :=
  .of_stateless (Run.exec_lift _ s) (onlyRefuses_compileKey e) fun _ _ => rfl

/-- A list of projections or keys leaves the session alone. -/
theorem keeps_mapM_stateless {γ : Type} (step : γ → Run Session α)
    (f : γ → Except CompileError α) (hexec : ∀ a, (step a).exec s = (f a, s))
    (hf : ∀ a, OnlyRefuses (f a)) (l : List γ) :
    Keeps s (l.mapM step) fun _ t => t = s.sequence :=
  .of_stateless (Run.exec_mapM_stateless hexec l) (.mapM hf l) fun _ _ => rfl

end Session

/-! ## §4 Queries -/

/-- An output compiled. -/
def SelectItem.compile (item : SelectItem) : Except CompileError OutputAttribute :=
  (compileProjection item.expression).map fun p => ⟨item.name, p⟩

/-- A sort key compiled. -/
def OrderItem.compile (item : OrderItem) : Except CompileError SortKey :=
  (compileKey item.expression).map fun field => ⟨field, item.order⟩

namespace Session

/-- Clauses that were numbered one after the other make a pipeline whose placeholders were all
    numbered meanwhile. -/
theorem keeps_assemble {t u : Sequence} (config : Config) {sel : Selection}
    (htu : t ≤ u) (hus : u ≤ s.sequence)
    (hfilter : ∀ c ∈ sel.filter, ∀ name ∈ c.placeholders.names, t.Issued u name)
    (hhaving : ∀ c ∈ sel.having, ∀ name ∈ c.placeholders.names, u.Issued s.sequence name) :
    Keeps s (Run.lift (sel.assemble config)) fun p end' =>
      ∀ name ∈ p.placeholders.names, t.Issued end' name := by
  have hapart := Selection.apart_of_issued hfilter hhaving
  have hassemble := Selection.assemble_of_apart config hapart
  refine .of_stateless (Run.exec_lift _ s) ?_ ?_
  · rw [hassemble, Selection.stages_eq]
    exact ((sel.onlyRefuses_middle config).map _).bind fun _ => .ok _
  · intro p hp name hname
    rw [hassemble] at hp
    obtain ⟨stages, _, hp⟩ := Run.bind_eq_ok_iff.1 hp
    cases hp
    -- a name of the pipeline is one of the filter or one of the HAVING clause
    rcases Placeholders.mem_names_joinedAll.1 hname with hname | ⟨table, htable, hname⟩
    · cases hname
    · obtain ⟨c, hc, rfl⟩ := List.mem_map.1 htable
      rcases List.mem_append.1 hc with hc | hc
      · exact (hfilter c (Option.mem_toList.1 hc) name hname).mono t.le_refl hus
      · exact (hhaving c (Option.mem_toList.1 hc) name hname).mono htu s.sequence.le_refl

/-- **A query** gives out only placeholders that it has numbered. -/
theorem keeps_query (s : Session) (q : Query) :
    Keeps s (query q) fun p t => ∀ name ∈ p.placeholders.names, s.sequence.Issued t name := by
  refine (keeps_mapM_option (keeps_filter s) q.filter).bind fun filter s₁ _ hle₁ hfilter => ?_
  -- outputs and keys leave the session alone
  refine (keeps_mapM_stateless _ SelectItem.compile (fun _ => Run.exec_lift_bind_pure _ _ s₁)
    (fun item => (onlyRefuses_compileProjection item.expression).map _) q.select).bind
    fun attributes s₂ _ _ hs₂ => ?_
  refine (keeps_mapM_stateless _ compileKey (fun _ => Run.exec_lift _ s₂) onlyRefuses_compileKey
    q.groupBy).bind fun groupBy s₃ _ _ hs₃ => ?_
  refine (keeps_mapM_option (keeps_having s₃) q.having).bind fun having s₄ _ hle₄ hhaving => ?_
  refine (keeps_mapM_stateless _ OrderItem.compile (fun _ => Run.exec_lift_bind_pure _ _ s₄)
    (fun item => (onlyRefuses_compileKey item.expression).map _) q.orderBy).bind
    fun orderBy s₅ _ _ hs₅ => ?_
  refine .congr (Run.exec_bind_ok (Run.exec_get s₅)) ?_
  rw [hs₃, hs₂, ← hs₅] at hhaving hle₄
  exact keeps_assemble s₅.config hle₁ hle₄ hfilter hhaving

/-! ## §5 Updates -/

/-- The assignments of an update give out only placeholders that were numbered for them, and no two
    of them share one. -/
theorem keeps_assignments (s : Session) (assignments : List (String × Expr)) :
    Keeps s (assignments.mapM fun a => do return (a.1, ← assignment a.2)) fun compiled t =>
      (compiled.map fun a => a.2.placeholders).Pairwise Placeholders.Apart ∧
        ∀ a ∈ compiled, ∀ name ∈ a.2.placeholders.names, s.sequence.Issued t name := by
  induction assignments generalizing s with
  | nil =>
    refine .pure ⟨.nil, ?_⟩
    intro a ha
    cases ha
  | cons first rest ih =>
    rw [List.mapM_cons]
    have hfirst : Keeps s (do return (first.1, ← assignment first.2)) fun a t =>
        ∀ name ∈ a.2.placeholders.names, s.sequence.Issued t name :=
      (keeps_assignment s first.2).bind fun c s' _ _ hnumbers => .pure hnumbers.issued
    refine hfirst.bind fun a s₁ _ hle₁ ha => ?_
    refine (ih s₁).bind fun compiled s₂ _ hle₂ hcompiled => .pure ?_
    obtain ⟨hapart, hissued⟩ := hcompiled
    -- the first assignment was numbered before all the others
    refine ⟨List.pairwise_cons.2 ⟨?_, hapart⟩, ?_⟩
    · intro table htable
      obtain ⟨b, hb, rfl⟩ := List.mem_map.1 htable
      exact apart_of_issued s₁.sequence.le_refl ha (hissued b hb)
    · intro b hb name hname
      rcases List.mem_cons.1 hb with rfl | hb
      · exact (ha name hname).mono s.sequence.le_refl hle₂
      · exact (hissued b hb name hname).mono hle₁ s₂.sequence.le_refl

/-- **An update** gives out only placeholders that it has numbered. -/
theorem keeps_update (s : Session) (assignments : List (String × Expr)) :
    Keeps s (update assignments) fun u t =>
      ∀ name ∈ u.placeholders.names, s.sequence.Issued t name := by
  refine (keeps_assignments s assignments).bind fun compiled s₁ _ _ hcompiled => ?_
  obtain ⟨hapart, hissued⟩ := hcompiled
  by_cases hne : compiled = []
  · -- an update without assignments is refused
    subst hne
    refine .of_stateless (Run.exec_lift _ s₁) (.error rfl) ?_
    intro u hu
    cases hu
  · refine .of_stateless (Run.exec_lift _ s₁) ?_ ?_
    · rw [Update.assemble_of_apart hne hapart]
      exact .ok _
    · intro u hu name hname
      rw [Update.assemble_of_apart hne hapart] at hu
      cases hu
      rcases Placeholders.mem_names_joinedAll.1 hname with hname | ⟨table, htable, hname⟩
      · cases hname
      · obtain ⟨a, ha, rfl⟩ := List.mem_map.1 htable
        exact hissued a ha name hname

end Session

end QueryPipeline
