import QueryPipeline.Proofs.DocumentText
import QueryPipeline.Proofs.FieldList
import QueryPipeline.Proofs.Pipeline.Stages
import QueryPipeline.Proofs.Placeholder.Joining

/-!
# How the group and the project stage fit together

Of a grouped selection the group stage computes the outputs and the project stage lays them out.  Both
go over the same outputs, and a later output of a name takes the place of an earlier one in either
stage, though a bare grouping column leaves no trace in the group stage.  For each name the output
that comes last decides, and the project stage looks for it where the group stage has left it.

## Main definitions

- `OutputAttribute.collides`: outputs that would take the place of the grouping key.
- `Projection.accumulation`: what is accumulated for an output.
- `OutputAttribute.LastOf`: the output that decides what its name stands for.
- `OutputAttribute.Agrees`: the two stages fit together on an output.

## Main statements

- `accumulators_eq`: what the group stage accumulates, and when it is refused.
- `Selection.assemble_eq_collision_iff`: a selection fails for an output in place of the grouping key
  exactly if it has one.
- `Selection.grouped_stages_agree`: the stages of a grouped selection fit together.
-/

namespace QueryPipeline

/-! ## §1 Outputs in place of the grouping key -/

/-- Whether an output is no grouping column, but takes the name of the field that holds the grouping
    key. -/
def OutputAttribute.collides (keys : List String) (a : OutputAttribute) : Bool :=
  !isGroupKey keys a.projection && a.name == groupKeyField

/-- What is accumulated for an output: an aggregate accumulates by itself, and of anything else the
    first or the last value is taken, as configured. -/
def Projection.accumulation (config : Config) : Projection → String
  | .aggregate f argument => spelled [(f.spelling, argument.spelling)]
  | p => spelled [(config.fallback.spelling, p.spelling)]

theorem accumulator_eq_accumulation (config : Config) (p : Projection) :
    accumulator config p = p.accumulation config := by
  have hfallback : singleton config.fallback.operator p.render =
      spelled [(config.fallback.spelling, p.spelling)] := by
    rw [config.fallback.operator_eq_spelling, p.render_eq_spelling, singleton_eq_spelled]
  cases p with
  | aggregate f argument => exact Projection.render_eq_spelling (.aggregate f argument)
  | column | constant | masked => exact hfallback

/-- The field of the group stage for an output that is no grouping column. -/
def OutputAttribute.accumulated (config : Config) (a : OutputAttribute) : String × String :=
  (a.name, accumulator config a.projection)

/-- The fields of the group stage for the outputs that are no grouping columns. -/
def accumulatedFields (config : Config) (keys : List String) (attributes : List OutputAttribute) :
    List (String × String) :=
  (attributes.filter fun a => !isGroupKey keys a.projection).map (·.accumulated config)

theorem accumulatedFields_cons (config : Config) (keys : List String) (a : OutputAttribute)
    (rest : List OutputAttribute) :
    accumulatedFields config keys (a :: rest) =
      if isGroupKey keys a.projection then accumulatedFields config keys rest
      else a.accumulated config :: accumulatedFields config keys rest := by
  unfold accumulatedFields
  rw [List.filter_cons]
  cases isGroupKey keys a.projection <;> rfl

/-- **What the group stage accumulates**: every output that is no grouping column, unless one of them
    takes the place of the grouping key. -/
theorem accumulators_eq (config : Config) (keys : List String) (attributes : List OutputAttribute) :
    accumulators config keys attributes =
      if attributes.any (·.collides keys) then .error (.unsupportedOperation .groupKeyCollision)
      else .ok (accumulatedFields config keys attributes) := by
  induction attributes with
  | nil => rfl
  | cons a rest ih =>
    unfold accumulators
    rw [ih, List.any_cons, accumulatedFields_cons, OutputAttribute.collides]
    by_cases hkey : isGroupKey keys a.projection
    · -- a grouping column neither collides nor is accumulated
      simp [hkey]
    · by_cases hname : a.name = groupKeyField
      · simp [hkey, hname]
      · -- the output is accumulated if those behind it are
        have hne : (a.name == groupKeyField) = false := beq_eq_false_iff_ne.2 hname
        simp only [hkey, hname, hne, Bool.and_false, Bool.false_or]
        cases rest.any (·.collides keys) <;> rfl

theorem groupFields_eq (config : Config) (keys : List String) (attributes : List OutputAttribute) :
    groupFields config keys attributes =
      if attributes.any (·.collides keys) then .error (.unsupportedOperation .groupKeyCollision)
      else .ok (.ofList ((groupKeyField, groupKey keys) ::
        accumulatedFields config keys attributes)) := by
  rw [groupFields, accumulators_eq]
  split <;> rfl

section Fields

variable {config : Config} {keys : List String} {attributes : List OutputAttribute}

theorem groupFields_eq_ok_iff {group : FieldList} :
    groupFields config keys attributes = .ok group ↔
      (∀ a ∈ attributes, a.collides keys = false) ∧
        group = .ofList ((groupKeyField, groupKey keys) ::
          accumulatedFields config keys attributes) := by
  have hfree : (∀ a ∈ attributes, a.collides keys = false) ↔
      attributes.any (·.collides keys) = false := by
    simp
  rw [groupFields_eq, hfree]
  cases attributes.any (·.collides keys) <;> simp [eq_comm]

theorem groupFields_eq_error_iff {err : CompileError} :
    groupFields config keys attributes = .error err ↔
      (∃ a ∈ attributes, a.collides keys) ∧ err = .unsupportedOperation .groupKeyCollision := by
  rw [groupFields_eq, ← List.any_eq_true]
  cases attributes.any (·.collides keys) <;> simp [eq_comm]

end Fields

/-! ## §2 The grouping key -/

theorem isGroupKey_iff {keys : List String} {p : Projection} :
    isGroupKey keys p = true ↔ ∃ column ∈ keys, p = .column column := by
  cases p <;> simp [isGroupKey, Projection.column?]

/-- The fields of a grouping key of several columns: each column once, where it first comes up. -/
def keyFields (keys : List String) : List (String × String) :=
  keys.eraseDups.map fun key => (key, "'$" ++ key ++ "'")

theorem groupKey_of_two_le {keys : List String} (h : 2 ≤ keys.length) :
    groupKey keys = spelled (keyFields keys) := by
  have hdocument : groupKey keys = (FieldList.ofList (keys.map fun k => (k, fieldPath k))).render := by
    match keys, h with
    | _ :: _ :: _, _ => rfl
  rw [hdocument, FieldList.render_eq_spelled, FieldList.fields_ofList_of_names]
  rfl

theorem mem_keyFields {keys : List String} {column : String} (h : column ∈ keys) :
    (column, "'$" ++ column ++ "'") ∈ keyFields keys :=
  List.mem_map.2 ⟨column, List.mem_eraseDups.2 h, rfl⟩

/-! ## §3 One output in both stages -/

namespace OutputAttribute

/-- An output is the last of its name. -/
def LastOf (attributes : List OutputAttribute) (a : OutputAttribute) : Prop :=
  ∃ before after, attributes = before ++ a :: after ∧ ∀ later ∈ after, later.name ≠ a.name

/-- **The group and the project stage fit together on an output.**

    - The only grouping column is the grouping key itself.
    - One of several grouping columns is a field of the grouping key.
    - Anything else is accumulated under its name. -/
structure Agrees (config : Config) (keys : List String) (group project : FieldList)
    (a : OutputAttribute) : Prop where
  onlyKey : ∀ column, a.projection = .column column → keys = [column] →
    ("_id", "'$" ++ column ++ "'") ∈ group.fields ∧ (a.name, "'$_id'") ∈ project.fields
  oneOfSeveral : ∀ column, a.projection = .column column → column ∈ keys → 2 ≤ keys.length →
    (∃ fields, ("_id", spelled fields) ∈ group.fields ∧
      (column, "'$" ++ column ++ "'") ∈ fields) ∧
      (a.name, "'$_id." ++ column ++ "'") ∈ project.fields
  accumulated : (∀ column ∈ keys, a.projection ≠ .column column) →
    (a.name, a.projection.accumulation config) ∈ group.fields ∧
      (a.name, "'$" ++ a.name ++ "'") ∈ project.fields

end OutputAttribute

section Output

variable {config : Config} {keys : List String} {attributes : List OutputAttribute}
  {a : OutputAttribute}

/-- The project stage has the value of the last output of a name. -/
theorem mem_projectFields (h : a.LastOf attributes) :
    (a.name, projectValue keys a) ∈ (projectFields keys attributes).fields := by
  obtain ⟨before, after, rfl, hafter⟩ := h
  rw [projectFields, List.map_append, List.map_cons, ← List.cons_append,
    ← FieldList.get?_eq_some_iff]
  apply FieldList.get?_ofList_of_last
  simpa using hafter

/-- No output takes the place of the grouping key. -/
theorem groupKey_mem_groupFields {group : FieldList}
    (h : groupFields config keys attributes = .ok group) :
    (groupKeyField, groupKey keys) ∈ group.fields := by
  obtain ⟨hfree, rfl⟩ := groupFields_eq_ok_iff.1 h
  rw [← FieldList.get?_eq_some_iff]
  apply @FieldList.get?_ofList_of_last []
  simp only [accumulatedFields, List.map_map, List.mem_map, List.mem_filter, not_exists, not_and]
  -- an accumulated output of that name would collide
  rintro b ⟨hb, hkey⟩ hname
  have hcollides : b.collides keys = true := by
    rw [OutputAttribute.collides, hkey]
    exact beq_iff_eq.2 hname
  rw [hfree b hb] at hcollides
  cases hcollides

/-- The group stage has the accumulator of the last output of a name, if that is no grouping column. -/
theorem mem_groupFields {group : FieldList} (h : groupFields config keys attributes = .ok group)
    (ha : a.LastOf attributes) (hkey : isGroupKey keys a.projection = false) :
    (a.name, a.projection.accumulation config) ∈ group.fields := by
  obtain ⟨_, rfl⟩ := groupFields_eq_ok_iff.1 h
  obtain ⟨before, after, rfl, hafter⟩ := ha
  rw [accumulatedFields, List.filter_append, List.filter_cons, hkey, Bool.not_false, if_pos rfl,
    List.map_append, List.map_cons, ← List.cons_append, OutputAttribute.accumulated,
    accumulator_eq_accumulation, ← FieldList.get?_eq_some_iff]
  apply FieldList.get?_ofList_of_last
  -- of the outputs behind, those that are accumulated have other names too
  simp only [List.map_map, List.mem_map, List.mem_filter, not_exists, not_and]
  rintro later ⟨hlater, _⟩
  exact hafter later hlater

/-- **One output in both stages.**  The last output of a name is where the project stage looks. -/
theorem OutputAttribute.LastOf.agrees {group : FieldList} (ha : a.LastOf attributes)
    (h : groupFields config keys attributes = .ok group) (hkeys : keys ≠ []) :
    a.Agrees config keys group (projectFields keys attributes) := by
  have hproject : (a.name, projectValue keys a) ∈ (projectFields keys attributes).fields :=
    mem_projectFields ha
  have hkey := groupKey_mem_groupFields h
  have hkeys' : keys.isEmpty = false := by simpa using hkeys
  constructor
  case onlyKey =>
    intro column hcolumn hone
    have hvalue : projectValue keys a = "'$_id'" := by
      rw [projectValue, hcolumn]
      simp [hone, Projection.column?, fieldPath, groupKeyField]
    rw [hvalue] at hproject
    rw [hone] at hkey
    exact ⟨hkey, hproject⟩
  case oneOfSeveral =>
    intro column hcolumn hmem hlength
    -- several keys are not the column alone, even if they all are that column
    have hne : keys ≠ [column] := by
      rintro rfl
      simp at hlength
    have hvalue : projectValue keys a = "'$_id." ++ column ++ "'" := by
      rw [projectValue, hcolumn]
      simp [hkeys', hne, hmem, Projection.column?, fieldPath, groupKeyField, ← String.append_assoc]
    rw [hvalue] at hproject
    rw [groupKey_of_two_le hlength] at hkey
    exact ⟨⟨keyFields keys, hkey, mem_keyFields hmem⟩, hproject⟩
  case accumulated =>
    intro hother
    have hcolumnless : isGroupKey keys a.projection = false := by
      rw [← Bool.not_eq_true, isGroupKey_iff]
      rintro ⟨column, hmem, hcolumn⟩
      exact hother column hmem hcolumn
    have hvalue : projectValue keys a = fieldPath a.name := by
      rw [projectValue]
      cases hp : a.projection with
      | column column =>
        have hmem : column ∉ keys := fun hmem => hother column hmem hp
        have hne : keys ≠ [column] := by
          rintro rfl
          exact hmem (List.mem_singleton_self _)
        simp [hkeys', hmem, hne, Projection.column?]
      | constant | masked | aggregate => simp [hkeys', Projection.column?]
    rw [hvalue] at hproject
    exact ⟨mem_groupFields h ha hcolumnless, hproject⟩

end Output

/-! ## §4 Grouped selections -/

/-- Whether a stage groups or lays out outputs. -/
def Stage.laysOut : Stage → Bool
  | .group _ => true
  | .project _ => true
  | _ => false

namespace Selection

/-- The stages around the middle do neither. -/
theorem filter_laysOut_arranged (s : Selection) (middle : List Stage) :
    (s.arranged middle).filter Stage.laysOut = middle.filter Stage.laysOut := by
  unfold arranged ending stageOf
  cases s.filter <;> cases s.having <;> cases s.offset <;> cases s.limit <;>
    cases s.orderBy.isEmpty <;> simp [Stage.laysOut]

theorem stages_eq_ok_of_grouped {config : Config} {s : Selection} (hkeys : s.groupBy ≠ [])
    {stages : List Stage} (h : s.stages config = .ok stages) :
    ∃ group, groupFields config s.groupBy s.attributes = .ok group ∧
      stages = s.arranged (.group group.render :: s.projectStage) := by
  have hkeys' : s.groupBy.isEmpty = false := by simpa using hkeys
  rw [stages_eq, Run.map_eq_ok_iff] at h
  obtain ⟨middle, hmiddle, rfl⟩ := h
  rw [middle_eq_ok_iff, hkeys', if_neg Bool.false_ne_true] at hmiddle
  obtain ⟨group, hgroup, rfl⟩ := hmiddle
  exact ⟨group, hgroup, rfl⟩

/-- **The stages of a selection fail** for an output in place of the grouping key only. -/
theorem stages_eq_error_iff {config : Config} {s : Selection} {err : CompileError} :
    s.stages config = .error err ↔
      s.groupBy ≠ [] ∧ (∃ a ∈ s.attributes, a.collides s.groupBy) ∧
        err = .unsupportedOperation .groupKeyCollision := by
  rw [← @groupFields_eq_error_iff config, stages_eq, Selection.middle, groupStage]
  cases s.groupBy with
  | nil => simp [Except.map]
  | cons key rest =>
    cases groupFields config (key :: rest) s.attributes <;> simp [Except.map]

/-- What the HAVING clause fails for is no collision with the grouping key, but a placeholder that
    the filter has too. -/
theorem assemble_eq_collision_iff {config : Config} {s : Selection} :
    s.assemble config = .error (.unsupportedOperation .groupKeyCollision) ↔
      s.groupBy ≠ [] ∧ ∃ a ∈ s.attributes, a.collides s.groupBy := by
  have hstages : s.stages config = .error (.unsupportedOperation .groupKeyCollision) ↔
      s.groupBy ≠ [] ∧ ∃ a ∈ s.attributes, a.collides s.groupBy := by
    simp [stages_eq_error_iff]
  rw [← hstages, assemble_eq, Run.bind_eq_error_iff, or_iff_left_iff_imp]
  rintro ⟨stages, _, h⟩
  exfalso
  cases hhaving : (absorbClause s.having).eval s.filterPlaceholders with
  | ok _ =>
    simp only [Run.eval] at hhaving
    simp only [hhaving] at h
    cases h
  | error err =>
    obtain ⟨name, rfl⟩ := exists_shared_of_absorbClause hhaving
    simp only [Run.eval] at hhaving
    simp only [hhaving] at h
    cases h

/-- **The group and the project stage of a grouped selection fit together.**

    A selection that assembles has one group stage, and one project stage if it has outputs.  Their
    bodies spell fields that agree on the last output of every name.  The grouping key stays in its
    place: one column stands by itself, several make a document with each column once, in order.

    A selection is refused for an output in place of the grouping key exactly if it has one, and a
    selection whose clauses share no placeholder is refused for nothing else. -/
theorem grouped_stages_agree (config : Config) (s : Selection) (hkeys : s.groupBy ≠ []) :
    (∀ p, s.assemble config = .ok p →
      ∃ group project : FieldList,
        p.stages.filter Stage.laysOut = .group (spelled group.fields) ::
          (if s.attributes.isEmpty then [] else [.project (spelled project.fields)]) ∧
        (∀ a : OutputAttribute, a.LastOf s.attributes → a.Agrees config s.groupBy group project) ∧
        (∀ column, s.groupBy = [column] → ("_id", "'$" ++ column ++ "'") ∈ group.fields) ∧
        (2 ≤ s.groupBy.length →
          ("_id", spelled (s.groupBy.eraseDups.map fun key => (key, "'$" ++ key ++ "'"))) ∈
            group.fields)) ∧
    (s.assemble config = .error (.unsupportedOperation .groupKeyCollision) ↔
      ∃ a ∈ s.attributes, a.name = "_id" ∧ ∀ column ∈ s.groupBy, a.projection ≠ .column column) ∧
    ((s.clauses.map CompiledFragment.placeholders).Pairwise Placeholders.Apart →
      ∀ err, s.assemble config = .error err →
        err = .unsupportedOperation .groupKeyCollision) := by
  refine ⟨?_, ?_, ?_⟩
  · intro p hp
    rw [assemble_eq, Run.bind_eq_ok_iff] at hp
    obtain ⟨stages, hstages, hp⟩ := hp
    obtain ⟨_, _, rfl⟩ := Run.map_eq_ok_iff.1 hp
    obtain ⟨group, hgroup, rfl⟩ := stages_eq_ok_of_grouped hkeys hstages
    have hkey := groupKey_mem_groupFields hgroup
    refine ⟨group, projectFields s.groupBy s.attributes, ?_, ?_, ?_, ?_⟩
    · rw [filter_laysOut_arranged, projectStage]
      cases s.attributes.isEmpty <;> rfl
    · intro a ha
      exact ha.agrees hgroup hkeys
    · intro column hcolumn
      rw [hcolumn] at hkey
      exact hkey
    · intro hlength
      rw [groupKey_of_two_le hlength] at hkey
      exact hkey
  · rw [assemble_eq_collision_iff, and_iff_right hkeys]
    refine exists_congr fun a => and_congr_right fun _ => ?_
    rw [OutputAttribute.collides, Bool.and_eq_true, Bool.not_eq_true', ← Bool.not_eq_true,
      isGroupKey_iff, beq_iff_eq, and_comm]
    simp [groupKeyField]
  · intro hapart err herr
    rw [assemble_eq_error_iff_of_apart hapart, stages_eq_error_iff] at herr
    exact herr.2.2

end Selection

/-- Two keys, one of them twice, a name that two outputs have, a key under the name of the grouping
    key, and an output that is neither a key nor an aggregate. -/
def repeatedKeys : Selection where
  attributes :=
    [⟨"total", .column "city"⟩, ⟨"total", .aggregate .sum (.column "price")⟩,
      ⟨"when", .column "year"⟩, ⟨"_id", .column "city"⟩, ⟨"owner", .column "name"⟩]
  groupBy := ["city", "year", "city"]

theorem Selection.grouped_stages_agree_repeatedKeys :
    ∃ (p : Pipeline) (group project : FieldList),
      repeatedKeys.assemble { fallback := .last } = .ok p ∧
      p.stages.filter Stage.laysOut =
        [.group (spelled group.fields), .project (spelled project.fields)] ∧
      ("_id", "\x7b'city': '$city', 'year': '$year'\x7d") ∈ group.fields ∧
      ("_id", "'$_id.city'") ∈ project.fields ∧
      ("total", "\x7b'$sum': '$price'\x7d") ∈ group.fields ∧
      ("total", "'$total'") ∈ project.fields ∧
      ("owner", "\x7b'$last': '$name'\x7d") ∈ group.fields ∧
      ("owner", "'$owner'") ∈ project.fields ∧
      ∀ a ∈ repeatedKeys.attributes, ¬ (a.name = "_id" ∧
        ∀ column ∈ repeatedKeys.groupBy, a.projection ≠ .column column) := by
  have hassembles : (repeatedKeys.assemble { fallback := .last }).isOk = true := by decide +kernel
  obtain ⟨p, hp⟩ := Run.exists_eq_ok hassembles
  obtain ⟨hstages, hcollision, _⟩ :=
    grouped_stages_agree { fallback := .last } repeatedKeys (by decide)
  obtain ⟨group, project, hbodies, hagree, _, hkey⟩ := hstages p hp
  have hid := hagree ⟨"_id", .column "city"⟩ ⟨[_, _, _], [_], rfl, by simp⟩
  have htotal := hagree ⟨"total", .aggregate .sum (.column "price")⟩ ⟨[_], _, rfl, by simp⟩
  have howner := hagree ⟨"owner", .column "name"⟩ ⟨[_, _, _, _], [], rfl, nofun⟩
  obtain ⟨hsum, htotal⟩ := htotal.accumulated (by simp)
  obtain ⟨hlast, howner⟩ := howner.accumulated (by decide)
  have hdocument : spelled (repeatedKeys.groupBy.eraseDups.map fun key =>
      (key, "'$" ++ key ++ "'")) = "\x7b'city': '$city', 'year': '$year'\x7d" := by
    decide +kernel
  have hcompound := hkey (by decide)
  rw [hdocument] at hcompound
  refine ⟨p, group, project, hp, hbodies, hcompound,
    (hid.oneOfSeveral "city" rfl (by decide) (by decide)).2, hsum, htotal, hlast, howner, ?_⟩
  -- the key under that name is none of the outputs that are refused
  intro a ha hcollides
  rw [hcollision.2 ⟨a, ha, hcollides⟩] at hp
  cases hp

end QueryPipeline
