import QueryPipeline.Assembly
import QueryPipeline.Proofs.Refusal

/-!
# The stages of a selection

The stages that hold the filters of a selection stand between others that do not depend on them: the
group and project stages come before the HAVING clause, the sort, skip and limit stages after it.

## Main definitions

- `Selection.middle`, `Selection.ending`: the stages that hold no filter.

## Main statements

- `Selection.middle_eq_ok_iff`: what stands between the clauses.
- `Selection.stages_eq`: how the stages of a selection follow each other.
- `Selection.onlyRefuses_middle`: a selection fails for an output in place of the grouping key only.
-/

namespace QueryPipeline

theorem onlyRefuses_accumulators (config : Config) (keys : List String)
    (attributes : List OutputAttribute) : OnlyRefuses (accumulators config keys attributes) := by
  induction attributes with
  | nil => exact .ok _
  | cons a rest ih =>
    unfold accumulators
    split
    · exact ih
    · split
      · exact .error rfl
      · exact ih.bind fun _ => .ok _

namespace Selection

/-- The group stage, if there are columns to group by. -/
def groupStage (config : Config) (s : Selection) : Except CompileError (List Stage) :=
  if s.groupBy.isEmpty then .ok []
  else (groupFields config s.groupBy s.attributes).map fun fields => [.group fields.render]

/-- The project stage, if there are outputs. -/
def projectStage (s : Selection) : List Stage :=
  if s.attributes.isEmpty then [] else [.project (projectFields s.groupBy s.attributes).render]

/-- The stages between the filter and the HAVING clause. -/
def middle (config : Config) (s : Selection) : Except CompileError (List Stage) :=
  (s.groupStage config).map fun group => group ++ s.projectStage

/-- The stages behind the HAVING clause. -/
def ending (s : Selection) : List Stage :=
  (if s.orderBy.isEmpty then [] else [.sort (sortFields s.orderBy).render])
    ++ stageOf s.offset .skip ++ stageOf s.limit .limit

/-- The stages of a selection around those of its clauses. -/
def arranged (s : Selection) (middle : List Stage) : List Stage :=
  stageOf s.filter (fun c => .matching c.fragment) ++ middle
    ++ stageOf s.having (fun c => .having c.fragment) ++ s.ending

/-- **The stages of a selection** in their order. -/
theorem stages_eq (config : Config) (s : Selection) :
    s.stages config = (s.middle config).map s.arranged := by
  -- the stages are written in one row, and fall into parts
  have hparts : ∀ group : List Stage,
      stageOf s.filter (fun c => .matching c.fragment) ++ group ++ s.projectStage
          ++ stageOf s.having (fun c => .having c.fragment)
          ++ (if s.orderBy.isEmpty then [] else [.sort (sortFields s.orderBy).render])
          ++ stageOf s.offset .skip ++ stageOf s.limit .limit =
        s.arranged (group ++ s.projectStage) := by
    intro group
    simp [arranged, ending]
  unfold stages middle groupStage
  by_cases hgroup : s.groupBy.isEmpty
  · rw [if_pos hgroup, if_pos hgroup]
    exact congrArg Except.ok (hparts [])
  · rw [if_neg hgroup, if_neg hgroup]
    cases groupFields config s.groupBy s.attributes with
    | error err => rfl
    | ok fields => exact congrArg Except.ok (hparts [.group fields.render])

/-- The middle is a group stage, if there are columns to group by, and the project stage. -/
theorem middle_eq_ok_iff {config : Config} {s : Selection} {stages : List Stage} :
    s.middle config = .ok stages ↔
      if s.groupBy.isEmpty then stages = s.projectStage
      else ∃ group, groupFields config s.groupBy s.attributes = .ok group ∧
        stages = .group group.render :: s.projectStage := by
  unfold middle groupStage
  cases s.groupBy.isEmpty with
  | true => simp [Except.map, eq_comm]
  | false =>
    simp only [Bool.false_eq_true, if_false, Run.map_eq_ok_iff]
    constructor
    · rintro ⟨_, ⟨group, hgroup, rfl⟩, rfl⟩
      exact ⟨group, hgroup, rfl⟩
    · rintro ⟨group, hgroup, rfl⟩
      exact ⟨_, ⟨group, hgroup, rfl⟩, rfl⟩

theorem onlyRefuses_middle (config : Config) (s : Selection) : OnlyRefuses (s.middle config) := by
  have hfields : OnlyRefuses (groupFields config s.groupBy s.attributes) :=
    (onlyRefuses_accumulators config s.groupBy s.attributes).bind fun _ => .ok _
  have hgroup : OnlyRefuses (s.groupStage config) := by
    unfold groupStage
    split
    · exact .ok _
    · exact hfields.map _
  exact hgroup.map _

end Selection

end QueryPipeline
