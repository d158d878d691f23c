/-!
# JSON values

A JSON value is a scalar, a list or an object.  Objects keep their fields in the order in which they
are written, repeated names included.  Numbers written without fraction and exponent are integers;
all others are floating values.
-/

namespace QueryPipeline

/-- JSON values without parts. -/
inductive Scalar where
  | null
  | bool (b : Bool)
  | int (n : Int)
  | double (x : Float)
  | single (x : Float32)
  | text (s : String)
deriving Repr, DecidableEq

inductive Json where
  | scalar (s : Scalar)
  | list (items : List Json)
  | object (fields : List (String × Json))
deriving Repr

namespace Json

@[match_pattern] def null : Json := .scalar .null

@[match_pattern] def bool (b : Bool) : Json := .scalar (.bool b)

@[match_pattern] def int (n : Int) : Json := .scalar (.int n)

@[match_pattern] def text (s : String) : Json := .scalar (.text s)

/-- A text, or null if there is none. -/
def optionalText : Option String → Json
  | some s => text s
  | none => null

/-- Induction over values.  In a container the statement is at hand for everything it holds. -/
@[elab_as_elim]
theorem induction {motive : Json → Prop} (scalar : ∀ s, motive (.scalar s))
    (list : ∀ items, (∀ j ∈ items, motive j) → motive (.list items))
    (object : ∀ fields, (∀ f ∈ fields, motive f.2) → motive (.object fields)) (j : Json) :
    motive j := by
  refine @Json.rec motive (fun items => ∀ j ∈ items, motive j)
    (fun fields => ∀ f ∈ fields, motive f.2) (fun f => motive f.2)
    scalar list object ?noItem ?item ?noField ?field (fun _ _ h => h) j
  case noItem => exact fun j hj => absurd hj List.not_mem_nil
  case noField => exact fun f hf => absurd hf List.not_mem_nil
  case item =>
    intro first rest hfirst hrest j hj
    rcases List.mem_cons.1 hj with rfl | hj
    · exact hfirst
    · exact hrest j hj
  case field =>
    intro first rest hfirst hrest f hf
    rcases List.mem_cons.1 hf with rfl | hf
    · exact hfirst
    · exact hrest f hf

end Json

end QueryPipeline
