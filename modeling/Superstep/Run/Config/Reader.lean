import Superstep.Json.Parser
import Superstep.Run.Config
import Superstep.Word

/-!
# Configurations as JSON

A configuration is written as an object with its fields, or as an array with the values of its
fields in order. Fields may be missing: of an object any, of an array the last ones. `Given` keeps
what is given, and `Given.complete` fills in the rest.

Members of an object that are no fields are ignored, but a field must not be given twice. A choice
without a value, such as `"all"`, may also be written as an object with the value null.
-/

namespace Superstep

namespace Config

/-- What is given of a configuration. -/
structure Given where
  concurrency : Option Nat
  maxIterations : Option Nat
  combiner : Option Combiner
  initialActive : Option InitialActive
  progressBatchSize : Option Nat
deriving DecidableEq

/-- The fields of a configuration. -/
inductive Field where
  | concurrency
  | maxIterations
  | combiner
  | initialActive
  | progressBatchSize
deriving DecidableEq

namespace Field

/-- The name of a field. -/
def name : Field → String
  | .concurrency => "concurrency"
  | .maxIterations => "max_iterations"
  | .combiner => "combiner"
  | .initialActive => "initial_active"
  | .progressBatchSize => "progress_batch_size"

/-- All fields in order. -/
def all : List Field :=
  [.concurrency, .maxIterations, .combiner, .initialActive, .progressBatchSize]

/-- The field with the given name. -/
def ofName? (name : String) : Option Field := all.find? (·.name = name)

end Field

/-! ## Values of fields -/

/-- Reads a number of 64 bits. -/
def readWord? (value : Json) : Option Nat := value.nat? wordLimit

/-- Reads a choice: its name, and its value if it has one. -/
def readChoice? : Json → Option (String × Option Json)
  | .text written => (Json.decode? written).map fun name => (name, none)
  | .object [(key, value)] => (Json.decode? key).map fun name => (name, some value)
  | _ => none

/-- Whether a choice that takes no value is written as such. -/
def isPlain : Option Json → Bool
  | none => true
  | some .null => true
  | some _ => false

/-- Reads the name of a combiner. -/
def readCombiner? (value : Json) : Option Combiner := do
  let (name, value) ← readChoice? value
  if isPlain value then Combiner.ofName? name else none

/-- Reads the nodes that are active at first. -/
def readInitialActive? (value : Json) : Option InitialActive := do
  let (name, value) ← readChoice? value
  match name, value with
  | "all", value => if isPlain value then some .all else none
  | "nodes", some (.array ids) =>
    (ids.mapM readWord?).map fun ids => .nodes (ids.map NodeId.ofIndex)
  | _, _ => none

namespace Given

/-- Nothing is given. -/
def nothing : Given := ⟨none, none, none, none, none⟩

/-- Whether a field is given. -/
def has (g : Given) : Field → Bool
  | .concurrency => g.concurrency.isSome
  | .maxIterations => g.maxIterations.isSome
  | .combiner => g.combiner.isSome
  | .initialActive => g.initialActive.isSome
  | .progressBatchSize => g.progressBatchSize.isSome

/-- Reads the value of a field. -/
def readField? (g : Given) (value : Json) : Field → Option Given
  | .concurrency => (readWord? value).map fun n => { g with concurrency := some n }
  | .maxIterations => (value.nat? halfWordLimit).map fun n => { g with maxIterations := some n }
  | .combiner => (readCombiner? value).map fun kind => { g with combiner := some kind }
  | .initialActive => (readInitialActive? value).map fun a => { g with initialActive := some a }
  | .progressBatchSize => (readWord? value).map fun n => { g with progressBatchSize := some n }

/-- Reads a member of an object. -/
def readMember? (g : Given) (member : String × Json) : Option Given := do
  let name ← Json.decode? member.1
  match Field.ofName? name with
  | none => some g
  | some field => if g.has field then none else g.readField? member.2 field

/-- Reads what is given of a configuration. -/
def read? : Json → Option Given
  | .object members => members.foldlM readMember? nothing
  | .array items =>
    if items.length ≤ Field.all.length then
      (items.zip Field.all).foldlM (fun g (value, field) => g.readField? value field) nothing
    else none
  | _ => none

/-- Reads what a text gives of a configuration. -/
def parse? (text : String) : Option Given := (Json.parse? text).bind read?

/-- Fills in what is not given. -/
def complete (g : Given) (concurrency : Nat) : Config :=
  let d := Config.default concurrency
  { concurrency := g.concurrency.getD d.concurrency
    maxIterations := g.maxIterations.getD d.maxIterations
    combiner := g.combiner.getD d.combiner
    initialActive := g.initialActive.getD d.initialActive
    progressBatchSize := g.progressBatchSize.getD d.progressBatchSize }

end Given

/-! ## Writing -/

/-- The nodes that are active at first, as JSON. -/
def writeInitialActive : InitialActive → Json
  | .all => .ofString "all"
  | .nodes ids => .object [("nodes", .array (ids.map fun id => .ofNat id.index))]

/-- A configuration as JSON. -/
def toJson (c : Config) : Json :=
  .object
    [(Field.concurrency.name, .ofNat c.concurrency),
      (Field.maxIterations.name, .ofNat c.maxIterations),
      (Field.combiner.name, .ofString c.combiner.name),
      (Field.initialActive.name, writeInitialActive c.initialActive),
      (Field.progressBatchSize.name, .ofNat c.progressBatchSize)]

end Config

end Superstep
