import Superstep.Graph.Builder
import Superstep.Text.Fields

/-!
# Reading edge lists

An edge list has one relationship per line: a source, a target and perhaps a weight, separated by
blanks. Blank lines are skipped. A line that starts with `#` or `%` is a comment; a comment that
says `nodes: N` fixes the node count, and of several such headers the last one counts. Without a
header the node count is the largest id plus one.

Reading has two stages. `Line.read` looks at one line alone; `parseLines` reads all lines, fixes
the node count and then adds the relationships in order, so that a fault of a line alone is
reported before a relationship that the graph does not take, wherever the two stand.
-/

namespace Superstep.EdgeList

/-- A relationship as a line gives it. -/
structure Entry (W : Type) where
  source : NodeId
  target : NodeId
  weight : Option W

/-- What one line says. -/
inductive Line (W : Type) where
  /-- A blank line, or a comment. -/
  | nothing
  | nodeCount (count : UInt64)
  | entry (entry : Entry W)

/-- The characters that make a line a comment. -/
def isCommentMark (c : Char) : Bool := c = '#' || c = '%'

/-- The word that makes a comment a header. -/
def header : List Char := "nodes:".toList

/-- Reads a node id. -/
def readId (field : List Char) : Except LineFault NodeId :=
  match Decimal.readUInt64 field with
  | .ok n => .ok ⟨n⟩
  | .error fault => .error (.nodeId (String.ofList field) fault)

/-- Reads a weight, if there is a field for it. -/
def readWeight {W : Type} [Weight W] : Option (List Char) → Except LineFault (Option W)
  | none => .ok none
  | some field =>
    match Weight.read? field with
    | some w => .ok (some w)
    | none => .error (.weight (String.ofList field))

/-- Reads the fields of a relationship. The id `2 ^ 64 - 1` would need a node count that is no
    64-bit number. -/
def readEntry {W : Type} [Weight W] (fields : List (List Char)) : Except LineFault (Entry W) := do
  let (source, target, rest) ←
    match fields with
    | [s, t] => pure (s, t, none)
    | [s, t, w] => pure (s, t, some w)
    | fields => throw (.fieldCount fields.length)
  let source ← readId source
  let target ← readId target
  let weight ← readWeight rest
  let largest := if source ≤ target then target else source
  if largest.index + 1 = wordLimit then
    throw (.idOutOfRange largest)
  return { source, target, weight }

/-- Reads the text of a comment after its mark. -/
def readComment {W : Type} (comment : List Char) : Except LineFault (Line W) :=
  match Text.after? header (Text.trim comment) with
  | none => .ok .nothing
  | some rest =>
    let count := Text.trim rest
    match Decimal.readUInt64 count with
    | .ok n => .ok (.nodeCount n)
    | .error fault => .error (.nodeCount (String.ofList count) fault)

/-- Reads one line. -/
def Line.read {W : Type} [Weight W] (line : List Char) : Except LineFault (Line W) :=
  match Text.trim line with
  | [] => .ok .nothing
  | c :: cs =>
    if isCommentMark c then readComment cs
    else (readEntry (Text.fields (c :: cs))).map .entry

/-- What has been read of an edge list: the last header, and the relationships with the numbers of
    their lines. -/
structure Contents (W : Type) where
  declared : Option UInt64
  entries : Array (Nat × Entry W)

namespace Contents

variable {W : Type}

/-- Nothing has been read. -/
def empty : Contents W := ⟨none, #[]⟩

/-- Takes in what the line with the given number says. -/
def take (c : Contents W) (number : Nat) : Line W → Contents W
  | .nothing => c
  | .nodeCount n => { c with declared := some n }
  | .entry e => { c with entries := c.entries.push (number, e) }

/-- Reads lines, the first of which has the given number. A line that is `none` is not well-formed
    text. -/
def readLines [Weight W] (c : Contents W) (number : Nat) :
    List (Option (List Char)) → Except GraphError (Contents W)
  | [] => .ok c
  | none :: _ => .error .invalidUtf8
  | some line :: rest =>
    match Line.read line with
    | .error fault => .error (.parse number fault)
    | .ok said => (c.take number said).readLines (number + 1) rest

/-- The node count that the ids need. -/
def needed (c : Contents W) : UInt64 :=
  c.entries.foldl (fun n (_, e) => max n (max e.source.val e.target.val + 1)) 0

/-- The node count: what the last header says, else what the ids need. -/
def nodeCount (c : Contents W) : UInt64 := c.declared.getD c.needed

/-- Adds relationships one after the other. A refusal is the fault of the line. -/
def addEntries [Weight W] (b : Builder W) : List (Nat × Entry W) → Except GraphError (Builder W)
  | [] => .ok b
  | (number, e) :: rest =>
    match b.addEither e.source e.target e.weight with
    | .ok b => addEntries b rest
    | .error error => .error (.parse number (.refused error))

/-- Builds the graph that the contents describe. -/
def toOffsetTable [Memory.Allocator] [Weight W] (c : Contents W) (undirected : Bool) :
    Except GraphError (OffsetTable W) := do
  let b : Builder W := Builder.new c.nodeCount
  let b ← addEntries (if undirected then b.asUndirected else b) c.entries.toList
  b.build

end Contents

/-- Reads an edge list given as lines. -/
def parseLines [Memory.Allocator] {W : Type} [Weight W] (lines : List (Option (List Char)))
    (undirected : Bool) :
    Except GraphError (OffsetTable W) := do
  let contents ← Contents.empty.readLines 1 lines
  contents.toOffsetTable undirected

/-- Reads an edge list given as text. -/
def parse [Memory.Allocator] {W : Type} [Weight W] (text : List Char) (undirected : Bool) :
    Except GraphError (OffsetTable W) :=
  parseLines ((Text.lines text).map some) undirected

/-- Reads an edge list given as bytes, which may hold ill-formed UTF-8. -/
def parseBytes [Memory.Allocator] {W : Type} [Weight W] (bytes : List UInt8) (undirected : Bool) :
    Except GraphError (OffsetTable W) :=
  parseLines (Text.byteLines bytes) undirected

end Superstep.EdgeList
