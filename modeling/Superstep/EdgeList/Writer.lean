import Superstep.Graph.Error
import Superstep.Graph.Weight

/-!
# Writing edge lists

A graph is written as a header line with its node count and then one line per relationship, node
by node, with the weight if the graph is weighted. The header keeps nodes without relationships.

A line is a list of parts: words, numbers, the parts of a weight, blanks and the line break. `text`
is the whole text. `Writer.save` writes it through a buffer to a `Writer`, call by call: parts
gather in the buffer, the buffer is forwarded when the next part does not fit, and what is left is
forwarded at the end. So the buffer may be forwarded in the middle of a line, and if the graph
cannot be read to its end, this decides whether a failure of the writer is met before. When the
buffer is dropped, what is left in it is offered once more. All text is ASCII, so that a character
is a byte.

`save` writes to the writer `upTo`, which keeps what it takes and may take only a limited number of
characters.

Main statements: `flatten_headerParts` and `flatten_entryParts`, the two kinds of lines.
-/

namespace Superstep.EdgeList

variable {W : Type}

/-! ## The text -/

/-- The parts of the header line. -/
def headerParts (nodeCount : UInt64) : List (List Char) :=
  ["# ".toList, "nodes:".toList, [' '], Decimal.digits nodeCount.toNat, ['\n']]

/-- The parts of the line of one relationship. -/
def entryParts [Weight W] (weighted : Bool) (source target : NodeId) (weight : W) :
    List (List Char) :=
  [source.digits, [' '], target.digits] ++
    (if weighted then [' '] :: Weight.parts weight else []) ++ [['\n']]

/-- The header line. -/
theorem flatten_headerParts (nodeCount : UInt64) :
    (headerParts nodeCount).flatten =
      "# nodes: ".toList ++ Decimal.digits nodeCount.toNat ++ ['\n'] := by
  simp [headerParts]

/-- The line of one relationship. -/
theorem flatten_entryParts [Weight W] (weighted : Bool) (source target : NodeId) (weight : W) :
    (entryParts weighted source target weight).flatten =
      source.digits ++ ' ' :: target.digits ++
        (if weighted then ' ' :: Weight.digits weight else []) ++ ['\n'] := by
  cases weighted <;> simp [entryParts, Weight.digits]

/-- The parts of the lines of the relationships that leave one node. -/
def nodeParts [Weight W] (g : Graph W) (node : NodeId) : List (List Char) :=
  (g.relationships node).flatMap fun (target, weight) => entryParts g.isWeighted node target weight

/-- The text of a graph. -/
def text [Weight W] (g : Graph W) : List Char :=
  (headerParts g.nodeCount ++ g.nodes.flatMap (nodeParts g)).flatten

/-! ## Writers -/

/-- A writer of characters with a state. One call takes a beginning of the characters it is offered
    and says how many, or it fails with a reason in words. A call that is only interrupted is made
    again and does not count. -/
structure Writer (σ : Type) where
  write : σ → List Char → σ × Except String Nat
  flush : σ → σ × Except String Unit

/-- A writer behind a buffer, with the reason of its first failure. -/
structure Buffered (σ : Type) where
  sink : σ
  buffer : Array Char
  failure : Option String

namespace Writer

variable {σ : Type}

/-- The size of the buffer. -/
def capacity : Nat := 8192

/-- Offers characters until all of them are taken or a call fails. What is left stays in the buffer.
    A call that takes nothing is a failure with the reason `idle`. -/
def offer (w : Writer σ) (idle : String) (s : σ) (chunk : List Char) : Buffered σ :=
  if _h : chunk = [] then ⟨s, #[], none⟩
  else
    match w.write s chunk with
    | (s, .error reason) => ⟨s, chunk.toArray, some reason⟩
    | (s, .ok 0) => ⟨s, chunk.toArray, some idle⟩
    | (s, .ok (n + 1)) => w.offer idle s (chunk.drop (n + 1))
termination_by chunk.length
decreasing_by
  have := List.length_pos_iff.mpr _h
  simp only [List.length_drop]
  omega

/-- Forwards the buffer. -/
def forward (w : Writer σ) (b : Buffered σ) : Buffered σ :=
  w.offer "failed to write the buffered data" b.sink b.buffer.toList

/-- Writes one part: into the buffer if it fits there after the buffer has been forwarded, else to
    the writer itself. -/
def put (w : Writer σ) (b : Buffered σ) (part : List Char) : Buffered σ :=
  let b := if b.buffer.size + part.length > capacity then w.forward b else b
  if b.failure.isSome then b
  else if part.length < capacity then { b with buffer := b.buffer ++ part }
  else
    let offered := w.offer "failed to write whole buffer" b.sink part
    { b with sink := offered.sink, failure := offered.failure }

/-- Writes parts one after another, and stops at the first failure. -/
def putAll (w : Writer σ) (b : Buffered σ) : List (List Char) → Buffered σ
  | [] => b
  | part :: rest =>
    let b := w.put b part
    if b.failure.isSome then b else w.putAll b rest

/-- Writes the lines of one node, and stops within the node at the first failure. The result also
    says what has broken off the reading of the node. -/
def saveNode [Weight W] (w : Writer σ) (g : Graph W) (b : Buffered σ) (node : NodeId) :
    Buffered σ × Option ReadFault :=
  g.visit node
    (fun b target weight =>
      let b := w.putAll b (entryParts g.isWeighted node target weight)
      (b, b.failure.isNone))
    b

/-- Writes the lines of nodes until one of them fails or cannot be read. -/
def saveNodes [Weight W] (w : Writer σ) (g : Graph W) :
    Buffered σ → List NodeId → Buffered σ × Option ReadFault
  | b, [] => (b, none)
  | b, node :: rest =>
    match w.saveNode g b node with
    | (b, some fault) => (b, some fault)
    | (b, none) => if b.failure.isSome then (b, none) else w.saveNodes g b rest

/-- Forwards the buffer and flushes the writer. After a failure the buffer is forwarded once more,
    and nobody asks what comes of it. -/
def close (w : Writer σ) (b : Buffered σ) : σ × Except GraphError Unit :=
  let b := if b.failure.isSome then b else w.forward b
  match b.failure with
  | some reason => ((w.forward b).sink, .error (.io reason))
  | none =>
    match w.flush b.sink with
    | (s, .ok ()) => (s, .ok ())
    | (s, .error reason) => (s, .error (.io reason))

/-- Writes a graph to a writer in the state `s`. The result is the writer's state, and whether
    everything has reached it. -/
def save [Weight W] (w : Writer σ) (g : Graph W) (s : σ) : σ × Except GraphError Unit :=
  let b := w.putAll ⟨s, #[], none⟩ (headerParts g.nodeCount)
  match if b.failure.isSome then (b, none) else w.saveNodes g b g.nodes with
  | (b, some fault) => ((w.forward b).sink, .error (.unreadable fault))
  | (b, none) => w.close b

end Writer

/-- The writer that keeps what it takes. It takes as much as it can of what it is offered, up to the
    limit if there is one, and then fails. -/
def upTo (limit : Option Nat) : Writer (Array Char) where
  write held chunk :=
    match limit with
    | none => (held ++ chunk, .ok chunk.length)
    | some limit =>
      if held.size < limit then
        let n := min (limit - held.size) chunk.length
        (held ++ chunk.take n, .ok n)
      else (held, .error "writer full")
  flush held := (held, .ok ())

/-- Writes a graph within a limit. The result is what has been kept of its text, and whether that is
    everything. -/
def save [Weight W] (g : Graph W) (limit : Option Nat) : Array Char × Except GraphError Unit :=
  (upTo limit).save g #[]

end Superstep.EdgeList
