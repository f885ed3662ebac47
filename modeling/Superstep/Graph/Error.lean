import Superstep.Graph.Basic
import Superstep.Storage.Memory

/-!
# Errors of graphs

What can go wrong when a graph is built, read, written or generated. Every error is a cause, and
`GraphError.message` is the only place with the wording.
-/

namespace Superstep

/-- Why a relationship is not accepted, apart from its end points. -/
inductive RelationshipFault where
  /-- It has no weight, and the graph is weighted. -/
  | weightMissing (source target : NodeId)
  /-- Its weight, given as text, is infinite or not a number. -/
  | weightNotFinite (source target : NodeId) (weight : String)
  /-- It has a weight, and the graph is unweighted. -/
  | weightUnexpected (source target : NodeId)
  /-- A cause in words. -/
  | stated (reason : String)
deriving DecidableEq

/-- Why an addition to a graph is refused. -/
inductive AddError where
  | nodeNotFound (id : NodeId) (nodeCount : UInt64)
  | invalid (fault : RelationshipFault)
deriving DecidableEq

/-- Why a line of an edge list is not accepted. -/
inductive LineFault where
  | fieldCount (count : Nat)
  | nodeId (text : String) (fault : Decimal.Fault)
  | weight (text : String)
  | nodeCount (text : String) (fault : Decimal.Fault)
  /-- The largest id of all, which would need one node more than can be counted. -/
  | idOutOfRange (id : NodeId)
  /-- The line reads well, but the graph does not take its relationship. -/
  | refused (error : AddError)
  /-- A cause in words. -/
  | stated (reason : String)
deriving DecidableEq

/-- An error of building, loading, saving or generating a graph. -/
inductive GraphError where
  | refused (error : AddError)
  /-- Lines are counted from one. -/
  | parse (line : Nat) (fault : LineFault)
  | resourceExhausted (what : String) (requested : Nat)
  | io (reason : String)
  /-- The relationships of a node cannot be read. -/
  | unreadable (fault : ReadFault)
deriving DecidableEq

/-- The wording of a relationship's fault. -/
def RelationshipFault.message : RelationshipFault → String
  | .weightMissing s t =>
    "unweighted relationship " ++ s.text ++ " -> " ++ t.text ++ " added to a weighted graph"
  | .weightNotFinite s t w =>
    "relationship " ++ s.text ++ " -> " ++ t.text ++ " has non-finite weight " ++ w
  | .weightUnexpected s t =>
    "weighted relationship " ++ s.text ++ " -> " ++ t.text ++ " added to an unweighted graph"
  | .stated reason => reason

/-- The wording of a refusal. -/
def AddError.message : AddError → String
  | .nodeNotFound id n =>
    "node not found: NodeId(" ++ id.text ++ ") with node count " ++ Decimal.text n.toNat
  | .invalid fault => "invalid relationship: " ++ fault.message

/-- The wording of a line's fault. -/
def LineFault.message : LineFault → String
  | .fieldCount n =>
    "expected 'source target [weight]', got " ++ Decimal.text n ++ " field(s)"
  | .nodeId t fault => "invalid node id '" ++ t ++ "': " ++ fault.message
  | .weight t => "invalid weight '" ++ t ++ "': invalid float literal"
  | .nodeCount t fault => "invalid node count '" ++ t ++ "': " ++ fault.message
  | .idOutOfRange id => "node id " ++ id.text ++ " is out of range"
  | .refused error => error.message
  | .stated reason => reason

/-- The wording of an error. -/
def GraphError.message : GraphError → String
  | .refused error => error.message
  | .parse line fault => "parse error on line " ++ Decimal.text line ++ ": " ++ fault.message
  | .resourceExhausted what n =>
    "resource exhausted: cannot allocate " ++ Decimal.text n ++ " " ++ what
  | .io reason => "I/O error: " ++ reason
  | .unreadable fault => fault.message

namespace GraphError

/-- The error of a line that is not well-formed UTF-8. -/
def invalidUtf8 : GraphError := .io "stream did not contain valid UTF-8"

/-- Reserves an array of a graph, or names the array that does not fit. -/
def reserve [Memory.Allocator] (what : String) (count bytes : Nat) : Except GraphError Unit :=
  match Memory.reserve count bytes with
  | .ok _ => .ok ()
  | .error e => .error (.resourceExhausted what e.requested)

end GraphError

end Superstep
