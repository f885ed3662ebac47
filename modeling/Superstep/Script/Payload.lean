import Superstep.Message.Binary64
import Superstep.Message.Payload

/-!
# Payloads of scripts

What a script needs of its messages besides `Message`: a value for nodes that are given none, an
equality, an order in which messages can be read, and combiners of the script's own, known by name.
-/

namespace Superstep

/-- A type of messages that scripts can use. -/
class Payload (M : Type) extends Message M where
  /-- Whether two values are the same. -/
  same : M → M → Bool
  /-- The value of a node that is given none. -/
  blank : M
  /-- The order in which messages are read, if they are read in order. -/
  le : M → M → Bool
  /-- The combiners of a script's own. -/
  combiner? : String → Option (M → M → M)

instance {n : Nat} : Payload (Unsigned n) where
  same a b := a.bits == b.bits
  blank := .ofNat 0
  le a b := a.toNat ≤ b.toNat
  combiner?
    | "max" => some fun a b => if a.toNat < b.toNat then b else a
    | "xor" => some fun a b => ⟨a.bits ^^^ b.bits⟩
    | "mul" => some fun a b => ⟨a.bits * b.bits⟩
    | _ => none

instance {n : Nat} : Payload (Signed n) where
  same a b := a.bits == b.bits
  blank := .ofInt 0
  le a b := a.toInt ≤ b.toInt
  combiner?
    | "max" => some fun a b => if a.toInt < b.toInt then b else a
    | "xor" => some fun a b => ⟨a.bits ^^^ b.bits⟩
    | "mul" => some fun a b => ⟨a.bits * b.bits⟩
    | _ => none

instance : Payload Binary64 where
  same a b := a.bits == b.bits
  blank := .ofFloat 0.0
  le a b := a.key ≤ b.key
  combiner?
    | "max" => some fun a b => if b.toFloat > a.toFloat then b else a
    | _ => none

instance : Payload NodeId where
  same a b := a.val == b.val
  blank := ⟨0⟩
  le a b := a ≤ b
  combiner?
    | "max" => some fun a b => if b > a then b else a
    | _ => none

instance : Payload String where
  same a b := decide (a = b)
  blank := ""
  le a b := a ≤ b
  combiner?
    | "longest" => some fun a b => if b.utf8ByteSize > a.utf8ByteSize then b else a
    | "concat" => some fun a b => a ++ b
    | _ => none

end Superstep
