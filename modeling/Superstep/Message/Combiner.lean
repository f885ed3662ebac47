/-!
# Combiners

A combiner reduces the messages that are bound for one node to a single one. `Combiner` lists the
kinds that every run can be configured with; which of them a type of messages supports, and what
they do to it, is said by the class `Message`.

Reduction happens as messages arrive. Its result does not depend on their order only if it is
associative and commutative, which is left to whoever chooses it.
-/

namespace Superstep

/-- The built-in ways to reduce messages. -/
inductive Combiner where
  /-- Keep every message. -/
  | none
  | sum
  | min
  | max
  /-- Keep the message that arrived first. -/
  | first
deriving DecidableEq

namespace Combiner

/-- The name of a combiner. -/
def name : Combiner → String
  | .none => "none"
  | .sum => "sum"
  | .min => "min"
  | .max => "max"
  | .first => "first"

/-- All combiners. -/
def all : List Combiner := [.none, .sum, .min, .max, .first]

/-- The combiner with exactly the given name. -/
def ofName? (name : String) : Option Combiner := all.find? (·.name = name)

/-- The combiner with the given name, where ASCII letters may be of either case. The error repeats
    the name in lower case. -/
def parse (text : String) : Except String Combiner :=
  let lower := String.ofList (text.toList.map Char.toLower)
  match ofName? lower with
  | some c => .ok c
  | .none => .error ("unknown combiner '" ++ lower ++ "', expected none/sum/min/max/first")

theorem ofName?_name (c : Combiner) : ofName? c.name = some c := by
  cases c <;> decide

end Combiner

/-- A type of messages. By default it supports only keeping every message and keeping the first
    one. `reduce` takes the message that is there and the one that arrives. -/
class Message (M : Type) where
  supports : Combiner → Bool := fun kind => kind = .none || kind = .first
  reduce : Combiner → M → M → M := fun _ current _ => current

end Superstep
