import Superstep.Json.Basic

/-!
# Writing JSON

`Json.compact` writes a value on one line without blanks. `Json.pretty` writes every item and every
member on a line of its own, indented by two blanks per level; an array or object without parts is
written as its two brackets.

A layout says what stands before a part and before the closing bracket, by the level of the part.
-/

namespace Superstep.Json

/-- Where the parts of a value stand. -/
structure Layout where
  /-- What stands before a part, or the closing bracket, of the given level. -/
  lineBreak : Nat → String
  /-- What stands between a key and its value. -/
  colon : String

/-- Everything on one line. -/
def Layout.compact : Layout := ⟨fun _ => "", ":"⟩

/-- Every part on a line of its own. -/
def Layout.pretty : Layout :=
  ⟨fun level => "\n" ++ String.ofList (List.replicate (2 * level) ' '), ": "⟩

mutual

/-- Writes a value after what has been written. -/
def write (layout : Layout) (level : Nat) (out : String) : Json → String
  | .null => out ++ "null"
  | .boolean value => out ++ if value then "true" else "false"
  | .number digits => out ++ digits
  | .text written => out ++ "\"" ++ written ++ "\""
  | .array [] => out ++ "[]"
  | .array (item :: items) =>
    let out := write layout (level + 1) (out ++ "[" ++ layout.lineBreak (level + 1)) item
    writeItems layout (level + 1) out items ++ layout.lineBreak level ++ "]"
  | .object [] => out ++ "\x7b\x7d"
  | .object ((key, value) :: members) =>
    let out := out ++ "\x7b" ++ layout.lineBreak (level + 1) ++ "\"" ++ key ++ "\"" ++ layout.colon
    let out := write layout (level + 1) out value
    writeMembers layout (level + 1) out members ++ layout.lineBreak level ++ "\x7d"

/-- Writes the items that follow another one. -/
def writeItems (layout : Layout) (level : Nat) (out : String) : List Json → String
  | [] => out
  | item :: items =>
    let out := write layout level (out ++ "," ++ layout.lineBreak level) item
    writeItems layout level out items

/-- Writes the members that follow another one. -/
def writeMembers (layout : Layout) (level : Nat) (out : String) : List (String × Json) → String
  | [] => out
  | (key, value) :: members =>
    let out := out ++ "," ++ layout.lineBreak level ++ "\"" ++ key ++ "\"" ++ layout.colon
    writeMembers layout level (write layout level out value) members

end

/-- The text of a value on one line. -/
def compact (value : Json) : String := write .compact 0 "" value

/-- The text of a value on several lines. -/
def pretty (value : Json) : String := write .pretty 0 "" value

end Superstep.Json
