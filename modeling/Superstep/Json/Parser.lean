import Superstep.Json.Basic
import Superstep.Text.Fields

/-!
# Reading JSON

`Json.parse?` reads a text that holds one JSON value and blanks around it. Blanks are spaces, tabs
and line breaks. Texts may not hold control characters, and their escapes have to be well-formed;
whether they mean something is seen when they are decoded.

Each function takes what it reads off the front of a list and returns the rest. Every call for a
value, an item or a member is preceded by a character of its own, so that twice as many calls as
there are characters are always enough.
-/

namespace Superstep.Json

/-- The characters that may stand between the parts of a text. -/
def isBlank (c : Char) : Bool := c = ' ' || c = '\t' || c = '\n' || c = '\r'

/-- A text without the blanks at its front. -/
def skipBlanks (cs : List Char) : List Char := cs.dropWhile isBlank

/-! ## Numbers -/

/-- Reads at least one digit. -/
def digits? (cs : List Char) : Option (List Char × List Char) :=
  match cs.takeWhile Char.isDigit with
  | [] => none
  | ds => some (ds, cs.dropWhile Char.isDigit)

/-- Reads the whole part of a number, which has no zero before another digit. -/
def whole? (cs : List Char) : Option (List Char × List Char) :=
  match digits? cs with
  | some ('0' :: _ :: _, _) => none
  | found => found

/-- Reads a point and digits, if there is a point. -/
def fraction? : List Char → Option (List Char × List Char)
  | '.' :: cs => (digits? cs).map fun (ds, cs) => ('.' :: ds, cs)
  | cs => some ([], cs)

/-- Reads an exponent, if there is one. -/
def exponent? : List Char → Option (List Char × List Char)
  | [] => some ([], [])
  | e :: cs =>
    if e = 'e' || e = 'E' then
      match cs with
      | '+' :: cs => (digits? cs).map fun (ds, cs) => (e :: '+' :: ds, cs)
      | '-' :: cs => (digits? cs).map fun (ds, cs) => (e :: '-' :: ds, cs)
      | cs => (digits? cs).map fun (ds, cs) => (e :: ds, cs)
    else some ([], e :: cs)

/-- Reads a number without a sign. -/
def unsigned? (cs : List Char) : Option (List Char × List Char) := do
  let (whole, cs) ← whole? cs
  let (fraction, cs) ← fraction? cs
  let (exponent, cs) ← exponent? cs
  return (whole ++ fraction ++ exponent, cs)

/-- Reads a number. -/
def number? : List Char → Option (List Char × List Char)
  | '-' :: cs => (unsigned? cs).map fun (ds, cs) => ('-' :: ds, cs)
  | cs => unsigned? cs

/-! ## Texts -/

/-- Reads what follows an opening quote, after what has been read (`body`, the last character
    first). -/
def quoted? (body : List Char) : List Char → Option (List Char × List Char)
  | [] => none
  | '"' :: cs => some (body.reverse, cs)
  | '\\' :: 'u' :: a :: b :: c :: d :: cs =>
    if (hexUnit? a b c d).isSome then quoted? (d :: c :: b :: a :: 'u' :: '\\' :: body) cs
    else none
  | '\\' :: letter :: cs =>
    if (shortEscape? letter).isSome then quoted? (letter :: '\\' :: body) cs else none
  | c :: cs => if c.toNat < 0x20 || c = '\\' then none else quoted? (c :: body) cs

/-- Reads a text with its quotes. -/
def text? : List Char → Option (String × List Char)
  | '"' :: cs => (quoted? [] cs).map fun (body, cs) => (String.ofList body, cs)
  | _ => none

/-! ## Values -/

/-- The values that are written as a word. -/
def words : List (List Char × Json) :=
  [("null".toList, .null), ("true".toList, .boolean true), ("false".toList, .boolean false)]

/-- Reads a value that is a word. -/
def word? (cs : List Char) : Option (Json × List Char) :=
  words.findSome? fun (word, value) => (Text.after? word cs).map fun rest => (value, rest)

/-- Reads a value that has no parts. -/
def scalar? (cs : List Char) : Option (Json × List Char) :=
  match word? cs with
  | some found => some found
  | none =>
    match text? cs with
    | some (written, cs) => some (.text written, cs)
    | none => (number? cs).map fun (digits, cs) => (.number (String.ofList digits), cs)

mutual

/-- Reads a value. -/
def value? : Nat → List Char → Option (Json × List Char)
  | 0, _ => none
  | fuel + 1, cs =>
    match skipBlanks cs with
    | '[' :: cs =>
      match skipBlanks cs with
      | ']' :: cs => some (.array [], cs)
      | cs => itemsFrom? fuel [] cs
    | '\x7b' :: cs =>
      match skipBlanks cs with
      | '\x7d' :: cs => some (.object [], cs)
      | cs => membersFrom? fuel [] cs
    | cs => scalar? cs

/-- Reads the items of an array from the next one on, after those that have been read (`found`, the
    last one first). -/
def itemsFrom? : Nat → List Json → List Char → Option (Json × List Char)
  | 0, _, _ => none
  | fuel + 1, found, cs =>
    match value? fuel cs with
    | none => none
    | some (item, cs) =>
      match skipBlanks cs with
      | ',' :: cs => itemsFrom? fuel (item :: found) cs
      | ']' :: cs => some (.array (item :: found).reverse, cs)
      | _ => none

/-- Reads the members of an object from the next one on, after those that have been read (`found`,
    the last one first). -/
def membersFrom? : Nat → List (String × Json) → List Char → Option (Json × List Char)
  | 0, _, _ => none
  | fuel + 1, found, cs =>
    match text? (skipBlanks cs) with
    | none => none
    | some (key, cs) =>
      match skipBlanks cs with
      | ':' :: cs =>
        match value? fuel cs with
        | none => none
        | some (value, cs) =>
          match skipBlanks cs with
          | ',' :: cs => membersFrom? fuel ((key, value) :: found) cs
          | '\x7d' :: cs => some (.object ((key, value) :: found).reverse, cs)
          | _ => none
      | _ => none

end

/-- Reads a text that holds one value. -/
def parse? (text : String) : Option Json :=
  let cs := text.toList
  match value? (2 * cs.length + 2) cs with
  | some (value, rest) => if (skipBlanks rest).isEmpty then some value else none
  | none => none

end Superstep.Json
