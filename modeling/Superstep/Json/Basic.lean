/-!
# JSON values

A `Json` value keeps numbers and texts as they are written: a number as its digits, a text as what
stands between its quotes, with escapes. So nothing is lost in reading, and a text is only decoded
by those who want to know it. Members of an object keep their order, and a key may occur twice.

`decode?` and `encode` are the two directions between written and meant texts. Not every written
text means something: the two halves of a character outside the basic plane have to stand together.
-/

namespace Superstep

/-- A JSON value. -/
inductive Json where
  | null
  | boolean (value : Bool)
  /-- A number, as it is written. -/
  | number (digits : String)
  /-- A text, as it is written between its quotes. -/
  | text (written : String)
  | array (items : List Json)
  | object (members : List (String × Json))
deriving Inhabited

namespace Json

/-! ## Texts -/

/-- The value of a hexadecimal digit. -/
def hexValue? (c : Char) : Option Nat :=
  if c.isDigit then some (c.toNat - '0'.toNat)
  else if 'a' ≤ c && c ≤ 'f' then some (c.toNat - 'a'.toNat + 10)
  else if 'A' ≤ c && c ≤ 'F' then some (c.toNat - 'A'.toNat + 10)
  else none

/-- The hexadecimal digit with the given value below 16. -/
def hexDigit (n : Nat) : Char := Nat.digitChar n

/-- The value of four hexadecimal digits. -/
def hexUnit? (a b c d : Char) : Option Nat := do
  let a ← hexValue? a
  let b ← hexValue? b
  let c ← hexValue? c
  let d ← hexValue? d
  return ((a * 16 + b) * 16 + c) * 16 + d

/-- The characters that a backslash and a letter stand for. -/
def shortEscapes : List (Char × Char) :=
  [('"', '"'), ('\\', '\\'), ('/', '/'), ('b', '\x08'), ('f', '\x0c'), ('n', '\n'), ('r', '\r'),
    ('t', '\t')]

/-- The character that a backslash and `letter` stand for. -/
def shortEscape? (letter : Char) : Option Char := shortEscapes.lookup letter

/-- The first half of a character outside the basic plane. -/
def isHighHalf (unit : Nat) : Bool := 0xd800 ≤ unit && unit < 0xdc00

/-- The second half of a character outside the basic plane. -/
def isLowHalf (unit : Nat) : Bool := 0xdc00 ≤ unit && unit < 0xe000

/-- The character of two halves. -/
def joinHalves (high low : Nat) : Char :=
  Char.ofNat (0x10000 + (high - 0xd800) * 0x400 + (low - 0xdc00))

/-- The characters that a written text means, after those that have been decoded (`done`, the last
    one first). -/
def decodeOnto (done : List Char) : List Char → Option (List Char)
  | [] => some done.reverse
  | '\\' :: 'u' :: a :: b :: c :: d :: '\\' :: 'u' :: e :: f :: g :: h :: rest =>
    match hexUnit? a b c d, hexUnit? e f g h with
    | some first, some second =>
      if isLowHalf first then none
      else if isHighHalf first then
        if isLowHalf second then decodeOnto (joinHalves first second :: done) rest else none
      else
        decodeOnto (Char.ofNat first :: done) ('\\' :: 'u' :: e :: f :: g :: h :: rest)
    | _, _ => none
  | '\\' :: 'u' :: a :: b :: c :: d :: rest =>
    match hexUnit? a b c d with
    | some unit =>
      if isHighHalf unit || isLowHalf unit then none
      else decodeOnto (Char.ofNat unit :: done) rest
    | none => none
  | '\\' :: letter :: rest =>
    match shortEscape? letter with
    | some c => decodeOnto (c :: done) rest
    | none => none
  | c :: rest => decodeOnto (c :: done) rest

/-- The text that a written text means, if it means one. -/
def decode? (written : String) : Option String :=
  (decodeOnto [] written.toList).map String.ofList

/-- How a character is written. -/
def encodeChar (c : Char) : List Char :=
  match shortEscapes.find? (fun (_, meant) => meant = c && meant ≠ '/') with
  | some (letter, _) => ['\\', letter]
  | none =>
    if c.toNat < 0x20 then
      ['\\', 'u', '0', '0', hexDigit (c.toNat / 16), hexDigit (c.toNat % 16)]
    else [c]

/-- How a text is written. -/
def encode (meant : String) : String :=
  String.ofList (meant.toList.flatMap encodeChar)

/-! ## Making and taking apart values -/

/-- The value of a text. -/
def ofString (meant : String) : Json := .text (encode meant)

/-- The value of a natural number. -/
def ofNat (n : Nat) : Json := .number (String.ofList (Nat.toDigits 10 n))

/-- The value of something that may be absent. -/
def ofOption {α : Type} (f : α → Json) : Option α → Json
  | some x => f x
  | none => .null

/-- The text of a value. -/
def string? : Json → Option String
  | .text written => decode? written
  | _ => none

/-- The natural number below `bound` of a value: its digits alone, without sign, point or
    exponent. -/
def nat? (bound : Nat) : Json → Option Nat
  | .number digits =>
    if digits.all Char.isDigit then
      let n := digits.toList.foldl (fun n c => n * 10 + (c.toNat - '0'.toNat)) 0
      if n < bound then some n else none
    else none
  | _ => none

/-- The items of an array. -/
def items? : Json → Option (List Json)
  | .array items => some items
  | _ => none

end Json

end Superstep
