/-!
# Options of a command line

The arguments of a command are options: a long one after two dashes, or short ones of one letter
after a single dash. A switch stands alone; several may be grouped (`-vv`). An option with a value
takes the next argument, or what is attached to it: `--name=value`, `-n=value` or `-nvalue`. An
argument that starts with a dash is only a value if it is attached, or a lone dash.

`Occurrence.scan?` splits arguments into occurrences of options; which of them may be missing or
repeated is decided by those who read the occurrences.
-/

namespace Superstep.Cli

/-- An option of a command. -/
structure OptionSpec where
  long : String
  short : Option Char
  takesValue : Bool
  /-- Whether it may be given more than once. -/
  repeatable : Bool
deriving DecidableEq

/-- An option without a value. -/
def switch (long : String) (short : Option Char) : OptionSpec := ⟨long, short, false, false⟩

/-- An option with a value. -/
def valued (long : String) (short : Option Char) : OptionSpec := ⟨long, short, true, false⟩

/-- An option on the command line. -/
structure Occurrence where
  spec : OptionSpec
  value : Option String
deriving DecidableEq

/-- An argument as it looks at first sight. -/
inductive Argument where
  /-- Two dashes, after which there are no options. -/
  | separator
  | long (name : String) (value : Option String)
  | short (letters : List Char)
  | plain (text : String)
deriving DecidableEq

namespace Argument

/-- Splits the name of a long option from a value that is attached to it. -/
def splitValue (text : List Char) : String × Option String :=
  let name := text.takeWhile (· ≠ '=')
  match text.dropWhile (· ≠ '=') with
  | _ :: value => (String.ofList name, some (String.ofList value))
  | [] => (String.ofList name, none)

/-- Looks at an argument. -/
def ofString (text : String) : Argument :=
  match text.toList with
  | '-' :: '-' :: [] => .separator
  | '-' :: '-' :: rest =>
    let (name, value) := splitValue rest
    .long name value
  | '-' :: letter :: rest => .short (letter :: rest)
  | _ => .plain text

end Argument

namespace Occurrence

/-- Reads a group of short options. The last one may still need the next argument as its value. -/
def scanShort? (specs : List OptionSpec) : List Char → Option (List Occurrence × Option OptionSpec)
  | [] => some ([], none)
  | letter :: rest =>
    match specs.find? (·.short = some letter) with
    | none => none
    | some spec =>
      if spec.takesValue then
        match rest with
        | [] => some ([], some spec)
        | '=' :: value => some ([⟨spec, some (String.ofList value)⟩], none)
        | value => some ([⟨spec, some (String.ofList value)⟩], none)
      else
        (scanShort? specs rest).map fun (found, waiting) => (⟨spec, none⟩ :: found, waiting)

/-- Reads a long option. It may still need the next argument as its value. -/
def scanLong? (specs : List OptionSpec) (name : String) (value : Option String) :
    Option (List Occurrence × Option OptionSpec) :=
  match specs.find? (·.long = name), value with
  | none, _ => none
  | some spec, none => some (if spec.takesValue then ([], some spec) else ([⟨spec, none⟩], none))
  | some spec, some value =>
    if spec.takesValue then some ([⟨spec, some value⟩], none) else none

/-- Reads arguments. `waiting` is an option that needs the next argument as its value. After a
    separator there may be nothing. -/
def scanFrom? (specs : List OptionSpec) (waiting : Option OptionSpec) :
    List String → Option (List Occurrence)
  | [] => if waiting.isSome then none else some []
  | argument :: rest =>
    match waiting, Argument.ofString argument with
    | some spec, .plain value => (scanFrom? specs none rest).map (⟨spec, some value⟩ :: ·)
    | none, .separator => if rest.isEmpty then some [] else none
    | none, .long name value =>
      match scanLong? specs name value with
      | some (found, waiting) => (scanFrom? specs waiting rest).map (found ++ ·)
      | none => none
    | none, .short letters =>
      match scanShort? specs letters with
      | some (found, waiting) => (scanFrom? specs waiting rest).map (found ++ ·)
      | none => none
    | _, _ => none

/-- Whether no option is given twice that may not be. -/
def allUnique : List Occurrence → Bool
  | [] => true
  | o :: rest => (o.spec.repeatable || !rest.any (·.spec = o.spec)) && allUnique rest

/-- Reads the arguments of a command that knows the given options. -/
def scan? (specs : List OptionSpec) (arguments : List String) : Option (List Occurrence) :=
  (scanFrom? specs none arguments).filter allUnique

/-- Whether an option is given. -/
def has (found : List Occurrence) (spec : OptionSpec) : Bool := found.any (·.spec = spec)

/-- How often an option is given. -/
def count (found : List Occurrence) (spec : OptionSpec) : Nat := found.countP (·.spec = spec)

/-- The value of an option, if it is given. -/
def value? (found : List Occurrence) (spec : OptionSpec) : Option String :=
  (found.find? (·.spec = spec)).bind (·.value)

end Occurrence

end Superstep.Cli
