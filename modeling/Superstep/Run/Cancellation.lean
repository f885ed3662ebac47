/-!
# Cancellation

A run asks before each superstep whether it has been cancelled. A `TerminationFlag` says what the
answer to each question is: polls are counted from zero.

`Switchboard` keeps flags that are shared by several tokens: a token that is copied watches the same
flag, and cancelling through one of them is seen by all.

Main statement: `isCancelled_cancel`, a token is cancelled as soon as a token of the same flag is.
-/

namespace Superstep

/-- The answers of a termination flag to the polls of one run. -/
structure TerminationFlag where
  isCancelled : Nat → Bool

namespace TerminationFlag

/-- The flag that is never raised. -/
def never : TerminationFlag := ⟨fun _ => false⟩

/-- The flag that is raised from poll number `poll` on. -/
def raisedFrom (poll : Nat) : TerminationFlag := ⟨fun k => poll ≤ k⟩

end TerminationFlag

/-- Flags, and tokens that each watch one of them. -/
structure Switchboard where
  flags : Array Bool
  tokens : Array Nat

namespace Switchboard

/-- No tokens. -/
def empty : Switchboard := ⟨#[], #[]⟩

/-- Adds a token with a flag of its own. -/
def issue (b : Switchboard) : Switchboard :=
  ⟨b.flags.push false, b.tokens.push b.flags.size⟩

/-- Adds a token that watches the flag of another one. -/
def copy (b : Switchboard) (token : Nat) : Switchboard :=
  match b.tokens[token]? with
  | some flag => { b with tokens := b.tokens.push flag }
  | none => b

/-- Raises the flag of a token. -/
def cancel (b : Switchboard) (token : Nat) : Switchboard :=
  match b.tokens[token]? with
  | some flag => { b with flags := b.flags.setIfInBounds flag true }
  | none => b

/-- Whether the flag that a token watches is raised. -/
def isCancelled (b : Switchboard) (token : Nat) : Bool :=
  ((b.tokens[token]?).bind (b.flags[·]?)).getD false

/-- A token is cancelled as soon as a token of the same flag is. -/
theorem isCancelled_cancel {b : Switchboard} {token other flag : Nat}
    (ht : b.tokens[token]? = some flag) (ho : b.tokens[other]? = some flag)
    (hf : flag < b.flags.size) : (b.cancel token).isCancelled other = true := by
  simp [cancel, isCancelled, ht, ho, hf]

end Switchboard

end Superstep
