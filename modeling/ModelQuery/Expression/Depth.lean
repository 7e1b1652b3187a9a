import ModelQuery.Error

/-!
# Nesting depth

`Depth.excess?` looks through a text for the opening parenthesis that would open one group too many,
before anything else is read. It follows quotes, so that parentheses inside a quoted value do not
count, but it knows nothing of keywords and takes any text.
-/

namespace ModelQuery.Depth

/-- Where a text stands after some of its characters: how many parentheses are open, and the quote
that is open, if one is. -/
structure State where
  level : Nat
  quote : Option Char
  deriving DecidableEq, Repr

/-- Neither a parenthesis nor a quote is open. -/
def State.start : State :=
  ⟨0, none⟩

/-- The state after one more character. An open quote is closed by the same character only, and
until then nothing else counts; a parenthesis that closes nothing is passed over. -/
def State.step (state : State) (c : Char) : State :=
  match state.quote with
  | some quote => if c = quote then { state with quote := none } else state
  | none =>
      if c = '\'' ∨ c = '"' then { state with quote := some c }
      else if c = '(' then { state with level := state.level + 1 }
      else if c = ')' then { state with level := state.level - 1 }
      else state

/-- The byte offset of the first parenthesis that brings the level above `limit`, where the text
begins at `offset` in the given state. -/
def excessFrom? (limit : Nat) (state : State) (offset : Nat) : List Char → Option Nat
  | [] => none
  | c :: rest =>
      let next := state.step c
      if limit < next.level then some offset
      else excessFrom? limit next (offset + c.utf8Size) rest

/-- The byte offset of the first parenthesis of a text that opens one group too many. -/
def excess? (text : List Char) : Option Nat :=
  excessFrom? groupLimit .start 0 text

end ModelQuery.Depth
