import ModelQuery.Expression.Construct
import ModelQuery.Expression.Token
import ModelQuery.Text.Blank
import ModelQuery.Text.Offset

/-!
# Matchers with a record of the furthest refusal

A matcher reads a part of an expression from a cursor. Alternatives are tried in order and the first
that matches is taken. While it reads, a matcher keeps a `Frontier`: the furthest offset at which
anything was refused so far, and what was expected there. When the whole text is refused, that
record says where it goes wrong.

A named construct that fails takes the place of what failed inside it, if that lies where the
construct itself begins and is more than a single new entry. So a refusal speaks of the largest
construct that could stand at an offset.
-/

namespace ModelQuery

/-- A place in a text: its byte offset and the text from there on. -/
structure Cursor where
  offset : Nat
  rest : List Char
  deriving DecidableEq, Repr

/-- The place behind a token, where `rest` is left. -/
def Cursor.after (cursor : Cursor) (token rest : List Char) : Cursor :=
  ⟨cursor.offset + Text.byteLength token, rest⟩

/-- The furthest offset at which a construct was refused, and the constructs refused there, in the
order in which they were tried. -/
structure Frontier where
  offset : Nat
  refused : List Construct
  deriving DecidableEq, Repr

namespace Frontier

/-- Nothing has been refused yet. -/
def start : Frontier :=
  ⟨0, []⟩

/-- How many constructs have been refused at the offset, if it is the furthest one. -/
def countAt (frontier : Frontier) (offset : Nat) : Nat :=
  if offset = frontier.offset then frontier.refused.length else 0

/-- The record after `construct` failed at the offset, where `before` constructs had been refused
there when it was begun. One new entry is kept as it is, since it says more than the construct; any
other number of new entries gives way to the construct. A refusal further on is left alone, and one
further back is forgotten. -/
def refuse (construct : Construct) (offset before : Nat) (frontier : Frontier) : Frontier :=
  if frontier.countAt offset = before + 1 then frontier
  else if offset = frontier.offset then
    ⟨offset, frontier.refused.take before ++ [construct]⟩
  else if frontier.offset < offset then ⟨offset, [construct]⟩
  else frontier

end Frontier

/-- What becomes of an attempt to match: it matches with a result and goes on from a cursor, it
fails, or it meets a parenthesis, at the given offset, that would open one group too many. -/
inductive Outcome (α : Type) where
  | matched (value : α) (next : Cursor)
  | failed
  | tooDeep (offset : Nat)

/-- A matcher reads from a cursor and keeps the record of refusals up to date. -/
def Matcher (α : Type) : Type :=
  Cursor → Frontier → Outcome α × Frontier

namespace Matcher

variable {α β : Type}

/-- Match nothing and succeed. -/
def succeed (value : α) : Matcher α := fun cursor frontier ↦
  (.matched value cursor, frontier)

/-- Match one part, and then the part that follows from its result. -/
def andThen (first : Matcher α) (second : α → Matcher β) : Matcher β := fun cursor frontier ↦
  match first cursor frontier with
  | (.matched value next, updated) => second value next updated
  | (.failed, updated) => (.failed, updated)
  | (.tooDeep offset, updated) => (.tooDeep offset, updated)

instance : Monad Matcher where
  pure := succeed
  bind := andThen

/-- Match the first alternative, or the second one from the same place if the first fails. -/
def otherwise (first second : Matcher α) : Matcher α := fun cursor frontier ↦
  match first cursor frontier with
  | (.failed, updated) => second cursor updated
  | result => result

/-- Refuse to open a group whose parenthesis stands at the offset. -/
def refuseDepth (offset : Nat) : Matcher α := fun _ frontier ↦
  (.tooDeep offset, frontier)

/-- The offset of the place that has been reached. -/
def position : Matcher Nat := fun cursor frontier ↦
  (.matched cursor.offset cursor, frontier)

/-- Skip blank space, if there is any. -/
def blanks : Matcher Unit := fun cursor frontier ↦
  (.matched () (cursor.after (cursor.rest.takeWhile Text.isBlank)
    (cursor.rest.dropWhile Text.isBlank)), frontier)

/-- Match a named construct, and record the failure under its name. -/
def named (construct : Construct) (body : Matcher α) : Matcher α := fun cursor frontier ↦
  match body cursor frontier with
  | (.failed, updated) =>
      (.failed, updated.refuse construct cursor.offset (frontier.countAt cursor.offset))
  | result => result

/-- Match the token that the scanner reads. -/
def scanned (scan : Token.Scanner) : Matcher String := fun cursor frontier ↦
  match scan cursor.rest with
  | some (token, rest) => (.matched (String.ofList token) (cursor.after token rest), frontier)
  | none => (.failed, frontier)

/-- Match a token that is a construct of its own. -/
def token (construct : Construct) (scan : Token.Scanner) : Matcher String :=
  named construct (scanned scan)

/-- Match a part as often as it goes, with no more than `limit` attempts. -/
def repeated (part : Matcher α) : Nat → Matcher (List α)
  | 0 => succeed []
  | limit + 1 =>
      otherwise
        (andThen part fun value ↦ andThen (repeated part limit) fun values ↦
          succeed (value :: values))
        (succeed [])

/-- Match a part as often as it goes. Each match of the part must consume something, so there are no
more of them than characters left, and one attempt more finds that there is none. -/
def many (part : Matcher α) : Matcher (List α) := fun cursor frontier ↦
  repeated part (cursor.rest.length + 1) cursor frontier

end Matcher

end ModelQuery
