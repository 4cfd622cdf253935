import BearLex.Source.Listener

/-! The operations of a cursor as data, so that a walk is a list of them. -/

namespace BearLex

inductive Operation
  | scan
  | next
  | mark
  | scanSegment
  | skipComment
  | scanString
  | scanNumber
  | scanWord
  | atEnd
  | peek (offset : Int)
  | advance
  | matches (expected : Text)
  | addToken (kind : Kind) (literal : Literal)
  | report (message : Text)
  deriving DecidableEq

/-- What an operation answers. -/
inductive Reply
  | nothing
  | truth (b : Bool)
  | char (c : Option Char)
  | tokens (ts : List Token)
  | fault (f : Fault)
  deriving DecidableEq

namespace Cursor

/-- The reply of an operation that says nothing unless it fails, and the cursor after it. -/
def silently (r : Option Fault × Cursor) : Reply × Cursor :=
  (match r.1 with
    | some f => .fault f
    | none => .nothing,
   r.2)

/-- Carries out an operation. -/
def perform (c : Cursor) : Operation → Reply × Cursor
  | .scan =>
    match c.scan with
    | (none, d) => (.tokens d.tokens, d)
    | failed => silently failed
  | .next => silently c.next
  | .mark => (.nothing, c.mark)
  | .scanSegment => silently c.scanSegment
  | .skipComment => silently c.skipComment
  | .scanString => silently c.scanString
  | .scanNumber => silently c.scanNumber
  | .scanWord => silently c.scanWord
  | .atEnd => (.truth c.atEnd, c)
  | .peek offset =>
    match c.peek offset with
    | .ok char => (.char char, c)
    | .error f => (.fault f, c)
  | .advance =>
    match c.advance with
    | (.ok char, d) => (.char (some char), d)
    | (.error f, d) => (.fault f, d)
  | .matches expected => (.truth (c.matches? expected).1, (c.matches? expected).2)
  | .addToken kind literal => (.nothing, c.addToken kind literal)
  | .report message => (.nothing, c.report message)

/-- The cursor after a walk. -/
def walk (c : Cursor) (operations : List Operation) : Cursor :=
  operations.foldl (fun d o => (d.perform o).2) c

end Cursor

end BearLex
