import BearLex.Text.Basic

/-! Paths. A path is written with its parts between single slashes; empty parts and single points
are left out, double points stay. -/

namespace BearLex

/-- A path: how many slashes it starts with, none, one or two, and its parts. -/
structure Path where
  slashes : Nat
  parts : List Text
  deriving DecidableEq

namespace Path

/-- The pieces of a text between slashes. -/
def pieces : Text → List Text
  | [] => [[]]
  | '/' :: rest => [] :: pieces rest
  | c :: rest =>
    match pieces rest with
    | [] => [[c]]
    | piece :: more => (c :: piece) :: more

/-- The path that a text means. Two slashes at the front are kept, and of three or more one. -/
def ofText (s : Text) : Path :=
  let leading := (s.takeWhile (· == '/')).length
  { slashes := if leading ≤ 2 then leading else 1
    parts := (pieces s).filter fun piece => piece ≠ [] ∧ piece ≠ ['.'] }

/-- A path as written. The empty path is a point. -/
def render (p : Path) : Text :=
  match p.slashes, p.parts with
  | 0, [] => ['.']
  | n, parts => List.replicate n '/' ++ Text.join ['/'] parts

end Path

end BearLex
