import BearLex.Text.Basic

/-! Line ends. A text that comes from outside may end its lines with CR LF, CR or LF; inside, LF
alone ends a line. -/

namespace BearLex.Lines

/-- Every CR LF and every other CR becomes one LF. -/
def unify : Text → Text
  | [] => []
  | '\r' :: '\n' :: rest => '\n' :: unify rest
  | '\r' :: rest => '\n' :: unify rest
  | c :: rest => c :: unify rest

/-- The lines of a text without their LFs. What follows the last LF is a line unless it is empty. -/
def split : Text → List Text
  | [] => []
  | '\n' :: rest => [] :: split rest
  | c :: rest =>
    match split rest with
    | [] => [[c]]
    | line :: lines => (c :: line) :: lines

/-- The number of LFs in a text. -/
def count (s : Text) : Nat :=
  s.count '\n'

theorem count_append (s t : Text) : count (s ++ t) = count s + count t :=
  List.count_append

theorem count_eq_zero {s : Text} (h : ∀ c ∈ s, c ≠ '\n') : count s = 0 :=
  List.count_eq_zero.2 fun mem => h _ mem rfl

theorem count_singleton {d : Char} (h : d ≠ '\n') : count [d] = 0 :=
  count_eq_zero fun e he => by
    rw [List.mem_singleton.1 he]
    exact h

end BearLex.Lines
