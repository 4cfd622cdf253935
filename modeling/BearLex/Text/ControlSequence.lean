import BearLex.Text.Basic

/-! Terminal control sequences: an escape and a `[`, then parameter characters, then intermediate
characters, then one final character. The three classes share no character, so a sequence is
determined by where it starts. -/

namespace BearLex.ControlSequence

def escape : Char := '\x1b'

/-- A digit or one of the marks up to `?`. -/
def isParameter (c : Char) : Bool :=
  decide ('0' ≤ c) && decide (c ≤ '?')

/-- A space or one of the marks up to `/`. -/
def isIntermediate (c : Char) : Bool :=
  decide (' ' ≤ c) && decide (c ≤ '/')

/-- A letter or one of the marks around the letters. -/
def isFinal (c : Char) : Bool :=
  decide ('@' ≤ c) && decide (c ≤ '~')

/-- The number of characters that complete a control sequence after its escape. -/
def length? : Text → Option Nat
  | '[' :: rest =>
    let parameters := rest.takeWhile isParameter
    let afterParameters := rest.dropWhile isParameter
    let intermediates := afterParameters.takeWhile isIntermediate
    match afterParameters.dropWhile isIntermediate with
    | c :: _ => if isFinal c then some (1 + parameters.length + intermediates.length + 1) else none
    | [] => none
  | _ => none

/-- The text after its first `skip` characters, without its control sequences. -/
def stripAfter : Nat → Text → Text
  | _, [] => []
  | skip + 1, _ :: rest => stripAfter skip rest
  | 0, c :: rest =>
    if c = escape then
      match length? rest with
      | some n => stripAfter n rest
      | none => c :: stripAfter 0 rest
    else c :: stripAfter 0 rest

/-- The text without its control sequences, each found at the first place where one starts. -/
def strip (s : Text) : Text :=
  stripAfter 0 s

end BearLex.ControlSequence
