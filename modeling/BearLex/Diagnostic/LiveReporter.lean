import BearLex.Diagnostic.Action

/-! A reporter whose list of diagnostics lives in a memory of lists and is changed in place, and the
errors that it raises, each with a list of its own there. -/

namespace BearLex

/-- The lists of diagnostics that there are, each at its place. -/
structure Memory where
  lists : Array (Array Diagnostic)

namespace Memory

/-- The number of places. -/
def count (m : Memory) : Nat :=
  m.lists.size

def read (m : Memory) (place : Nat) : Array Diagnostic :=
  m.lists[place]?.getD #[]

/-- Changes the list at a place. -/
def change (m : Memory) (place : Nat) (f : Array Diagnostic → Array Diagnostic) : Memory :=
  ⟨m.lists.modify place f⟩

/-- A further list, at the place behind all others. -/
def create (m : Memory) (ds : Array Diagnostic) : Nat × Memory :=
  (m.count, ⟨m.lists.push ds⟩)

variable (m : Memory) {p q : Nat} (f : Array Diagnostic → Array Diagnostic) (ds : Array Diagnostic)

@[simp] theorem count_change : (m.change p f).count = m.count :=
  Array.size_modify

@[simp] theorem count_create : (m.create ds).2.count = m.count + 1 :=
  Array.size_push ds

theorem read_change_self (h : p < m.count) : (m.change p f).read p = f (m.read p) := by
  have inside : p < m.lists.size := h
  simp [read, change, Array.getElem_modify, inside]

theorem read_change_of_ne (h : p ≠ q) : (m.change p f).read q = m.read q := by
  simp [read, change, Array.getElem?_modify, h]

theorem read_create_self : (m.create ds).2.read (m.create ds).1 = ds := by
  simp [read, create, count]

theorem read_create_of_lt (h : q < m.count) : (m.create ds).2.read q = m.read q := by
  have inside : q < m.lists.size := h
  simp [read, create, Array.getElem?_push, Nat.ne_of_lt inside]

end Memory

/-! ### Errors -/

/-- The kinds of errors. -/
inductive ErrorKind
  | bear
  | lexical
  deriving DecidableEq

/-- The kind that a kind of errors is a special case of. -/
def ErrorKind.parent? : ErrorKind → Option ErrorKind
  | bear => none
  | lexical => some bear

namespace ErrorKind

/-- Who handles one kind of errors handles its special cases too. -/
inductive Is : ErrorKind → ErrorKind → Prop
  | same (k : ErrorKind) : Is k k
  | parent {k parent other : ErrorKind} (above : k.parent? = some parent) (h : Is parent other) :
    Is k other

theorem is_iff {k other : ErrorKind} : k.Is other ↔ other = k ∨ other = bear := by
  constructor
  · intro h
    induction h with
    | same k => exact .inl rfl
    | @parent k parent _ above _ ih =>
      cases k with
      | bear => cases above
      | lexical =>
        obtain rfl := Option.some.inj above
        exact .inr (ih.elim id id)
  · rintro (rfl | rfl)
    · exact .same other
    · cases k with
      | bear => exact .same bear
      | lexical => exact .parent rfl (.same bear)

instance (k other : ErrorKind) : Decidable (k.Is other) :=
  decidable_of_iff _ is_iff.symm

end ErrorKind

/-- An error with a text, and the place of the diagnostics that it holds. -/
structure RaisedError where
  kind : ErrorKind
  message : Text
  place : Nat

namespace RaisedError

/-- A lexical error holds a copy of the diagnostics that it is made from, or none. -/
def lexical (m : Memory) (report : Text) (diagnostics : Option Nat) : RaisedError × Memory :=
  let (place, m') := m.create ((diagnostics.map m.read).getD #[])
  (⟨.lexical, report, place⟩, m')

/-- The text of the error and the diagnostics that it holds by now. -/
def held (e : RaisedError) (m : Memory) : LexicalError :=
  ⟨e.message, (m.read e.place).toList⟩

end RaisedError

/-! ### Reporters -/

/-- A reporter that keeps its diagnostics in the list at `place`. -/
structure LiveReporter where
  limit : Int
  hadError : Bool
  echoed : Option (Array Text)
  place : Nat
  memory : Memory
  inside : place < memory.count

namespace LiveReporter

/-- The reporter with the diagnostics that are in its list by now. -/
def reporter (w : LiveReporter) : Reporter :=
  ⟨w.limit, w.hadError, w.memory.read w.place, w.echoed⟩

/-- A reporter with a list of its own, next to the lists of `m`. -/
def fresh (m : Memory) (limit : Int) (echoes : Bool) : LiveReporter where
  limit
  hadError := false
  echoed := if echoes then some #[] else none
  place := (m.create #[]).1
  memory := (m.create #[]).2
  inside := by simp [Memory.create, Memory.count]

/-- Changes the reporter's list in place. -/
def change (w : LiveReporter) (f : Array Diagnostic → Array Diagnostic) : LiveReporter :=
  { w with
    memory := w.memory.change w.place f
    inside := by simpa using w.inside }

/-- Takes note of a diagnostic and echoes it. -/
def note (w : LiveReporter) (d : Diagnostic) : LiveReporter :=
  { w with hadError := true, echoed := w.echoed.map (·.push d.render) }

/-- Takes note of a diagnostic and appends it to the list unless the reporter is full. -/
def report (w : LiveReporter) (d : Diagnostic) : LiveReporter :=
  if (w.note d).reporter.isFull then w.note d else (w.note d).change (·.push d)

/-- Empties the list. -/
def clear (w : LiveReporter) : LiveReporter :=
  { w.change (fun _ => #[]) with hadError := false }

def setLimit (w : LiveReporter) (limit : Int) : LiveReporter :=
  { w with limit }

/-- The error to raise, if a diagnostic was reported, made from the report and from the place of
the list itself. -/
def raise (w : LiveReporter) : Option RaisedError × LiveReporter :=
  if w.hadError then
    let made := RaisedError.lexical w.memory w.reporter.reportText (some w.place)
    (some made.1,
      { w with
        memory := made.2
        inside := Nat.lt_of_lt_of_le w.inside (by simp [made, RaisedError.lexical]) })
  else (none, w)

/-- The reporter after an action. -/
def after (w : LiveReporter) : Action → LiveReporter
  | .report d => w.report d
  | .scan source => (Scan.ofSource source).diagnostics.foldl report w
  | .clear => w.clear
  | .setLimit limit => w.setLimit limit
  | .readReport => w
  | .raise => w.raise.2

def afterAll (w : LiveReporter) (actions : List Action) : LiveReporter :=
  actions.foldl after w

end LiveReporter

end BearLex
