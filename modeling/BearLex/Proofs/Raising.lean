import Mathlib.Data.List.Basic
import Mathlib.Data.List.Induction
import BearLex.Diagnostic.LiveReporter
import BearLex.Proofs.Collection

/-! Errors are raised when a diagnostic was reported since the last clearing, and they hold what the
reporter held at that moment. The reporter goes on to change its list in place; an error keeps what
it holds because its list is at another place, which no action on the reporter writes to. -/

namespace BearLex

/-! ### When an error is raised -/

/-- A diagnostic was reported in the history, and the reporter was not cleared after that. -/
def Action.Pending (history : List Action) : Prop :=
  ∃ earlier a recent, history = earlier ++ a :: recent ∧ a.reported ≠ [] ∧ .clear ∉ recent

namespace Action

theorem not_pending_nil : ¬ Pending [] := by
  rintro ⟨earlier, a, recent, e, -⟩
  cases earlier <;> cases e

theorem pending_concat {history : List Action} {a : Action} :
    Pending (history ++ [a]) ↔ a.reported ≠ [] ∨ (a ≠ .clear ∧ Pending history) := by
  constructor
  · rintro ⟨earlier, b, recent, e, reported, kept⟩
    rcases List.eq_nil_or_concat' recent with rfl | ⟨recent, last, rfl⟩
    · obtain ⟨-, same⟩ := List.append_inj' e rfl
      obtain rfl := (List.cons.inj same).1
      exact .inl reported
    · rw [← List.cons_append, ← List.append_assoc] at e
      obtain ⟨rfl, same⟩ := List.append_inj' e rfl
      obtain rfl := (List.cons.inj same).1
      obtain ⟨before, last⟩ := not_or.1 (mt List.mem_append.2 kept)
      exact .inr ⟨fun clear => last (List.mem_singleton.2 clear.symm), earlier, b, recent, rfl,
        reported, before⟩
  · rintro (reported | ⟨other, earlier, b, recent, rfl, reported, kept⟩)
    · exact ⟨history, a, [], rfl, reported, List.not_mem_nil⟩
    · refine ⟨earlier, b, recent ++ [a], by simp, reported, fun mem => ?_⟩
      rcases List.mem_append.1 mem with before | last
      · exact kept before
      · exact other (List.mem_singleton.1 last).symm

end Action

namespace Reporter

theorem hadError_after (r : Reporter) (a : Action) :
    (r.after a).hadError = true ↔ a.reported ≠ [] ∨ (a ≠ .clear ∧ r.hadError = true) := by
  cases a with
  | scan source =>
    rw [after, hadError_reportAll, Action.reported, Cursor.diagnostics_scan]
    cases (Scan.ofSource source).diagnostics <;> simp
  | _ => simp [after, report, clear, setLimit, Action.reported]

/-- The flag of a reporter is up as long as there is something to raise. -/
theorem hadError_afterAll (limit : Int) (echoes : Bool) (history : List Action) :
    ((fresh limit echoes).afterAll history).hadError = true ↔ Action.Pending history := by
  induction history using List.reverseRecOn with
  | nil => exact iff_of_false Bool.false_ne_true Action.not_pending_nil
  | append_singleton history a ih =>
    have step : (fresh limit echoes).afterAll (history ++ [a]) =
        ((fresh limit echoes).afterAll history).after a := List.foldl_append
    rw [step, hadError_after, Action.pending_concat, ih]

end Reporter

namespace LiveReporter

variable {w w' w'' : LiveReporter}

/-! ### What the reporter shows -/

theorem reporter_fresh (m : Memory) (limit : Int) (echoes : Bool) :
    (fresh m limit echoes).reporter = Reporter.fresh limit echoes := by
  unfold reporter fresh
  rw [Memory.read_create_self]
  rfl

theorem reporter_eq {stored : Array Diagnostic} (h : w.memory.read w.place = stored) :
    w.reporter = ⟨w.limit, w.hadError, stored, w.echoed⟩ := by
  rw [reporter, h]

/-- What is done to the list in place is done to the diagnostics that the reporter shows. -/
theorem reporter_change (w : LiveReporter) (f : Array Diagnostic → Array Diagnostic) :
    (w.change f).reporter = { w.reporter with stored := f w.reporter.stored } := by
  apply reporter_eq
  exact Memory.read_change_self _ _ w.inside

theorem reporter_report (w : LiveReporter) (d : Diagnostic) :
    (w.report d).reporter = w.reporter.report d := by
  rw [report, Reporter.report]
  by_cases full : w.reporter.isFull = true
  · have noted : (w.note d).reporter.isFull = true := full
    rw [if_pos noted, if_pos full]
    rfl
  · have noted : ¬ (w.note d).reporter.isFull = true := full
    rw [if_neg noted, if_neg full, reporter_change]
    rfl

theorem reporter_clear (w : LiveReporter) : w.clear.reporter = w.reporter.clear := by
  have empty := w.reporter_change fun _ => #[]
  exact congrArg (fun r : Reporter => { r with hadError := false }) empty

theorem reporter_raise (w : LiveReporter) : w.raise.2.reporter = w.reporter := by
  unfold raise
  split
  · apply reporter_eq
    exact Memory.read_create_of_lt _ _ w.inside
  · rfl

theorem reporter_foldl_report (w : LiveReporter) (ds : List Diagnostic) :
    (ds.foldl report w).reporter = w.reporter.reportAll ds := by
  induction ds generalizing w with
  | nil => rfl
  | cons d ds ih =>
    rw [List.foldl_cons, ih, reporter_report]
    rfl

theorem reporter_after (w : LiveReporter) (a : Action) :
    (w.after a).reporter = w.reporter.after a := by
  cases a with
  | report d => exact w.reporter_report d
  | scan source => exact w.reporter_foldl_report _
  | clear => exact w.reporter_clear
  | setLimit limit => rfl
  | readReport => rfl
  | raise => exact w.reporter_raise

/-- A reporter that changes its list in place shows what one with the diagnostics in it does. -/
theorem reporter_afterAll (w : LiveReporter) (actions : List Action) :
    (w.afterAll actions).reporter = w.reporter.afterAll actions := by
  induction actions generalizing w with
  | nil => rfl
  | cons a actions ih =>
    show ((w.after a).afterAll actions).reporter = (w.reporter.after a).afterAll actions
    rw [ih, reporter_after]

/-! ### What is left alone -/

/-- The reporter keeps its place, and every list at another place stays as it is. -/
structure Spares (w w' : LiveReporter) : Prop where
  place : w'.place = w.place
  count : w.memory.count ≤ w'.memory.count
  others : ∀ p < w.memory.count, p ≠ w.place → w'.memory.read p = w.memory.read p

namespace Spares

theorem refl (w : LiveReporter) : Spares w w :=
  ⟨rfl, Nat.le_refl _, fun _ _ _ => rfl⟩

theorem trans (h : Spares w w') (h' : Spares w' w'') : Spares w w'' := by
  refine ⟨h'.place.trans h.place, Nat.le_trans h.count h'.count, fun p inside other => ?_⟩
  have other' : p ≠ w'.place := by
    rw [h.place]
    exact other
  rw [h'.others p (Nat.lt_of_lt_of_le inside h.count) other', h.others p inside other]

end Spares

theorem spares_change (w : LiveReporter) (f : Array Diagnostic → Array Diagnostic) :
    Spares w (w.change f) := by
  refine ⟨rfl, Nat.le_of_eq (Memory.count_change _ f).symm, fun p _ other => ?_⟩
  exact Memory.read_change_of_ne _ f other.symm

theorem spares_report (w : LiveReporter) (d : Diagnostic) : Spares w (w.report d) := by
  have noted : Spares w (w.note d) := ⟨rfl, Nat.le_refl _, fun _ _ _ => rfl⟩
  unfold report
  split
  · exact noted
  · exact noted.trans (spares_change _ _)

theorem spares_foldl_report (w : LiveReporter) (ds : List Diagnostic) :
    Spares w (ds.foldl report w) := by
  induction ds generalizing w with
  | nil => exact .refl w
  | cons d ds ih => exact (w.spares_report d).trans (ih (w.report d))

theorem spares_clear (w : LiveReporter) : Spares w w.clear := by
  have emptied := w.spares_change fun _ => #[]
  exact ⟨emptied.place, emptied.count, emptied.others⟩

/-- Raising adds a list and leaves all others as they are, the reporter's own among them. -/
theorem read_raise (w : LiveReporter) {p : Nat} (h : p < w.memory.count) :
    w.raise.2.memory.read p = w.memory.read p := by
  unfold raise
  split
  · exact Memory.read_create_of_lt _ _ h
  · rfl

theorem spares_raise (w : LiveReporter) : Spares w w.raise.2 := by
  refine ⟨?_, ?_, fun p inside _ => w.read_raise inside⟩
  · unfold raise
    split <;> rfl
  · unfold raise
    split
    · simp [RaisedError.lexical]
    · exact Nat.le_refl _

theorem spares_after (w : LiveReporter) (a : Action) : Spares w (w.after a) := by
  cases a with
  | report d => exact w.spares_report d
  | scan source => exact w.spares_foldl_report _
  | clear => exact w.spares_clear
  | setLimit limit => exact ⟨rfl, Nat.le_refl _, fun _ _ _ => rfl⟩
  | readReport => exact .refl w
  | raise => exact w.spares_raise

theorem spares_afterAll (w : LiveReporter) (actions : List Action) :
    Spares w (w.afterAll actions) := by
  induction actions generalizing w with
  | nil => exact .refl w
  | cons a actions ih => exact (w.spares_after a).trans (ih (w.after a))

/-! ### What is raised -/

theorem isSome_raise (w : LiveReporter) : w.raise.1.isSome = w.hadError := by
  unfold raise
  split
  next up => exact up.symm
  next down => exact (Bool.eq_false_iff.2 down).symm

/-- A raised error is a lexical one with the report of that moment, and it holds the diagnostics
stored at that moment at a place where no list was before. -/
theorem of_raise {w : LiveReporter} {e : RaisedError} (h : w.raise.1 = some e) :
    e.kind = .lexical ∧ w.memory.count ≤ e.place ∧ e.place < w.raise.2.memory.count ∧
      e.held w.raise.2.memory = ⟨w.reporter.reportText, w.reporter.stored.toList⟩ := by
  unfold raise at h ⊢
  split at h
  next up =>
    rw [if_pos up]
    cases h
    refine ⟨rfl, Nat.le_refl _, ?_, ?_⟩
    · simp [RaisedError.lexical, Memory.create, Memory.count]
    · exact congrArg (fun ds => LexicalError.mk _ (Array.toList ds))
        (Memory.read_create_self w.memory _)
  next => cases h

/-- The error holds what the reporter shown has to raise. -/
theorem map_held_raise (w : LiveReporter) :
    w.raise.1.map (·.held w.raise.2.memory) = w.reporter.error? := by
  have flag : w.reporter.hadError = w.raise.1.isSome := w.isSome_raise.symm
  rw [Reporter.error?, flag]
  cases raised : w.raise.1 with
  | none => rfl
  | some e =>
    obtain ⟨-, -, -, held⟩ := of_raise raised
    rw [Option.map_some, held]
    rfl

end LiveReporter

/-- Whatever was done with a reporter before, it shows what the same actions make of a reporter with
the diagnostics in it, and raising changes nothing in that. An error is raised if and only if a
diagnostic was reported since the last clearing. It is a lexical error, it holds the report and the
diagnostics of that moment, and it holds the same whatever is done with the reporter later. -/
theorem raised_errors_detached (m : Memory) (limit : Int) (echoes : Bool) (before : List Action) :
    let w := (LiveReporter.fresh m limit echoes).afterAll before
    let r := (Reporter.fresh limit echoes).afterAll before
    w.reporter = r ∧
    (w.raise.1.isSome = true ↔ Action.Pending before) ∧
    (w.raise.2.reporter = r ∧ w.raise.2.place = w.place ∧
      ∀ p < w.memory.count, w.raise.2.memory.read p = w.memory.read p) ∧
    w.raise.1.map (·.held w.raise.2.memory) = r.error? ∧
    ∀ e, w.raise.1 = some e →
      e.kind = .lexical ∧ e.kind.Is .bear ∧
      ∀ later : List Action,
        (e.held (w.raise.2.afterAll later).memory).message = r.reportText ∧
        (e.held (w.raise.2.afterAll later).memory).diagnostics = r.stored.toList := by
  intro w r
  have shown : w.reporter = r := by
    rw [LiveReporter.reporter_afterAll, LiveReporter.reporter_fresh]
  have flag : w.hadError = r.hadError := congrArg Reporter.hadError shown
  refine ⟨shown, ?_, ⟨w.reporter_raise.trans shown, w.spares_raise.place, fun p => w.read_raise⟩,
    ?_, ?_⟩
  · rw [w.isSome_raise, flag]
    exact Reporter.hadError_afterAll limit echoes before
  · rw [w.map_held_raise, shown]
  · intro e raised
    obtain ⟨kind, new, inside, held⟩ := LiveReporter.of_raise raised
    refine ⟨kind, ?_, fun later => ?_⟩
    · exact ErrorKind.is_iff.2 (.inr rfl)
    · have spares := w.raise.2.spares_afterAll later
      have other : e.place ≠ w.raise.2.place := by
        rw [w.spares_raise.place]
        exact Nat.ne_of_gt (Nat.lt_of_lt_of_le w.inside new)
      have same : e.held (w.raise.2.afterAll later).memory = e.held w.raise.2.memory := by
        rw [RaisedError.held, spares.others e.place inside other]
        rfl
      rw [same, held, shown]
      exact ⟨rfl, rfl⟩

/-- An error is raised for a diagnostic that was not stored, and stays without diagnostics. -/
theorem raised_errors_detached_unstored :
    let w := (LiveReporter.fresh ⟨#[]⟩ 0 false).afterAll [.clear, .scan "@".toList, .readReport]
    ∃ e, w.raise.1 = some e ∧ ∀ later : List Action,
      (e.held (w.raise.2.afterAll later).memory).message = "0 errors".toList ∧
      (e.held (w.raise.2.afterAll later).memory).diagnostics = [] := by
  intro w
  obtain ⟨-, raises, -, -, detached⟩ :=
    raised_errors_detached ⟨#[]⟩ 0 false [.clear, .scan "@".toList, .readReport]
  have reported : (Action.scan "@".toList).reported ≠ [] := by decide +kernel
  have pending : Action.Pending [.clear, .scan "@".toList, .readReport] :=
    ⟨[.clear], .scan "@".toList, [.readReport], rfl, reported, by decide⟩
  obtain ⟨e, raised⟩ := Option.isSome_iff_exists.1 (raises.2 pending)
  refine ⟨e, raised, fun later => ?_⟩
  obtain ⟨-, -, keeps⟩ := detached e raised
  obtain ⟨message, diagnostics⟩ := keeps later
  refine ⟨message.trans ?_, diagnostics.trans ?_⟩
  · decide +kernel
  · decide +kernel

end BearLex
