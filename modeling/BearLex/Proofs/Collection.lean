import Mathlib.Data.List.Induction
import BearLex.Diagnostic.Action
import BearLex.Source.Traversal
import BearLex.Text.Lemmas

/-! What a reporter holds after a history of actions, told from the history alone. The flag, the
stored diagnostics and the echo each follow a rule of their own: the flag and the stored ones begin
anew with every clearing, the echo never does, and only what is stored depends on the limit. -/

namespace BearLex

/-- The diagnostics for what the cursor has reported. -/
def Cursor.diagnostics (c : Cursor) : List Diagnostic :=
  c.reported.map fun entry => ⟨entry.1, entry.2, []⟩

/-- A cursor that scans a source from its start reports the diagnostics of the source. -/
theorem Cursor.diagnostics_scan (source : Text) :
    (Cursor.atStart source).scan.2.diagnostics = (Scan.ofSource source).diagnostics := by
  have reported := (Cursor.scan_atStart source).2.reported
  rw [Cursor.diagnostics, reported, Scan.diagnostics]
  simp [Cursor.atStart, Finding.entry, Finding.diagnostic]

namespace Action

/-- The diagnostics that an action reports. A scan reports what the cursor reports on its way. -/
def reported : Action → List Diagnostic
  | report d => [d]
  | scan source => (Cursor.atStart source).scan.2.diagnostics
  | clear | setLimit _ | readReport | raise => []

/-- The limit in force after a history, the latest action first, that began with `limit`. -/
def limitAfter (limit : Int) : List Action → Int
  | [] => limit
  | setLimit other :: _ => other
  | _ :: past => limitAfter limit past

/-- The diagnostics reported since the last clearing in a history, the latest action first, each
with the limit in force when it was reported. -/
def sightings (limit : Int) : List Action → List (Int × Diagnostic)
  | [] => []
  | clear :: _ => []
  | a :: past => sightings limit past ++ a.reported.map (limitAfter limit past, ·)

end Action

/-- Of the diagnostics seen, each with the limit in force at that moment, those are stored that were
seen while fewer than the limit were stored; `count` were stored before. -/
inductive Kept : Nat → List (Int × Diagnostic) → List Diagnostic → Prop
  | nil (count : Nat) : Kept count [] []
  | stored {count : Nat} {limit : Int} {d : Diagnostic} {seen : List (Int × Diagnostic)}
    {stored : List Diagnostic} (room : count < limit) (more : Kept (count + 1) seen stored) :
    Kept count ((limit, d) :: seen) (d :: stored)
  | dropped {count : Nat} {limit : Int} {d : Diagnostic} {seen : List (Int × Diagnostic)}
    {stored : List Diagnostic} (full : limit ≤ count) (more : Kept count seen stored) :
    Kept count ((limit, d) :: seen) stored

namespace Kept

variable {count : Nat} {seen more : List (Int × Diagnostic)} {stored further : List Diagnostic}

theorem append (h : Kept count seen stored) (h' : Kept (count + stored.length) more further) :
    Kept count (seen ++ more) (stored ++ further) := by
  induction h with
  | nil => exact h'
  | stored room _ ih =>
    refine .stored room (ih ?_)
    rwa [List.length_cons, ← Nat.add_assoc, Nat.add_right_comm] at h'
  | dropped full _ ih => exact .dropped full (ih h')

theorem unique (h : Kept count seen stored) (h' : Kept count seen further) : further = stored := by
  induction h generalizing further with
  | nil =>
    cases h'
    rfl
  | stored room _ ih =>
    cases h' with
    | stored _ more => rw [ih more]
    | dropped full => omega
  | dropped full _ ih =>
    cases h' with
    | stored room => omega
    | dropped _ more => exact ih more

/-- What is stored was seen, in the same order. -/
theorem sublist (h : Kept count seen stored) : stored.Sublist (seen.map Prod.snd) := by
  induction h with
  | nil => exact .slnil
  | stored _ _ ih => exact ih.cons_cons _
  | dropped _ _ ih => exact ih.cons _

/-- Under a limit that stays the same, the first diagnostics up to the limit are stored. -/
theorem eq_take {limit : Int} (h : Kept count seen stored) (same : ∀ s ∈ seen, s.1 = limit) :
    stored = (seen.map Prod.snd).take (limit - count).toNat := by
  induction h with
  | nil => rw [List.map_nil, List.take_nil]
  | @stored count first d seen stored room _ ih =>
    obtain ⟨rfl, others⟩ := List.forall_mem_cons.1 same
    have left : (first - count).toNat = (first - (count + 1 : Nat)).toNat + 1 := by omega
    rw [left, List.map_cons, List.take_succ_cons, ih others]
  | @dropped count first d seen stored full _ ih =>
    obtain ⟨rfl, others⟩ := List.forall_mem_cons.1 same
    have none : (first - count).toNat = 0 := by omega
    rw [ih others, none, List.take_zero, List.take_zero]

end Kept

namespace Reporter

variable (r : Reporter) (ds : List Diagnostic)

/-! ### Several reports at once -/

theorem hadError_reportAll : (r.reportAll ds).hadError = (r.hadError || !ds.isEmpty) := by
  induction ds generalizing r with
  | nil => simp [reportAll]
  | cons d ds ih => simpa [reportAll, report] using ih (r.report d)

theorem limit_reportAll : (r.reportAll ds).limit = r.limit := by
  induction ds generalizing r with
  | nil => rfl
  | cons d ds ih => exact ih (r.report d)

theorem echoed_reportAll :
    (r.reportAll ds).echoed = r.echoed.map (· ++ (ds.map Diagnostic.render).toArray) := by
  induction ds generalizing r with
  | nil => simp [reportAll]
  | cons d ds ih =>
    have step : (r.report d).echoed = r.echoed.map (·.push d.render) := rfl
    rw [reportAll, List.foldl_cons, ← reportAll, ih, step]
    cases r.echoed <;> simp

/-- Of diagnostics reported one after the other, those are stored for which there is room. -/
theorem stored_reportAll :
    ∃ further, (r.reportAll ds).stored.toList = r.stored.toList ++ further ∧
      Kept r.stored.size (ds.map (r.limit, ·)) further := by
  induction ds generalizing r with
  | nil => exact ⟨[], (List.append_nil _).symm, .nil _⟩
  | cons d ds ih =>
    obtain ⟨further, stored, kept⟩ := ih (r.report d)
    by_cases full : r.limit ≤ r.stored.size
    · have same : (r.report d).stored = r.stored := if_pos (decide_eq_true full)
      rw [same] at stored kept
      exact ⟨further, stored, .dropped full kept⟩
    · have pushed : (r.report d).stored = r.stored.push d := by
        simp [report, isFull, full]
      rw [pushed, Array.toList_push, List.append_assoc] at stored
      rw [pushed, Array.size_push] at kept
      exact ⟨d :: further, stored, .stored (Int.not_le.1 full) kept⟩

/-! ### Histories -/

/-- The reporter is what a history, the latest action first, has made of a fresh reporter with an
echo and `limit`. -/
structure Follows (limit : Int) (past : List Action) (r : Reporter) : Prop where
  limit_eq : r.limit = Action.limitAfter limit past
  flag : r.hadError = true ↔ Action.sightings limit past ≠ []
  echo : r.echoed = some ((past.reverse.flatMap Action.reported).map Diagnostic.render).toArray
  store : Kept 0 (Action.sightings limit past) r.stored.toList

namespace Follows

variable {r : Reporter} {limit : Int} {past : List Action}

theorem fresh (limit : Int) : (Reporter.fresh limit true).Follows limit [] :=
  ⟨rfl, by simp [Reporter.fresh, Action.sightings], rfl, .nil 0⟩

/-- An action that does nothing but report adds what it reports to what was seen. -/
theorem collect {a : Action} (h : r.Follows limit past)
    (reports : r.after a = r.reportAll a.reported)
    (limit_same : Action.limitAfter limit (a :: past) = Action.limitAfter limit past)
    (seen : Action.sightings limit (a :: past) =
      Action.sightings limit past ++ a.reported.map (Action.limitAfter limit past, ·)) :
    (r.after a).Follows limit (a :: past) := by
  rw [reports]
  refine ⟨?_, ?_, ?_, ?_⟩
  · rw [limit_reportAll, limit_same, h.limit_eq]
  · rw [hadError_reportAll, Bool.or_eq_true, h.flag, seen]
    cases a.reported <;> simp
  · rw [echoed_reportAll, h.echo, List.reverse_cons, List.flatMap_append, List.map_append]
    simp
  · obtain ⟨further, stored, kept⟩ := r.stored_reportAll a.reported
    rw [seen, stored]
    rw [h.limit_eq] at kept
    refine h.store.append ?_
    rwa [Nat.zero_add, Array.length_toList]

/-- Every action keeps a reporter in step with its history. -/
theorem after (h : r.Follows limit past) (a : Action) : (r.after a).Follows limit (a :: past) := by
  cases a with
  | report d => exact h.collect rfl rfl rfl
  | scan source =>
    refine h.collect ?_ rfl rfl
    rw [Reporter.after, Action.reported, Cursor.diagnostics_scan]
  | clear =>
    have echo := h.echo
    refine ⟨h.limit_eq, ?_, ?_, .nil 0⟩
    · simp [Reporter.after, clear, Action.sightings]
    · rw [List.reverse_cons, List.flatMap_append]
      simpa [Reporter.after, clear, Action.reported] using echo
  | setLimit other =>
    have seen : Action.sightings limit (.setLimit other :: past) = Action.sightings limit past :=
      List.append_nil _
    refine ⟨rfl, ?_, ?_, ?_⟩
    · rw [seen]
      exact h.flag
    · rw [List.reverse_cons, List.flatMap_append]
      simpa [Reporter.after, setLimit, Action.reported] using h.echo
    · rw [seen]
      exact h.store
  | readReport => exact h.collect rfl rfl rfl
  | raise => exact h.collect rfl rfl rfl

theorem afterAll (limit : Int) (actions : List Action) :
    ((Reporter.fresh limit true).afterAll actions).Follows limit actions.reverse := by
  induction actions using List.reverseRecOn with
  | nil => exact fresh limit
  | append_singleton actions a ih =>
    rw [List.reverse_append, Reporter.afterAll, List.foldl_append]
    exact ih.after a

end Follows

/-- The report is the stored diagnostics, a line for each, and their number. -/
theorem reportText_eq (r : Reporter) :
    r.reportText =
      r.stored.toList.flatMap (fun d => d.render ++ ['\n']) ++ summary r.stored.toList.length := by
  rw [reportText, Text.join_append_singleton, List.flatMap_map, Array.length_toList]

/-- After any actions on a fresh reporter with an echo, the flag tells whether a diagnostic was
reported since the last clearing; the echo has received every diagnostic ever reported; those
reported since the last clearing are stored that found fewer stored than the limit of that moment,
which under one limit are the first ones up to it; and the report is the stored ones, a line for
each, and their number. -/
theorem reporter_collects (limit : Int) (actions : List Action) :
    let r := (Reporter.fresh limit true).afterAll actions
    let seen := Action.sightings limit actions.reverse
    let stored := r.stored.toList
    (r.hadError = true ↔ seen ≠ []) ∧
    r.echoed = some ((actions.flatMap Action.reported).map Diagnostic.render).toArray ∧
    (Kept 0 seen stored ∧ ∀ others, Kept 0 seen others → others = stored) ∧
    (∀ m : Int, (∀ s ∈ seen, s.1 = m) → stored = (seen.map Prod.snd).take m.toNat) ∧
    r.reportText = stored.flatMap (fun d => d.render ++ ['\n']) ++ Numeral.ofNat stored.length ++
      if stored.length = 1 then " error".toList else " errors".toList := by
  intro r seen stored
  have follows := Follows.afterAll limit actions
  refine ⟨follows.flag, ?_, ⟨follows.store, fun _ => follows.store.unique⟩, ?_, ?_⟩
  · have echo := follows.echo
    rwa [List.reverse_reverse] at echo
  · intro m same
    have := follows.store.eq_take same
    rwa [Int.natCast_zero, Int.sub_zero] at this
  · rw [List.append_assoc]
    exact r.reportText_eq

end Reporter

end BearLex
