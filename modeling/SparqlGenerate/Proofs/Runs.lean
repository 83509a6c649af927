import SparqlGenerate.Proofs.Related
import SparqlGenerate.Run

/-!
# Laws of runs

How a run of several parts is put together from the runs of its parts. A check on its own is a
run that leaves the trace alone, so each law is stated for runs only. Nothing here depends on what
is compiled.
-/

namespace SparqlGenerate

namespace Run

variable {α β : Type}

theorem outcome_bind_of_ok {run : Run α} {next : α → Run β} {trace middle : Trace} {a : α}
    (h : run.outcome trace = some (.ok a, middle)) :
    outcome (run >>= next) trace = (next a).outcome middle := by
  simp [outcome_bind, h]

theorem outcome_bind_of_error {run : Run α} {next : α → Run β} {trace left : Trace}
    {error : CompileError} (h : run.outcome trace = some (.error error, left)) :
    outcome (run >>= next) trace = some (.error error, left) := by
  simp [outcome_bind, h]

/-- A run goes on to an end if its first part ends, and what is done with the result does. -/
theorem exists_outcome_bind {run : Run α} {next : α → Run β} {trace : Trace}
    (hrun : ∃ ended, run.outcome trace = some ended)
    (hnext : ∀ a middle, run.outcome trace = some (.ok a, middle) →
      ∃ ended, (next a).outcome middle = some ended) :
    ∃ ended, outcome (run >>= next) trace = some ended := by
  obtain ⟨⟨result, middle⟩, hrun⟩ := hrun
  cases result with
  | error error => exact ⟨_, outcome_bind_of_error hrun⟩
  | ok a =>
      obtain ⟨ended, hended⟩ := hnext a middle hrun
      exact ⟨ended, (outcome_bind_of_ok hrun).trans hended⟩

/-- A run with a result has passed through a result of its first part. -/
theorem exists_of_outcome_bind {run : Run α} {next : α → Run β} {trace left : Trace} {b : β}
    (h : outcome (run >>= next) trace = some (.ok b, left)) :
    ∃ a middle, run.outcome trace = some (.ok a, middle) ∧
      (next a).outcome middle = some (.ok b, left) := by
  rw [outcome_bind] at h
  cases hrun : run.outcome trace with
  | none => simp [hrun] at h
  | some ended =>
      obtain ⟨result, middle⟩ := ended
      cases result with
      | error error => simp [hrun] at h
      | ok a => exact ⟨a, middle, rfl, by simpa [hrun] using h⟩

theorem eq_of_outcome_pure {a b : α} {trace left : Trace}
    (h : outcome (pure a) trace = some (.ok b, left)) : b = a := by
  rw [outcome_pure] at h
  cases h
  rfl

/-! ## Checks -/

@[simp]
theorem ofExcept_ok (a : α) : ofExcept (.ok a) = pure a := rfl

@[simp]
theorem ofExcept_pure (a : α) : ofExcept (pure a) = pure a := rfl

theorem eq_ok_of_outcome_ofExcept {check : Except CompileError α} {a : α} {trace left : Trace}
    (h : (ofExcept check).outcome trace = some (.ok a, left)) : check = .ok a := by
  rw [outcome_ofExcept] at h
  cases h
  rfl

theorem ofExcept_map (value : α → β) (check : Except CompileError α) :
    ofExcept (value <$> check) = ofExcept check >>= fun a => pure (value a) := by
  ext trace : 1
  cases check with
  | error error => rfl
  | ok a => rfl

theorem ofExcept_bind (check : Except CompileError α) (next : α → Except CompileError β) :
    ofExcept (check >>= next) = ofExcept check >>= fun a => ofExcept (next a) := by
  ext trace : 1
  cases check with
  | error error => rfl
  | ok a => rfl

theorem ofExcept_mapM (check : α → Except CompileError β) (members : List α) :
    ofExcept (members.mapM check) = members.mapM fun a => ofExcept (check a) := by
  induction members with
  | nil => rfl
  | cons a rest ih =>
      simp only [List.mapM_cons, ofExcept_bind, ih]
      rfl

/-! ## Lists of runs -/

/-- Where the runs for the members of a list have results, these are the results of the single
runs, in the same order. -/
theorem forall₂_of_outcome_mapM {run : α → Run β} {members : List α} {results : List β}
    {trace left : Trace} (h : (members.mapM run).outcome trace = some (.ok results, left)) :
    List.Forall₂ (fun a b => ∃ before after, (run a).outcome before = some (.ok b, after))
      members results := by
  induction members generalizing results trace with
  | nil =>
      obtain ⟨rfl, -⟩ : [] = results ∧ trace = left := by simpa using h
      exact .nil
  | cons a rest ih =>
      rw [List.mapM_cons] at h
      obtain ⟨b, middle, hb, h⟩ := exists_of_outcome_bind h
      obtain ⟨bs, last, hbs, h⟩ := exists_of_outcome_bind h
      obtain ⟨rfl, rfl⟩ : b :: bs = results ∧ last = left := by simpa using h
      exact .cons ⟨trace, middle, hb⟩ (ih hbs)

end Run

/-! ## Faults in order -/

/-- Of the faults, given in the order in which they are looked for, the first one is the error of
the result. Where there is none, the result is a value. -/
def Reports {α : Type} : List Fault → Except CompileError α → Prop
  | [], result => ∃ a, result = .ok a
  | fault :: _, result => result = .error (.fault fault)

/-- The run always ends, and its result reports the faults. -/
def Run.Reports {α : Type} (run : Run α) (faults : List Fault) : Prop :=
  ∀ trace, ∃ result left, run.outcome trace = some (result, left) ∧
    SparqlGenerate.Reports faults result

namespace Run

variable {α β : Type}

theorem reports_pure (a : α) : (pure a : Run α).Reports [] :=
  fun trace => ⟨.ok a, trace, rfl, a, rfl⟩

theorem reports_throw (fault : Fault) (further : List Fault) :
    (throw (.fault fault) : Run α).Reports (fault :: further) :=
  fun trace => ⟨.error (.fault fault), trace, rfl, rfl⟩

/-- The faults of the first part come before those of what is done with its result. -/
theorem Reports.bind {run : Run α} {next : α → Run β} {first second : List Fault}
    (hrun : run.Reports first)
    (hnext : ∀ trace a middle, run.outcome trace = some (.ok a, middle) →
      (next a).Reports second) :
    Run.Reports (run >>= next) (first ++ second) := by
  intro trace
  obtain ⟨result, middle, houtcome, hresult⟩ := hrun trace
  cases first with
  | nil =>
      obtain ⟨a, rfl⟩ := hresult
      rw [outcome_bind_of_ok houtcome]
      exact hnext trace a middle houtcome middle
  | cons fault further =>
      obtain rfl : result = .error (.fault fault) := hresult
      exact ⟨.error (.fault fault), middle, outcome_bind_of_error houtcome, rfl⟩

/-- What is done with the result of a run adds no fault if it cannot fail. -/
theorem Reports.map {run : Run α} {faults : List Fault} (hrun : run.Reports faults)
    (value : α → β) : Run.Reports (run >>= fun a => pure (value a)) faults := by
  simpa using hrun.bind fun _ a _ _ => reports_pure (value a)

/-- The faults of the members of a list come in the order of the list. -/
theorem reports_mapM {run : α → Run β} {faults : α → List Fault} {members : List α}
    (h : ∀ a ∈ members, (run a).Reports (faults a)) :
    (members.mapM run).Reports (members.flatMap faults) := by
  induction members with
  | nil => exact reports_pure []
  | cons a rest ih =>
      rw [List.mapM_cons, List.flatMap_cons]
      refine (h a List.mem_cons_self).bind fun _ b _ _ => ?_
      exact (ih fun member hmember => h member (List.mem_cons_of_mem a hmember)).map _

/-- A run that reports its faults has a result if and only if there are none. -/
theorem Reports.succeeds_iff {run : Run α} {faults : List Fault} (h : run.Reports faults)
    (trace : Trace) : (∃ a left, run.outcome trace = some (.ok a, left)) ↔ faults = [] := by
  obtain ⟨result, left, houtcome, hresult⟩ := h trace
  cases faults with
  | nil =>
      obtain ⟨a, rfl⟩ := hresult
      exact iff_of_true ⟨a, left, houtcome⟩ rfl
  | cons fault further =>
      obtain rfl : result = .error (.fault fault) := hresult
      simp [houtcome]

end Run

end SparqlGenerate
