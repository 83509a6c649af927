import SparqlGenerate.Parser
import SparqlGenerate.Query.Lift

/-!
# Runs of a compilation

A compilation runs on a trace, in which it counts the fresh variables it draws and writes down its
calls of the parser. It ends with a result or with an error, or is abandoned because it goes deeper
than it may. An abandoned run has no outcome at all; it is not an error.
-/

namespace SparqlGenerate

/-- What compilations leave behind. -/
structure Trace where
  /-- How many fresh variables were drawn. -/
  drawn : Nat := 0
  /-- The calls of the parser, oldest first. -/
  calls : List Call := []

/-- A computation on a trace. -/
abbrev Run := ExceptT CompileError (StateT Trace Option)

namespace Run

variable {α β : Type}

/-- The result or the error of a run from the trace, with the trace that is left. There is none if
the run is abandoned. -/
def outcome (run : Run α) (trace : Trace) : Option (Except CompileError α × Trace) :=
  run trace

/-- The run that is abandoned at once. -/
def abandon : Run α :=
  fun _ => none

/-- The run that ends at once, as the check did. -/
def ofExcept (check : Except CompileError α) : Run α :=
  fun trace => some (check, trace)

@[ext]
theorem ext {first second : Run α} (h : ∀ trace, first.outcome trace = second.outcome trace) :
    first = second :=
  funext h

@[simp]
theorem outcome_pure (a : α) (trace : Trace) :
    outcome (pure a) trace = some (.ok a, trace) := rfl

@[simp]
theorem outcome_throw (error : CompileError) (trace : Trace) :
    outcome (throw error : Run α) trace = some (.error error, trace) := rfl

@[simp]
theorem outcome_abandon (trace : Trace) : outcome (abandon : Run α) trace = none := rfl

@[simp]
theorem outcome_ofExcept (check : Except CompileError α) (trace : Trace) :
    (ofExcept check).outcome trace = some (check, trace) := rfl

/-- A run goes on from the trace that its first part left, unless that part failed. -/
theorem outcome_bind (run : Run α) (next : α → Run β) (trace : Trace) :
    outcome (run >>= next) trace =
      (run.outcome trace).bind fun (result, left) =>
        match result with
        | .ok a => (next a).outcome left
        | .error error => some (.error error, left) := by
  simp only [outcome, bind, ExceptT.bind, ExceptT.mk, ExceptT.bindCont, StateT.bind]
  cases run trace with
  | none => rfl
  | some ended => rcases ended with ⟨_ | _, _⟩ <;> rfl

end Run

/-- Calls the parser, and writes the call down whatever the answer. -/
def Parser.ask (parser : Parser) (call : Call) : Run Query := fun trace =>
  some ((parser.answer trace.calls call).mapError fun failure => failure.toError call.text,
    { trace with calls := trace.calls ++ [call] })

/-- Lifts the embedded expressions of the query with the next fresh variables. -/
def Query.liftNext (fresh : Supply) (query : Query) : Run Query := fun trace =>
  some (.ok (query.lift fresh trace.drawn),
    { trace with drawn := trace.drawn + query.embeddedCount })

@[simp]
theorem Parser.outcome_ask (parser : Parser) (call : Call) (trace : Trace) :
    (parser.ask call).outcome trace =
      some ((parser.answer trace.calls call).mapError fun failure => failure.toError call.text,
        { trace with calls := trace.calls ++ [call] }) := rfl

@[simp]
theorem Query.outcome_liftNext (fresh : Supply) (query : Query) (trace : Trace) :
    (query.liftNext fresh).outcome trace =
      some (.ok (query.lift fresh trace.drawn),
        { trace with drawn := trace.drawn + query.embeddedCount }) := rfl

end SparqlGenerate
