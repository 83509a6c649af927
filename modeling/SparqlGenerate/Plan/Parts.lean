import SparqlGenerate.Error
import SparqlGenerate.Grouping
import SparqlGenerate.Plan.Basic

/-!
# The parts of a plan

The plans of those parts of a query that hold no further query: its binding clauses, its pattern
and the triples of its template. They depend on the query alone, and each check fails with the
first fault it meets.
-/

namespace SparqlGenerate

/-! ## Binding clauses -/

/-- The term as a name, or else the fault of not being one. -/
def Term.asName (term : Term) (fault : Term → Fault) : Except CompileError VarOrIri :=
  match term.toVarOrIri? with
  | some name => .ok name
  | none => .error (.fault (fault term))

/-- The plan of an iterator over the expression, which has to be a call of a custom function. -/
def Binding.ofIterator (mode : IteratorMode) (value : Expr) (vars : List Var) :
    Except CompileError Binding :=
  if vars.isEmpty then .error (.fault .iteratorWithoutVars)
  else match value with
    | .call (.custom function) arguments => .ok (.iterator mode function arguments vars)
    | _ => .error (.fault (.iteratorNotCall value))

/-- The plan of a binding clause. The mode is that of the iterators. -/
def Clause.plan (mode : IteratorMode) : Clause → Except CompileError Binding
  | .iterator value vars => Binding.ofIterator mode value vars
  | .source document accept var => do
    let document ← document.asName .sourceNotName
    let accept ← accept.mapM fun term => term.asName .acceptNotName
    return .source document accept var
  | .bind value var => .ok (.bind value var)

/-- The mode of the iterators of a query. Only the queries of a template may be interleaved. -/
def Query.iteratorMode (query : Query) (isTop : Bool) : IteratorMode :=
  match query.form with
  | .select | .template => .sync
  | .generate _ | .call .. => if isTop then .sync else .async

def Query.bindings (query : Query) (isTop : Bool) : Except CompileError (List Binding) :=
  query.clauses.mapM (Clause.plan (query.iteratorMode isTop))

/-! ## The pattern -/

def Query.isSelect (query : Query) : Bool :=
  match query.form with
  | .select => true
  | _ => false

/-- The plan of the pattern. Where it computes aggregates, it is grouped by the parameters of the
query, so that the solutions for different arguments are not mixed. -/
def Query.selectPlan (query : Query) : SelectPlan where
  query := { query.toSelect with pattern := query.pattern.groupBy (query.signature.getD []) }
  isSelect := query.isSelect
  parameters := query.signature.getD []

/-! ## Template triples -/

/-- The term at a place of a template, which has to be lifted before. -/
def TemplateTerm.plan : TemplateTerm → Except CompileError Term
  | .term t => .ok t
  | .embedded value => .error (.fault (.notLifted value))

def TemplateTriple.plan (triple : TemplateTriple) : Except CompileError TriplePattern := do
  let subject ← triple.subject.plan
  let predicate ← triple.predicate.plan
  let predicate ← predicate.asName .predicateNotName
  let object ← triple.object.plan
  return ⟨subject, predicate, object⟩

end SparqlGenerate
