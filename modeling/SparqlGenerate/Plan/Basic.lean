import SparqlGenerate.Query.Basic

/-!
# Plans

What a generate query is compiled to: a tree with one node for each query, which holds the checked
parts of that query in the order in which they are carried out.
-/

namespace SparqlGenerate

/-- How the results of an iterator are taken: in order with the other clauses, or interleaved with
the queries beside it. -/
inductive IteratorMode where
  | sync
  | async
  deriving DecidableEq, Repr

/-- The plan of a binding clause. -/
inductive Binding where
  | iterator (mode : IteratorMode) (function : Iri) (arguments : List Expr) (vars : List Var)
  | source (document : VarOrIri) (accept : Option VarOrIri) (var : Var)
  | bind (value : Expr) (var : Var)

/-- The variables that a clause binds. -/
def Binding.vars : Binding → List Var
  | .iterator _ _ _ vars => vars
  | .source _ _ var => [var]
  | .bind _ var => [var]

/-- The plan of the pattern: the `SELECT` query to run, and the parameters its solutions are kept
apart by. -/
structure SelectPlan where
  query : SelectQuery
  isSelect : Bool
  parameters : List Var

/-- The plan of a call. It is known by name only, until it is carried out. -/
structure CallPlan where
  base : Option Iri
  name : VarOrIri
  parameters : List Expr

mutual

/-- The plan of a query. -/
structure Plan where
  /-- The query that was compiled, without embedded expressions of its own. -/
  source : Query
  bindings : List Binding
  select : SelectPlan
  output : Option Output
  /-- The query was not compiled as part of another one, nor to be called. -/
  isTop : Bool

inductive Output where
  | call (call : CallPlan)
  | template (elements : List PlanElement)

inductive PlanElement where
  | triples (triples : List TriplePattern)
  | plan (plan : Plan)

end

/-- The elements of the template of a plan, if it has one. -/
def Plan.elements? (plan : Plan) : Option (List PlanElement) :=
  match plan.output with
  | some (.template elements) => some elements
  | _ => none

end SparqlGenerate
