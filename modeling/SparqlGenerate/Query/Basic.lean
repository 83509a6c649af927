import SparqlGenerate.Select

/-!
# Generate queries

A generate query binds variables by its clauses, matches its pattern, and then writes triples, for
each solution, as its template says. A template may hold whole queries, and expressions in the
places of terms: the embedded expressions. Those of a nested query belong to that query alone.
-/

namespace SparqlGenerate

/-- A place of a template triple: a term, or an expression to be computed for each solution. -/
inductive TemplateTerm where
  | term (term : Term)
  | embedded (value : Expr)

structure TemplateTriple where
  subject : TemplateTerm
  predicate : TemplateTerm
  object : TemplateTerm

/-- A clause that binds variables before the pattern is matched. -/
inductive Clause where
  /-- Binds the variables to each result of the expression in turn. -/
  | iterator (value : Expr) (vars : List Var)
  /-- Binds the variable to a document, in the media type asked for, if any. -/
  | source (document : Term) (accept : Option Term) (var : Var)
  /-- Binds the variable to the value of the expression. -/
  | bind (value : Expr) (var : Var)

mutual

/-- A generate query. A signature without parameters is not a missing one. -/
structure Query where
  form : Form
  base : Option Iri
  dataset : Option Dataset
  name : Option Iri
  signature : Option (List Var)
  clauses : List Clause
  pattern : Pattern

/-- What a query makes of its solutions. -/
inductive Form where
  | select
  | template
  | generate (elements : List Element)
  /-- Hands the parameters to the query of that name. -/
  | call (name : VarOrIri) (parameters : List Expr)

inductive Element where
  | triples (triples : List TemplateTriple)
  | query (query : Query)

end

/-- The query of the form that has nothing else. -/
def Query.ofForm (form : Form) : Query :=
  ⟨form, none, none, none, none, [], .unit⟩

/-- The query whose template holds the elements. -/
def Query.generate (elements : List Element) : Query :=
  .ofForm (.generate elements)

/-- The elements of the template, if the query has one. -/
def Query.elements? (query : Query) : Option (List Element) :=
  match query.form with
  | .generate elements => some elements
  | _ => none

/-- The plain `SELECT` query in a generate query. -/
def Query.toSelect (query : Query) : SelectQuery :=
  ⟨query.dataset, query.pattern, query.base⟩

/-! ## Embedded expressions -/

/-- The expression embedded at a place, if any. -/
def TemplateTerm.embeddings : TemplateTerm → List Expr
  | .term _ => []
  | .embedded value => [value]

/-- The expressions embedded in a triple, from left to right. -/
def TemplateTriple.embeddings (triple : TemplateTriple) : List Expr :=
  triple.subject.embeddings ++ triple.predicate.embeddings ++ triple.object.embeddings

/-- The expressions embedded in an element. A nested query keeps its own. -/
def Element.embeddings : Element → List Expr
  | .triples ts => ts.flatMap TemplateTriple.embeddings
  | .query _ => []

/-- The expressions embedded in the own triples of a query, in the order of the template. -/
def Query.embeddings (query : Query) : List Expr :=
  (query.elements?.getD []).flatMap Element.embeddings

/-- The number of expressions embedded in the own triples of a query. -/
def Query.embeddedCount (query : Query) : Nat :=
  query.embeddings.length

/-! ## Depth -/

mutual

/-- The number of queries on the longest way from the query to a query nested in it. -/
def Query.depth : Query → Nat
  | ⟨form, _, _, _, _, _, _⟩ => form.depth + 1

def Form.depth : Form → Nat
  | .generate elements => Element.depthAll elements
  | .select | .template | .call _ _ => 0

def Element.depth : Element → Nat
  | .triples _ => 0
  | .query q => q.depth

def Element.depthAll : List Element → Nat
  | [] => 0
  | element :: rest => max element.depth (Element.depthAll rest)

end

theorem Element.depth_le_depthAll {element : Element} {elements : List Element}
    (h : element ∈ elements) : element.depth ≤ depthAll elements := by
  induction elements with
  | nil => cases h
  | cons head rest ih =>
    rw [depthAll]
    cases h with
    | head => exact Nat.le_max_left _ _
    | tail _ h => exact Nat.le_trans (ih h) (Nat.le_max_right _ _)

end SparqlGenerate
