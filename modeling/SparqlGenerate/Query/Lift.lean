import SparqlGenerate.Query.Basic

/-!
# Lifting embedded expressions

A query is lifted by giving each expression embedded in its own triples a fresh variable. The
variable takes the place of the expression in the template, and the pattern assigns the expression
to it, after all that the pattern does already. Fresh variables come from a numbered supply: the
variables drawn by a query are numbered in the order of its template.
-/

namespace SparqlGenerate

/-- A supply of fresh variables, by number. -/
abbrev Supply := Nat → Var

/-- The supply of the variables `fresh0`, `fresh1`, and so on. -/
def Supply.numbered : Supply := fun number => ⟨"fresh" ++ toString number⟩

/-- The place, with the variable of the given number for an expression. -/
def TemplateTerm.lift (fresh : Supply) (number : Nat) : TemplateTerm → TemplateTerm
  | .term t => .term t
  | .embedded _ => .term (.var (fresh number))

/-- The triple, with variables from the given number on for its expressions. -/
def TemplateTriple.lift (fresh : Supply) (number : Nat) (triple : TemplateTriple) :
    TemplateTriple where
  subject := triple.subject.lift fresh number
  predicate := triple.predicate.lift fresh (number + triple.subject.embeddings.length)
  object := triple.object.lift fresh
    (number + (triple.subject.embeddings ++ triple.predicate.embeddings).length)

def TemplateTriple.liftAll (fresh : Supply) : Nat → List TemplateTriple → List TemplateTriple
  | _, [] => []
  | number, triple :: rest =>
    triple.lift fresh number :: liftAll fresh (number + triple.embeddings.length) rest

def Element.lift (fresh : Supply) (number : Nat) : Element → Element
  | .triples ts => .triples (TemplateTriple.liftAll fresh number ts)
  | .query q => .query q

def Element.liftAll (fresh : Supply) : Nat → List Element → List Element
  | _, [] => []
  | number, element :: rest =>
    element.lift fresh number :: liftAll fresh (number + element.embeddings.length) rest

/-- The expressions, assigned to the variables from the given number on. -/
def Supply.assign (fresh : Supply) : Nat → List Expr → List (Var × Expr)
  | _, [] => []
  | number, value :: rest => (fresh number, value) :: fresh.assign (number + 1) rest

/-- The query without embedded expressions of its own. The variables from the given number on stand
for them, and the pattern assigns the expressions to them in the same order. -/
def Query.lift (fresh : Supply) (number : Nat) (query : Query) : Query :=
  match query.form with
  | .generate elements =>
    { query with
      form := .generate (Element.liftAll fresh number elements)
      pattern := query.pattern.extendAll (fresh.assign number query.embeddings) }
  | .select | .template | .call .. => query

/-! ## Nothing is left to lift -/

@[simp]
theorem TemplateTerm.embeddings_lift (fresh : Supply) (number : Nat) (term : TemplateTerm) :
    (term.lift fresh number).embeddings = [] := by
  cases term <;> rfl

@[simp]
theorem TemplateTriple.embeddings_lift (fresh : Supply) (number : Nat) (triple : TemplateTriple) :
    (triple.lift fresh number).embeddings = [] := by
  simp [TemplateTriple.embeddings, TemplateTriple.lift]

@[simp]
theorem TemplateTriple.embeddings_liftAll (fresh : Supply) (number : Nat)
    (triples : List TemplateTriple) :
    (liftAll fresh number triples).flatMap TemplateTriple.embeddings = [] := by
  induction triples generalizing number with
  | nil => rfl
  | cons triple rest ih => simp [liftAll, ih]

@[simp]
theorem Element.embeddings_lift (fresh : Supply) (number : Nat) (element : Element) :
    (element.lift fresh number).embeddings = [] := by
  cases element with
  | triples ts => exact TemplateTriple.embeddings_liftAll fresh number ts
  | query => rfl

@[simp]
theorem Element.embeddings_liftAll (fresh : Supply) (number : Nat) (elements : List Element) :
    (liftAll fresh number elements).flatMap Element.embeddings = [] := by
  induction elements generalizing number with
  | nil => rfl
  | cons element rest ih => simp [liftAll, ih]

/-- A lifted query has no embedded expression of its own. -/
@[simp]
theorem Query.embeddings_lift (fresh : Supply) (number : Nat) (query : Query) :
    (query.lift fresh number).embeddings = [] := by
  unfold lift
  split
  next elements h => simp [embeddings, elements?]
  next h => simp [embeddings, elements?, h]
  next h => simp [embeddings, elements?, h]
  next h => simp [embeddings, elements?, h]

end SparqlGenerate
