import SparqlGenerate.Proofs.Normalization
import SparqlGenerate.Proofs.QueryTree

/-!
# The faults of a query tree

What may be wrong with a query and with the queries nested in it. Legality is said of one query at
a time. The faults of a tree are listed in the order in which they are looked for: at each query
the number of rounds, then the clauses, then the template, in which a nested query is gone through
at its place. The two agree: a tree is without faults if and only if each of its queries is legal.

Both are read off the tree alone, without compiling it.
-/

namespace SparqlGenerate

/-! ## Legal queries -/

/-- The fault of a term that has to be an IRI or a variable. -/
def Term.nameFaults (fault : Term → Fault) : Term → List Fault
  | .iri _ | .var _ => []
  | .blank label => [fault (.blank label)]
  | .literal value => [fault (.literal value)]

/-- The fault of an expression that has to call a custom function. -/
def Expr.callFaults : Expr → List Fault
  | .call (.custom _) _ => []
  | value => [.iteratorNotCall value]

def Clause.faults : Clause → List Fault
  -- A clause may have two faults, of which the second is hidden by the first.
  | .iterator value vars => (if vars = [] then [.iteratorWithoutVars] else []) ++ value.callFaults
  | .source document accept _ =>
    document.nameFaults .sourceNotName ++ accept.toList.flatMap (Term.nameFaults .acceptNotName)
  | .bind _ _ => []

def TemplateTerm.predicateFaults : TemplateTerm → List Fault
  | .term t => t.nameFaults .predicateNotName
  | .embedded _ => []

/-- The fault of having no round to lift the embedded expressions of the query. -/
def Query.roundFaults (rounds : Nat) (query : Query) : List Fault :=
  if 1 ≤ rounds ∨ query.embeddedCount = 0 then []
  else [.roundsExhausted query.embeddedCount rounds]

mutual

/-- The faults of a query tree. -/
def Query.faults (rounds : Nat) : Query → List Fault
  | ⟨form, base, dataset, name, signature, clauses, pattern⟩ =>
    Query.roundFaults rounds ⟨form, base, dataset, name, signature, clauses, pattern⟩
      ++ clauses.flatMap Clause.faults ++ form.faults rounds

def Form.faults (rounds : Nat) : Form → List Fault
  | .generate elements => Element.faultsAll rounds elements
  | .select | .template | .call _ _ => []

def Element.faults (rounds : Nat) : Element → List Fault
  | .triples ts => ts.flatMap fun triple => triple.predicate.predicateFaults
  | .query q => q.faults rounds

/-- The faults of the elements, from the first element on. -/
def Element.faultsAll (rounds : Nat) : List Element → List Fault
  | [] => []
  | element :: rest => element.faults rounds ++ Element.faultsAll rounds rest

end

def TemplateTerm.unliftedFaults (term : TemplateTerm) : List Fault :=
  term.embeddings.map .notLifted

/-- The faults of a triple that is compiled without being lifted. -/
def TemplateTriple.unliftedFaults (triple : TemplateTriple) : List Fault :=
  -- The predicate is checked as a whole before the object.
  triple.subject.unliftedFaults
    ++ (triple.predicate.unliftedFaults ++ triple.predicate.predicateFaults)
    ++ triple.object.unliftedFaults

def Element.unliftedFaults (rounds : Nat) : Element → List Fault
  | .triples ts => ts.flatMap TemplateTriple.unliftedFaults
  | .query q => q.faults rounds

/-- The faults of compiling the template of a query as it stands. -/
def Query.templateFaults (rounds : Nat) (query : Query) : List Fault :=
  match query.form with
  | .generate elements => elements.flatMap (Element.unliftedFaults rounds)
  | _ => [.notGenerate]

theorem Element.faultsAll_eq_flatMap (rounds : Nat) (elements : List Element) :
    faultsAll rounds elements = elements.flatMap (faults rounds) := by
  induction elements with
  | nil => rfl
  | cons element rest ih => rw [faultsAll, ih, List.flatMap_cons]

theorem Query.faults_eq (rounds : Nat) (query : Query) :
    query.faults rounds = query.roundFaults rounds ++ query.clauses.flatMap Clause.faults
      ++ query.elements.flatMap (Element.faults rounds) := by
  obtain ⟨form, base, dataset, name, signature, clauses, pattern⟩ := query
  cases form with
  | generate elements =>
      rw [faults, Form.faults, Element.faultsAll_eq_flatMap, elements_of_generate rfl]
  | select => rfl
  | template => rfl
  | call callee parameters => rfl

/-! ## Without faults -/

theorem Query.roundFaults_eq_nil_iff {rounds : Nat} {query : Query} :
    query.roundFaults rounds = [] ↔ 1 ≤ rounds ∨ query.embeddings = [] := by
  rw [← embeddedCount_eq_zero_iff, roundFaults]
  split
  next h => exact iff_of_true rfl h
  next h => exact iff_of_false (List.cons_ne_nil _ _) h

/-- Where nothing is embedded, compiling an element as it stands finds the faults of the element. -/
theorem Element.unliftedFaults_of_embeddings (rounds : Nat) {element : Element}
    (h : element.embeddings = []) : element.unliftedFaults rounds = element.faults rounds := by
  cases element with
  | query nested => rfl
  | triples triples =>
      refine List.flatMap_congr fun triple htriple => ?_
      have hplaces := List.flatMap_eq_nil_iff.mp h triple htriple
      simp only [TemplateTriple.embeddings, List.append_eq_nil_iff] at hplaces
      simp [TemplateTriple.unliftedFaults, TemplateTerm.unliftedFaults, hplaces]

theorem Query.templateFaults_of_generate (rounds : Nat) {query : Query} {elements : List Element}
    (h : query.form = .generate elements) :
    query.templateFaults rounds = elements.flatMap (Element.unliftedFaults rounds) := by
  simp [templateFaults, h]

theorem Query.templateFaults_of_not_generate (rounds : Nat) {query : Query}
    (h : ∀ elements, query.form ≠ .generate elements) :
    query.templateFaults rounds = [.notGenerate] := by
  unfold templateFaults
  split
  next elements hform => exact absurd hform (h elements)
  next => rfl

end SparqlGenerate
