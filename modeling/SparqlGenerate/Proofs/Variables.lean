import SparqlGenerate.Proofs.QueryTree

/-!
# The variables that occur in a query

These are all variables that are written anywhere, whether the value of the place depends on them or
not: in a pattern under `EXISTS` those that a projection hides count too, and in a query those of
the queries nested in its template. A variable that does not occur in a query is fresh for it.
-/

namespace SparqlGenerate

/-- The variable that a term is, if it is one. -/
def Term.vars : Term → List Var
  | .var name => [name]
  | .iri _ | .blank _ | .literal _ => []

def VarOrIri.vars (name : VarOrIri) : List Var :=
  name.toTerm.vars

def TriplePattern.vars (triple : TriplePattern) : List Var :=
  triple.subject.vars ++ triple.predicate.vars ++ triple.object.vars

mutual

/-- The variables that occur in the expression. -/
def Expr.vars : Expr → List Var
  | .iri _ | .literal _ => []
  | .var name | .bound name => [name]
  | .binary _ left right => left.vars ++ right.vars
  | .unary _ operand => operand.vars
  | .oneOf operand members => operand.vars ++ Expr.varsAll members
  | .hasSolution pattern => pattern.vars
  | .cond test yes no => test.vars ++ yes.vars ++ no.vars
  | .coalesce operands => Expr.varsAll operands
  | .call _ arguments => Expr.varsAll arguments

def Expr.varsAll : List Expr → List Var
  | [] => []
  | e :: rest => e.vars ++ Expr.varsAll rest

/-- The variables that occur in what the aggregate summarizes. -/
def Aggregate.vars : Aggregate → List Var
  | .countSolutions _ => []
  | .apply _ operand _ => operand.vars

/-- The variables that occur in the aggregates or are assigned by them. -/
def Aggregate.varsAll : List (Var × Aggregate) → List Var
  | [] => []
  | (var, aggregate) :: rest => var :: aggregate.vars ++ Aggregate.varsAll rest

def OrderKey.vars : OrderKey → List Var
  | .asc key | .desc key => key.vars

def OrderKey.varsAll : List OrderKey → List Var
  | [] => []
  | key :: rest => key.vars ++ OrderKey.varsAll rest

def Pattern.vars : Pattern → List Var
  | .bgp triples => triples.flatMap TriplePattern.vars
  | .path subject _ object => subject.vars ++ object.vars
  | .join left right | .union left right | .minus left right
  | .leftJoin left right none => left.vars ++ right.vars
  | .leftJoin left right (some condition) => left.vars ++ right.vars ++ condition.vars
  | .filter condition inner => condition.vars ++ inner.vars
  | .graph name inner | .service name inner _ => name.vars ++ inner.vars
  | .extend inner var value => inner.vars ++ var :: value.vars
  | .values vars _ => vars
  | .orderBy inner keys => inner.vars ++ OrderKey.varsAll keys
  | .project inner vars => inner.vars ++ vars
  | .distinct inner | .reduced inner | .slice inner _ _ => inner.vars
  | .group inner keys aggregates => inner.vars ++ keys ++ Aggregate.varsAll aggregates

end

/-! ## Queries -/

/-- The variables that occur in the clause or are bound by it. -/
def Clause.vars : Clause → List Var
  | .iterator value vars => value.vars ++ vars
  | .source document accept var => document.vars ++ (accept.map Term.vars).getD [] ++ [var]
  | .bind value var => value.vars ++ [var]

def TemplateTerm.vars : TemplateTerm → List Var
  | .term t => t.vars
  | .embedded value => value.vars

def TemplateTriple.vars (triple : TemplateTriple) : List Var :=
  triple.subject.vars ++ triple.predicate.vars ++ triple.object.vars

mutual

/-- The variables that occur in the query. -/
def Query.vars : Query → List Var
  | ⟨form, _, _, _, signature, clauses, pattern⟩ =>
    form.vars ++ signature.getD [] ++ clauses.flatMap Clause.vars ++ pattern.vars

def Form.vars : Form → List Var
  | .generate elements => Element.varsAll elements
  | .call name parameters => name.vars ++ parameters.flatMap Expr.vars
  | .select | .template => []

def Element.vars : Element → List Var
  | .triples triples => triples.flatMap TemplateTriple.vars
  | .query q => q.vars

def Element.varsAll : List Element → List Var
  | [] => []
  | element :: rest => element.vars ++ Element.varsAll rest

end

theorem Element.varsAll_eq_flatMap (elements : List Element) :
    varsAll elements = elements.flatMap vars := by
  induction elements with
  | nil => rfl
  | cons element rest ih => rw [varsAll, ih, List.flatMap_cons]

theorem Query.vars_eq (query : Query) : query.vars = query.form.vars ++ query.signature.getD []
    ++ query.clauses.flatMap Clause.vars ++ query.pattern.vars := by
  obtain ⟨form, base, dataset, name, signature, clauses, pattern⟩ := query
  rfl

/-- The variables of a template occur in the query. -/
theorem Query.flatMap_vars_elements_subset (query : Query) :
    query.elements.flatMap Element.vars ⊆ query.vars := by
  obtain ⟨form, base, dataset, name, signature, clauses, pattern⟩ := query
  cases form with
  | generate elements =>
      intro v hv
      simp only [vars, Form.vars, Element.varsAll_eq_flatMap, List.append_assoc]
      exact List.mem_append_left _ hv
  | select => exact List.nil_subset _
  | template => exact List.nil_subset _
  | call callee parameters => exact List.nil_subset _

/-- The variables of a node of the tree occur in the query at its root. -/
theorem Query.vars_subset_of_mem_nodes {query node : Query} (h : node ∈ query.nodes) :
    node.vars ⊆ query.vars := by
  induction query using tree_induction with
  | step query ih =>
      rcases mem_nodes_iff.mp h with rfl | ⟨nested, hnested, hnode⟩
      · exact fun _ hv => hv
      · intro v hv
        exact query.flatMap_vars_elements_subset
          (List.mem_flatMap.mpr ⟨_, hnested, ih nested hnested hnode hv⟩)

/-! ## Embedded expressions -/

theorem TemplateTerm.vars_subset_of_mem_embeddings {term : TemplateTerm} {value : Expr}
    (h : value ∈ term.embeddings) : value.vars ⊆ term.vars := by
  cases term with
  | term t => cases h
  | embedded e =>
      obtain rfl := List.mem_singleton.mp h
      exact fun _ hv => hv

theorem TemplateTriple.vars_subset_of_mem_embeddings {triple : TemplateTriple} {value : Expr}
    (h : value ∈ triple.embeddings) : value.vars ⊆ triple.vars := by
  intro v hv
  simp only [embeddings, List.mem_append] at h
  simp only [vars, List.mem_append]
  rcases h with (h | h) | h
  · exact Or.inl (Or.inl (TemplateTerm.vars_subset_of_mem_embeddings h hv))
  · exact Or.inl (Or.inr (TemplateTerm.vars_subset_of_mem_embeddings h hv))
  · exact Or.inr (TemplateTerm.vars_subset_of_mem_embeddings h hv)

/-- The variables of an embedded expression occur in the query. -/
theorem Query.vars_subset_of_mem_embeddings {query : Query} {value : Expr}
    (h : value ∈ query.embeddings) : value.vars ⊆ query.vars := by
  intro v hv
  obtain ⟨element, helement, h⟩ := List.mem_flatMap.mp h
  cases element with
  | query nested => cases h
  | triples triples =>
      obtain ⟨triple, htriple, h⟩ := List.mem_flatMap.mp h
      have hmem := TemplateTriple.vars_subset_of_mem_embeddings h hv
      exact query.flatMap_vars_elements_subset
        (List.mem_flatMap.mpr ⟨_, helement, List.mem_flatMap.mpr ⟨triple, htriple, hmem⟩⟩)

end SparqlGenerate
