import SparqlGenerate.Query.Lift

/-!
# Trees of queries

A query with the queries nested in its template is a tree. The nodes are listed in depth-first
order, each query before the queries nested in it, and what holds of a query whenever it holds of
the queries in its template holds of all queries.
-/

namespace SparqlGenerate

/-- The elements of the template; a query of another form has none. -/
def Query.elements (query : Query) : List Element :=
  query.elements?.getD []

mutual

/-- The queries of the tree, from its root on. -/
def Query.nodes : Query → List Query
  | ⟨form, base, dataset, name, signature, clauses, pattern⟩ =>
    ⟨form, base, dataset, name, signature, clauses, pattern⟩ :: form.nodes

def Form.nodes : Form → List Query
  | .generate elements => Element.nodesAll elements
  | .select | .template | .call _ _ => []

def Element.nodes : Element → List Query
  | .triples _ => []
  | .query q => q.nodes

def Element.nodesAll : List Element → List Query
  | [] => []
  | element :: rest => element.nodes ++ Element.nodesAll rest

end

theorem Element.nodesAll_eq_flatMap (elements : List Element) :
    nodesAll elements = elements.flatMap nodes := by
  induction elements with
  | nil => rfl
  | cons element rest ih => rw [nodesAll, ih, List.flatMap_cons]

namespace Query

@[simp]
theorem elements_of_generate {query : Query} {elements : List Element}
    (h : query.form = .generate elements) : query.elements = elements := by
  simp [Query.elements, elements?, h]

/-- A node comes before the nodes of the elements of its template. -/
theorem nodes_eq (query : Query) : query.nodes = query :: query.elements.flatMap Element.nodes := by
  obtain ⟨form, base, dataset, name, signature, clauses, pattern⟩ := query
  cases form with
  | generate elements =>
      exact congrArg (List.cons _) (Element.nodesAll_eq_flatMap elements)
  | select => rfl
  | template => rfl
  | call callee parameters => rfl

/-- The nodes of a query that comes before other elements are its own node and those of the
elements of its template. -/
theorem flatMap_nodes_cons (query : Query) (agenda : List Element) :
    (Element.query query :: agenda).flatMap Element.nodes =
      query :: (query.elements ++ agenda).flatMap Element.nodes := by
  rw [List.flatMap_cons, Element.nodes, nodes_eq, List.flatMap_append, List.cons_append]

/-- The nodes below a query are those of the queries that its template holds. -/
theorem mem_nodes_iff {query node : Query} : node ∈ query.nodes ↔
    node = query ∨ ∃ nested, .query nested ∈ query.elements ∧ node ∈ nested.nodes := by
  rw [nodes_eq, List.mem_cons, List.mem_flatMap]
  refine or_congr Iff.rfl ⟨?_, ?_⟩
  · rintro ⟨element, helement, hnode⟩
    cases element with
    | triples triples => simp [Element.nodes] at hnode
    | query nested => exact ⟨nested, helement, hnode⟩
  · rintro ⟨nested, hnested, hnode⟩
    exact ⟨.query nested, hnested, hnode⟩

theorem depth_pos (query : Query) : 0 < query.depth := by
  obtain ⟨form, base, dataset, name, signature, clauses, pattern⟩ := query
  exact Nat.succ_pos form.depth

theorem depth_lt_of_mem_elements {query nested : Query} (h : .query nested ∈ query.elements) :
    nested.depth < query.depth := by
  obtain ⟨form, base, dataset, name, signature, clauses, pattern⟩ := query
  cases form with
  | generate elements =>
      rw [depth, Form.depth]
      exact Nat.lt_succ_of_le (Element.depth_le_depthAll h)
  | select => cases h
  | template => cases h
  | call callee parameters => cases h

/-- Induction over the tree: a query may use what is to be shown for the queries that its template
holds. -/
theorem tree_induction {motive : Query → Prop}
    (step : ∀ query, (∀ nested, .query nested ∈ query.elements → motive nested) → motive query)
    (query : Query) : motive query := by
  -- Nested queries stand in lists, out of reach of structural induction; they are less deep.
  generalize hdepth : query.depth = depth
  induction depth using Nat.strongRecOn generalizing query with
  | ind depth ih =>
      refine step query fun nested hnested => ih nested.depth ?_ nested rfl
      exact hdepth ▸ depth_lt_of_mem_elements hnested

end Query

/-! ## Lifting and the tree -/

/-- Lifting keeps the nested queries. -/
theorem Element.query_mem_liftAll {fresh : Supply} {number : Nat} {elements : List Element}
    {nested : Query} :
    .query nested ∈ liftAll fresh number elements ↔ .query nested ∈ elements := by
  induction elements generalizing number with
  | nil => rfl
  | cons element rest ih => cases element <;> simp [liftAll, lift, ih]

theorem Query.elements_lift (fresh : Supply) (number : Nat) (query : Query) :
    (query.lift fresh number).elements = Element.liftAll fresh number query.elements := by
  obtain ⟨form, base, dataset, name, signature, clauses, pattern⟩ := query
  cases form <;> rfl

end SparqlGenerate
