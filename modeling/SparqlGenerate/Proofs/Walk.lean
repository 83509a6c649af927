import SparqlGenerate.Proofs.Faults

/-!
# The walk of a compilation

A compilation walks through queries in depth-first order. At a query it may call the parser, whose
answer takes the place of the query: it is the answer's clauses that are checked, and the answer's
template that is walked through next. So the walk need not be one through the query that was given.

The walk is given here as a relation over what is still to be walked through, without plans and
without fresh variables. It says which queries are visited, which calls are made and where the
walk ends. There is one walk only through the same elements after the same calls.
-/

namespace SparqlGenerate

/-- Has the query an embedded expression of its own? -/
def Query.hasEmbeddings (query : Query) : Bool :=
  query.embeddedCount != 0

theorem Query.hasEmbeddings_iff {query : Query} :
    query.hasEmbeddings = true ↔ query.embeddedCount ≠ 0 := by
  simp [hasEmbeddings]

/-- The error that a run ended with, if it did. -/
def errorIn {α : Type} : Except CompileError α → Option CompileError
  | .ok _ => none
  | .error error => some error

theorem errorIn_map {α β : Type} (value : α → β) (result : Except CompileError α) :
    errorIn (result.map value) = errorIn result := by
  cases result <;> rfl

/-- The faults of the clauses of a query, in order. -/
def Query.clauseFaults (query : Query) : List Fault :=
  query.clauses.flatMap Clause.faults

/-- The faults of template triples once they are lifted, in order. -/
def TemplateTriple.faultsAll (triples : List TemplateTriple) : List Fault :=
  triples.flatMap fun triple => triple.predicate.predicateFaults

/-! ## Faults met on the way -/

/-- What may be wrong with a clause. -/
inductive Clause.HasFault : Clause → Fault → Prop
  | noVars {value : Expr} : HasFault (.iterator value []) .iteratorWithoutVars
  | notCall {value : Expr} {vars : List Var} :
      HasFault (.iterator value vars) (.iteratorNotCall value)
  | document {document : Term} {accept : Option Term} {var : Var}
      (h : document.toVarOrIri? = none) :
      HasFault (.source document accept var) (.sourceNotName document)
  | accept {document accept : Term} {var : Var} (h : accept.toVarOrIri? = none) :
      HasFault (.source document (some accept) var) (.acceptNotName accept)

theorem Term.eq_of_mem_nameFaults {kind : Term → Fault} {term : Term} {fault : Fault}
    (h : fault ∈ term.nameFaults kind) : fault = kind term ∧ term.toVarOrIri? = none := by
  cases term with
  | iri | var => cases h
  | blank | literal => exact ⟨List.mem_singleton.mp h, rfl⟩

theorem Clause.hasFault_of_mem_faults {clause : Clause} {fault : Fault}
    (h : fault ∈ clause.faults) : clause.HasFault fault := by
  cases clause with
  | bind value var => cases h
  | iterator value vars =>
      rcases List.mem_append.mp h with hvars | hvalue
      · split at hvars
        next hnone =>
          obtain rfl := List.mem_singleton.mp hvars
          exact hnone ▸ .noVars
        next => cases hvars
      · unfold Expr.callFaults at hvalue
        split at hvalue
        · cases hvalue
        · obtain rfl := List.mem_singleton.mp hvalue
          exact .notCall
  | source document accept var =>
      rcases List.mem_append.mp h with hdocument | haccept
      · obtain ⟨rfl, hname⟩ := Term.eq_of_mem_nameFaults hdocument
        exact .document hname
      · obtain ⟨term, hterm, hfault⟩ := List.mem_flatMap.mp haccept
        obtain ⟨rfl, hname⟩ := Term.eq_of_mem_nameFaults hfault
        obtain rfl := Option.mem_toList.mp hterm
        exact .accept hname

theorem Query.exists_hasFault {query : Query} {fault : Fault} (h : fault ∈ query.clauseFaults) :
    ∃ clause ∈ query.clauses, clause.HasFault fault := by
  obtain ⟨clause, hclause, hfault⟩ := List.mem_flatMap.mp h
  exact ⟨clause, hclause, Clause.hasFault_of_mem_faults hfault⟩

/-- The one thing that may be wrong with a lifted triple is its predicate. -/
theorem TemplateTriple.eq_of_mem_faultsAll {triples : List TemplateTriple} {fault : Fault}
    (h : fault ∈ faultsAll triples) :
    ∃ term, fault = .predicateNotName term ∧ term.toVarOrIri? = none := by
  obtain ⟨triple, -, hfault⟩ := List.mem_flatMap.mp h
  cases hpredicate : triple.predicate with
  | embedded value =>
      rw [hpredicate] at hfault
      cases hfault
  | term term =>
      rw [hpredicate] at hfault
      exact ⟨term, Term.eq_of_mem_nameFaults hfault⟩

namespace Compiler

variable (compiler : Compiler)

/-- What a compilation finds when it comes to a query after the calls of the first log: the query
to compile in its place, or an error. The second log has the call that it makes to find out, if it
makes one. -/
inductive Opens (query : Query) (log : List Call) :
    Except CompileError Query → List Call → Prop
  | plain (hcount : query.embeddedCount = 0) : Opens query log (.ok query) log
  | exhausted (hcount : query.embeddedCount ≠ 0) (hrounds : compiler.maxRounds = 0) :
      Opens query log (.error (.fault (.roundsExhausted query.embeddedCount 0))) log
  | unread (hcount : query.embeddedCount ≠ 0) (hrounds : compiler.maxRounds ≠ 0)
      (hparser : compiler.parser = none) : Opens query log (.ok query) log
  | answered {parser : Parser} {answer : Query} (hcount : query.embeddedCount ≠ 0)
      (hrounds : compiler.maxRounds ≠ 0) (hparser : compiler.parser = some parser)
      (hanswer : parser.answer log (compiler.rereadCall query) = .ok answer) :
      Opens query log (.ok answer) (log ++ [compiler.rereadCall query])
  | refused {parser : Parser} {failure : Failure} (hcount : query.embeddedCount ≠ 0)
      (hrounds : compiler.maxRounds ≠ 0) (hparser : compiler.parser = some parser)
      (hanswer : parser.answer log (compiler.rereadCall query) = .error failure) :
      Opens query log (.error (failure.toError query.text)) (log ++ [compiler.rereadCall query])

/-- The walk through the elements, started after the calls of the first log. It visits the queries
in order, ends with the error, if any, and leaves the second log. -/
inductive Walks : List Element → List Call → List Query → Option CompileError → List Call → Prop
  | done {log : List Call} : Walks [] log [] none log
  | triples {triples : List TemplateTriple} {agenda : List Element} {log left : List Call}
      {visited : List Query} {ending : Option CompileError}
      (hfaults : TemplateTriple.faultsAll triples = [])
      (hrest : Walks agenda log visited ending left) :
      Walks (.triples triples :: agenda) log visited ending left
  | faultyTriples {triples : List TemplateTriple} {agenda : List Element} {log : List Call}
      {fault : Fault} {further : List Fault}
      (hfaults : TemplateTriple.faultsAll triples = fault :: further) :
      Walks (.triples triples :: agenda) log [] (some (.fault fault)) log
  /-- The elements of what is compiled in place of a query come before all others. -/
  | query {query answer : Query} {agenda : List Element} {log middle left : List Call}
      {visited : List Query} {ending : Option CompileError}
      (hopens : compiler.Opens query log (.ok answer) middle)
      (hfaults : answer.clauseFaults = [])
      (hrest : Walks (answer.elements ++ agenda) middle visited ending left) :
      Walks (.query query :: agenda) log (query :: visited) ending left
  | faultyClauses {query answer : Query} {agenda : List Element} {log left : List Call}
      {fault : Fault} {further : List Fault}
      (hopens : compiler.Opens query log (.ok answer) left)
      (hfaults : answer.clauseFaults = fault :: further) :
      Walks (.query query :: agenda) log [query] (some (.fault fault)) left
  | unopened {query : Query} {agenda : List Element} {log left : List Call}
      {error : CompileError} (hopens : compiler.Opens query log (.error error) left) :
      Walks (.query query :: agenda) log [query] (some error) left

variable {compiler}

/-- At each query, after any calls, a compilation finds something. -/
theorem exists_opens (compiler : Compiler) (query : Query) (log : List Call) :
    ∃ result left, compiler.Opens query log result left := by
  by_cases hcount : query.embeddedCount = 0
  · exact ⟨_, _, .plain hcount⟩
  by_cases hrounds : compiler.maxRounds = 0
  · exact ⟨_, _, .exhausted hcount hrounds⟩
  rcases Option.eq_none_or_eq_some compiler.parser with hparser | ⟨parser, hparser⟩
  · exact ⟨_, _, .unread hcount hrounds hparser⟩
  cases hanswer : parser.answer log (compiler.rereadCall query) with
  | ok answer => exact ⟨_, _, .answered hcount hrounds hparser hanswer⟩
  | error failure => exact ⟨_, _, .refused hcount hrounds hparser hanswer⟩

/-! ## One walk only -/

theorem Opens.unique {query : Query} {log first second : List Call}
    {result other : Except CompileError Query} (h : compiler.Opens query log result first)
    (hother : compiler.Opens query log other second) : other = result ∧ second = first := by
  cases h <;> cases hother <;> simp_all

/-- There is one walk only through the same elements after the same calls. -/
theorem Walks.unique {agenda : List Element} {log first second : List Call}
    {visited others : List Query} {ending other : Option CompileError}
    (h : compiler.Walks agenda log visited ending first)
    (hother : compiler.Walks agenda log others other second) :
    others = visited ∧ other = ending ∧ second = first := by
  induction h generalizing others other second with
  | done =>
      cases hother
      exact ⟨rfl, rfl, rfl⟩
  | triples hfaults _ ih =>
      cases hother with
      | triples _ hrest => exact ih hrest
      | faultyTriples hfaulty => simp [hfaults] at hfaulty
  | faultyTriples hfaults =>
      cases hother with
      | triples hnone => simp [hfaults] at hnone
      | faultyTriples hfaulty =>
          obtain ⟨rfl, rfl⟩ := List.cons.inj (hfaults.symm.trans hfaulty)
          exact ⟨rfl, rfl, rfl⟩
  | query hopens hfaults _ ih =>
      cases hother with
      | query hagain _ hrest =>
          obtain ⟨hanswer, rfl⟩ := hopens.unique hagain
          obtain rfl := Except.ok.inj hanswer
          obtain ⟨rfl, rfl, rfl⟩ := ih hrest
          exact ⟨rfl, rfl, rfl⟩
      | faultyClauses hagain hfaulty =>
          obtain rfl := Except.ok.inj (hopens.unique hagain).1
          simp [hfaults] at hfaulty
      | unopened hagain => cases (hopens.unique hagain).1
  | faultyClauses hopens hfaults =>
      cases hother with
      | query hagain hnone =>
          obtain rfl := Except.ok.inj (hopens.unique hagain).1
          simp [hfaults] at hnone
      | faultyClauses hagain hfaulty =>
          obtain ⟨hanswer, rfl⟩ := hopens.unique hagain
          obtain rfl := Except.ok.inj hanswer
          obtain ⟨rfl, rfl⟩ := List.cons.inj (hfaults.symm.trans hfaulty)
          exact ⟨rfl, rfl, rfl⟩
      | unopened hagain => cases (hopens.unique hagain).1
  | unopened hopens =>
      cases hother with
      | query hagain => cases (hopens.unique hagain).1
      | faultyClauses hagain => cases (hopens.unique hagain).1
      | unopened hagain =>
          obtain ⟨herror, rfl⟩ := hopens.unique hagain
          obtain rfl := Except.error.inj herror
          exact ⟨rfl, rfl, rfl⟩

/-! ## Walks in sequence -/

/-- A walk that ends without an error goes on with what comes next. -/
theorem Walks.append {first second : List Element} {log middle left : List Call}
    {visited further : List Query} {ending : Option CompileError}
    (hfirst : compiler.Walks first log visited none middle)
    (hsecond : compiler.Walks second middle further ending left) :
    compiler.Walks (first ++ second) log (visited ++ further) ending left := by
  generalize hnone : (none : Option CompileError) = noError at hfirst
  induction hfirst with
  | done => exact hsecond
  | triples hfaults _ ih => exact .triples hfaults (ih hsecond hnone)
  | query hopens hfaults _ ih =>
      have hnext := ih hsecond hnone
      rw [List.append_assoc] at hnext
      exact .query hopens hfaults hnext
  | faultyTriples | faultyClauses | unopened => cases hnone

/-- A walk that ends with an error does not go on. -/
theorem Walks.append_of_error {first : List Element} {log left : List Call}
    {visited : List Query} {error : CompileError}
    (hfirst : compiler.Walks first log visited (some error) left) (second : List Element) :
    compiler.Walks (first ++ second) log visited (some error) left := by
  generalize hsome : some error = ending at hfirst ⊢
  induction hfirst with
  | done => cases hsome
  | triples hfaults _ ih => exact .triples hfaults (ih hsome)
  | query hopens hfaults _ ih =>
      have hnext := ih hsome
      rw [List.append_assoc] at hnext
      exact .query hopens hfaults hnext
  | faultyTriples hfaults => exact .faultyTriples hfaults
  | faultyClauses hopens hfaults => exact .faultyClauses hopens hfaults
  | unopened hopens => exact .unopened hopens

/-- A walk through elements in sequence goes through the first ones, and then through the others if
it has not ended with an error before. -/
theorem Walks.split {first second : List Element} {log left : List Call} {visited : List Query}
    {ending : Option CompileError}
    (h : compiler.Walks (first ++ second) log visited ending left) :
    (∃ error, ending = some error ∧ compiler.Walks first log visited ending left) ∨
      ∃ passed further middle, visited = passed ++ further ∧
        compiler.Walks first log passed none middle ∧
        compiler.Walks second middle further ending left := by
  generalize hagenda : first ++ second = agenda at h
  induction h generalizing first with
  | done =>
      obtain ⟨rfl, rfl⟩ := List.append_eq_nil_iff.mp hagenda
      exact Or.inr ⟨[], [], _, rfl, .done, .done⟩
  | triples hfaults hrest ih =>
      cases first with
      | nil =>
          obtain rfl := hagenda
          exact Or.inr ⟨[], _, _, rfl, .done, .triples hfaults hrest⟩
      | cons element first =>
          obtain ⟨rfl, rfl⟩ := List.cons.inj hagenda
          rcases ih rfl with
            ⟨error, herror, hfirst⟩ | ⟨passed, further, between, hvisited, hfirst, hsecond⟩
          · exact Or.inl ⟨error, herror, .triples hfaults hfirst⟩
          · exact Or.inr ⟨passed, further, between, hvisited, .triples hfaults hfirst, hsecond⟩
  | faultyTriples hfaults =>
      cases first with
      | nil =>
          obtain rfl := hagenda
          exact Or.inr ⟨[], _, _, rfl, .done, .faultyTriples hfaults⟩
      | cons element first =>
          obtain ⟨rfl, -⟩ := List.cons.inj hagenda
          exact Or.inl ⟨_, rfl, .faultyTriples hfaults⟩
  | @query query answer agenda log middle left visited ending hopens hfaults hrest ih =>
      cases first with
      | nil =>
          obtain rfl := hagenda
          exact Or.inr ⟨[], _, _, rfl, .done, .query hopens hfaults hrest⟩
      | cons element first =>
          obtain ⟨rfl, rfl⟩ := List.cons.inj hagenda
          rcases ih (List.append_assoc answer.elements first second) with
            ⟨error, herror, hfirst⟩ | ⟨passed, further, between, rfl, hfirst, hsecond⟩
          · exact Or.inl ⟨error, herror, .query hopens hfaults hfirst⟩
          · exact Or.inr ⟨query :: passed, further, between, rfl, .query hopens hfaults hfirst,
              hsecond⟩
  | faultyClauses hopens hfaults =>
      cases first with
      | nil =>
          obtain rfl := hagenda
          exact Or.inr ⟨[], _, _, rfl, .done, .faultyClauses hopens hfaults⟩
      | cons element first =>
          obtain ⟨rfl, -⟩ := List.cons.inj hagenda
          exact Or.inl ⟨_, rfl, .faultyClauses hopens hfaults⟩
  | unopened hopens =>
      cases first with
      | nil =>
          obtain rfl := hagenda
          exact Or.inr ⟨[], _, _, rfl, .done, .unopened hopens⟩
      | cons element first =>
          obtain ⟨rfl, -⟩ := List.cons.inj hagenda
          exact Or.inl ⟨_, rfl, .unopened hopens⟩

/-- A walk in which queries are never replaced goes through the nodes of the tree in order, and
through all of them if it does not end with an error. -/
theorem Walks.prefix_nodes (hkeep : ∀ query log answer left,
      compiler.Opens query log (.ok answer) left → answer = query)
    {agenda : List Element} {log left : List Call} {visited : List Query}
    {ending : Option CompileError} (h : compiler.Walks agenda log visited ending left) :
    visited <+: agenda.flatMap Element.nodes ∧
      (ending = none → visited = agenda.flatMap Element.nodes) := by
  induction h with
  | done => exact ⟨List.prefix_refl _, fun _ => rfl⟩
  | triples _ _ ih => exact ih
  | faultyTriples => exact ⟨List.nil_prefix, nofun⟩
  | @query query answer _ _ _ _ _ _ hopens _ _ ih =>
      obtain rfl := hkeep _ _ _ _ hopens
      rw [Query.flatMap_nodes_cons]
      exact ⟨(List.prefix_cons_inj answer).mpr ih.1, fun hnone => by rw [← ih.2 hnone]⟩
  | @faultyClauses query =>
      rw [Query.flatMap_nodes_cons]
      exact ⟨List.prefix_append [query] _, nofun⟩
  | @unopened query =>
      rw [Query.flatMap_nodes_cons]
      exact ⟨List.prefix_append [query] _, nofun⟩

end Compiler

end SparqlGenerate
