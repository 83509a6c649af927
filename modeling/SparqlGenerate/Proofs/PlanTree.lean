import SparqlGenerate.Proofs.Levels

/-!
# Plans mirror their queries

A plan is a tree with one node for each query that was compiled. Each node keeps the query it was
made from, and mirrors it clause by clause and element by element, whatever a parser made of the
queries on the way. Nothing is said here about the fresh variables beyond the supply they come from.
-/

namespace SparqlGenerate

/-! ## Nodes -/

mutual

/-- The nodes of the plan, from its root on. -/
def Plan.nodes : Plan → List Plan
  | ⟨source, bindings, select, output, isTop⟩ =>
    ⟨source, bindings, select, output, isTop⟩ :: Output.nodesBelow output

def Output.nodesBelow : Option Output → List Plan
  | none => []
  | some output => output.nodes

def Output.nodes : Output → List Plan
  | .call _ => []
  | .template elements => PlanElement.nodesAll elements

def PlanElement.nodes : PlanElement → List Plan
  | .triples _ => []
  | .plan p => p.nodes

def PlanElement.nodesAll : List PlanElement → List Plan
  | [] => []
  | element :: rest => element.nodes ++ PlanElement.nodesAll rest

end

def Plan.nodesBelow (plan : Plan) : List Plan :=
  Output.nodesBelow plan.output

theorem Plan.nodes_eq (plan : Plan) : plan.nodes = plan :: plan.nodesBelow := by
  obtain ⟨source, bindings, select, output, isTop⟩ := plan
  rfl

/-- The nodes below a node are those of the elements of its template. -/
theorem Plan.nodesBelow_eq (plan : Plan) :
    plan.nodesBelow = PlanElement.nodesAll (plan.elements?.getD []) := by
  unfold nodesBelow elements?
  cases plan.output with
  | none => rfl
  | some output => cases output <;> rfl

theorem PlanElement.mem_nodesAll_iff {elements : List PlanElement} {node : Plan} :
    node ∈ nodesAll elements ↔ ∃ plan, .plan plan ∈ elements ∧ node ∈ plan.nodes := by
  induction elements with
  | nil => simp [nodesAll]
  | cons element rest ih => cases element <;> simp [nodesAll, nodes, ih, or_and_right, exists_or]

/-! ## Parts of a node -/

/-- The binding is the plan of the clause, in either mode. -/
inductive Clause.PlannedAs : Clause → Binding → Prop
  | iterator {mode : IteratorMode} {function : Iri} {arguments : List Expr} {vars : List Var}
      (hvars : vars ≠ []) :
      PlannedAs (.iterator (.call (.custom function) arguments) vars)
        (.iterator mode function arguments vars)
  | source {document : VarOrIri} {accept : Option VarOrIri} {var : Var} :
      PlannedAs (.source document.toTerm (accept.map VarOrIri.toTerm) var)
        (.source document accept var)
  | bind {value : Expr} {var : Var} : PlannedAs (.bind value var) (.bind value var)

/-- The pattern has the terms of the triple. -/
structure TemplateTriple.PlannedAs (triple : TemplateTriple) (planned : TriplePattern) : Prop where
  subject : triple.subject = .term planned.subject
  predicate : triple.predicate = .term planned.predicate.toTerm
  object : triple.object = .term planned.object

namespace Compiler

variable (compiler : Compiler)

/-- The answer may be what the query is read again as. -/
def RereadsAs (query answer : Query) : Prop :=
  match compiler.parser with
  | none => answer = query
  | some parser => ∃ before, parser.answer before (compiler.rereadCall query) = .ok answer

/-- The second query may be compiled in place of the first: it is the first one if nothing is
embedded in that, and otherwise what the first one is read again as, lifted. -/
inductive Compiles (query : Query) : Query → Prop
  | same (h : query.embeddings = []) : Compiles query query
  | lifted {answer : Query} {number : Nat} (h : query.embeddings ≠ [])
      (hanswer : compiler.RereadsAs query answer) :
      Compiles query (answer.lift compiler.fresh number)

/-- The element of the plan is the plan of the element. -/
inductive PlansElement : Element → PlanElement → Prop
  | triples {triples : List TemplateTriple} {planned : List TriplePattern}
      (h : List.Forall₂ TemplateTriple.PlannedAs triples planned) :
      PlansElement (.triples triples) (.triples planned)
  | query {query : Query} {plan : Plan} (hsource : compiler.Compiles query plan.source)
      (htop : plan.isTop = false) : PlansElement (.query query) (.plan plan)

/-- The output is the plan of the form, in a query with the base. -/
inductive PlansForm (base : Option Iri) : Form → Option Output → Prop
  | select : PlansForm base .select none
  | template : PlansForm base .template none
  | call {name : VarOrIri} {parameters : List Expr} :
      PlansForm base (.call name parameters) (some (.call ⟨base, name, parameters⟩))
  | generate {elements : List Element} {planned : List PlanElement}
      (h : List.Forall₂ compiler.PlansElement elements planned) :
      PlansForm base (.generate elements) (some (.template planned))

end Compiler

/-- The iterators of the node are taken in order with the other clauses. -/
def Plan.IsSync (node : Plan) : Prop :=
  node.isTop = true ∨ node.source.form = .select ∨ node.source.form = .template

/-- The node mirrors the query that it was made from. -/
structure Plan.Mirrors (compiler : Compiler) (node : Plan) : Prop where
  lifted : node.source.embeddings = []
  bindings : List.Forall₂ Clause.PlannedAs node.source.clauses node.bindings
  modes : ∀ mode function arguments vars,
    .iterator mode function arguments vars ∈ node.bindings → (mode = .sync ↔ node.IsSync)
  select : node.select = node.source.selectPlan
  output : compiler.PlansForm (compiler.baseOf node.source) node.source.form node.output

/-! ## Checks that succeed -/

theorem Term.eq_toTerm_of_asName {term : Term} {fault : Term → Fault} {name : VarOrIri}
    (h : term.asName fault = .ok name) : term = name.toTerm := by
  unfold asName at h
  split at h
  next found hfound =>
    obtain rfl : found = name := by simpa using h
    exact Term.toVarOrIri?_eq_some_iff.mp hfound
  next => cases h

theorem Term.eq_map_toTerm_of_mapM {accept : Option Term} {fault : Term → Fault}
    {media : Option VarOrIri} (h : accept.mapM (fun term => term.asName fault) = .ok media) :
    accept = media.map VarOrIri.toTerm := by
  cases accept with
  | none =>
      cases h
      rfl
  | some term =>
      rw [Option.mapM_some] at h
      cases hname : term.asName fault with
      | error error =>
          rw [hname] at h
          cases h
      | ok name =>
          rw [hname] at h
          cases h
          exact congrArg some (eq_toTerm_of_asName hname)

/-- The plan of a clause is a plan of that clause, whose iterators have the mode that was given. -/
theorem Clause.plannedAs_of_plan {mode : IteratorMode} {clause : Clause} {binding : Binding}
    (h : clause.plan mode = .ok binding) :
    clause.PlannedAs binding ∧ ∀ own function arguments vars,
      binding = .iterator own function arguments vars → own = mode := by
  cases clause with
  | iterator value vars =>
      simp only [plan, Binding.ofIterator] at h
      split at h
      next => cases h
      next hvars =>
        split at h
        next function arguments =>
          cases h
          refine ⟨.iterator (by simpa using hvars), ?_⟩
          intro own function arguments vars h
          cases h
          rfl
        next => cases h
  | source document accept var =>
      rw [plan] at h
      obtain ⟨name, hname, h⟩ := Except.exists_of_bind_eq_ok h
      obtain ⟨media, hmedia, h⟩ := Except.exists_of_bind_eq_ok h
      cases h
      rw [Term.eq_toTerm_of_asName hname, Term.eq_map_toTerm_of_mapM hmedia]
      exact ⟨.source, by simp⟩
  | bind value var =>
      cases h
      exact ⟨.bind, by simp⟩

theorem TemplateTerm.eq_term_of_plan {place : TemplateTerm} {term : Term}
    (h : place.plan = .ok term) : place = .term term := by
  cases place with
  | term t =>
      cases h
      rfl
  | embedded value => cases h

theorem TemplateTriple.plannedAs_of_plan {triple : TemplateTriple} {planned : TriplePattern}
    (h : triple.plan = .ok planned) : triple.PlannedAs planned := by
  obtain ⟨subject, hsubject, h⟩ := Except.exists_of_bind_eq_ok h
  obtain ⟨term, hterm, h⟩ := Except.exists_of_bind_eq_ok h
  obtain ⟨name, hname, h⟩ := Except.exists_of_bind_eq_ok h
  obtain ⟨object, hobject, h⟩ := Except.exists_of_bind_eq_ok h
  cases h
  have hpredicate := TemplateTerm.eq_term_of_plan hterm
  rw [Term.eq_toTerm_of_asName hname] at hpredicate
  exact ⟨TemplateTerm.eq_term_of_plan hsubject, hpredicate, TemplateTerm.eq_term_of_plan hobject⟩

theorem Query.iteratorMode_eq_sync_iff {query : Query} {isTop : Bool} :
    query.iteratorMode isTop = .sync ↔
      isTop = true ∨ query.form = .select ∨ query.form = .template := by
  unfold iteratorMode
  cases query.form <;> cases isTop <;> simp

theorem Query.plannedAs_of_bindings {query : Query} {isTop : Bool} {bindings : List Binding}
    (h : query.bindings isTop = .ok bindings) :
    List.Forall₂ Clause.PlannedAs query.clauses bindings ∧
      ∀ mode function arguments vars, .iterator mode function arguments vars ∈ bindings →
        mode = query.iteratorMode isTop := by
  have hplans := Except.forall₂_of_mapM_eq_ok h
  refine ⟨hplans.imp fun clause binding hplan => (Clause.plannedAs_of_plan hplan).1, ?_⟩
  intro mode function arguments vars hmem
  obtain ⟨clause, -, hplan⟩ := hplans.exists_of_mem_right hmem
  exact (Clause.plannedAs_of_plan hplan).2 mode function arguments vars rfl

/-! ## Runs that succeed -/

namespace Compiler

variable {compiler : Compiler}

/-- What a query is read as is an answer of the parser, or the query itself without a parser. -/
theorem rereadsAs_of_outcome_reread {query answer : Query} {trace left : Trace}
    (h : (compiler.reread query).outcome trace = some (.ok answer, left)) :
    compiler.RereadsAs query answer := by
  cases hparser : compiler.parser with
  | none =>
      rw [reread, hparser] at h
      rw [RereadsAs, hparser]
      exact Run.eq_of_outcome_pure h
  | some parser =>
      rw [reread, hparser] at h
      rw [RereadsAs, hparser]
      refine ⟨trace.calls, ?_⟩
      change some ((parser.answer trace.calls _).mapError _, _) = _ at h
      cases hanswer : parser.answer trace.calls (compiler.rereadCall query) with
      | error failure =>
          rw [hanswer] at h
          cases h
      | ok found =>
          rw [hanswer] at h
          cases h
          rfl

/-- What normalization returns may be compiled in place of the query. -/
theorem compiles_of_outcome_normalize {query source : Query} {trace left : Trace}
    (h : (compiler.normalize query).outcome trace = some (.ok source, left)) :
    compiler.Compiles query source := by
  rw [normalize_eq] at h
  split at h
  next hcount =>
    obtain rfl := Run.eq_of_outcome_pure h
    exact .same (Query.embeddedCount_eq_zero_iff.mp hcount)
  next hcount =>
    split at h
    next => cases h
    next =>
      obtain ⟨answer, middle, hanswer, h⟩ := Run.exists_of_outcome_bind h
      obtain rfl := Query.eq_lift_of_outcome_liftNext h
      exact .lifted (fun hnil => hcount (Query.embeddedCount_eq_zero_iff.mpr hnil))
        (rereadsAs_of_outcome_reread hanswer)

theorem Compiles.embeddings_eq_nil {query source : Query} (h : compiler.Compiles query source) :
    source.embeddings = [] := by
  cases h with
  | same h => exact h
  | @lifted answer number h hanswer => exact answer.embeddings_lift compiler.fresh number

/-! ## The whole tree -/

/-- What holds of the plan of a query at the root and at the nodes below it. -/
structure MakesTree (compiler : Compiler) (isTop : Bool) (query : Query) (plan : Plan) : Prop where
  root : plan.isTop = isTop
  below : ∀ node ∈ plan.nodesBelow, node.isTop = false
  source : compiler.Compiles query plan.source
  mirrors : ∀ node ∈ plan.nodes, node.Mirrors compiler

variable {nested : Query → Run Plan}

/-- Compiling an element makes a tree of the query in it, if compiling a nested query does. -/
theorem plansElement_of_outcome_elementWith
    (hnested : ∀ query trace plan left, (nested query).outcome trace = some (.ok plan, left) →
      compiler.MakesTree false query plan)
    {element : Element} {planned : PlanElement} {trace left : Trace}
    (h : (elementWith nested element).outcome trace = some (.ok planned, left)) :
    compiler.PlansElement element planned ∧
      ∀ plan, planned = .plan plan → ∃ query, compiler.MakesTree false query plan := by
  cases element with
  | triples triples =>
      obtain ⟨patterns, hchecks, rfl, -⟩ := exists_of_outcome_triples h
      have hplans := Except.forall₂_of_mapM_eq_ok hchecks
      refine ⟨.triples (hplans.imp fun triple pattern => TemplateTriple.plannedAs_of_plan), ?_⟩
      intro plan hplan
      cases hplan
  | query query =>
      obtain ⟨plan, hplan, rfl⟩ := exists_of_outcome_query h
      have htree := hnested query trace plan left hplan
      refine ⟨.query htree.source htree.root, ?_⟩
      rintro _ ⟨⟩
      exact ⟨query, htree⟩

/-- The output of a query is the plan of its form, and the nodes in it are mirrors that are not
top level. -/
theorem plansForm_of_outcome_outputWith
    (hnested : ∀ query trace plan left, (nested query).outcome trace = some (.ok plan, left) →
      compiler.MakesTree false query plan)
    {query : Query} {output : Option Output} {trace left : Trace}
    (h : (compiler.outputWith nested query).outcome trace = some (.ok output, left)) :
    compiler.PlansForm (compiler.baseOf query) query.form output ∧
      ∀ node ∈ Output.nodesBelow output, node.isTop = false ∧ node.Mirrors compiler := by
  unfold outputWith at h
  split at h
  next hform =>
    obtain rfl := Run.eq_of_outcome_pure h
    exact ⟨hform ▸ .select, by simp [Output.nodesBelow]⟩
  next hform =>
    obtain rfl := Run.eq_of_outcome_pure h
    exact ⟨hform ▸ .template, by simp [Output.nodesBelow]⟩
  next callee parameters hform =>
    obtain ⟨call, middle, hcall, h⟩ := Run.exists_of_outcome_bind h
    obtain rfl := Run.eq_of_outcome_pure h
    have hcall := Run.eq_ok_of_outcome_ofExcept hcall
    rw [callPlan, hform] at hcall
    cases hcall
    exact ⟨hform ▸ .call, by simp [Output.nodesBelow, Output.nodes]⟩
  next elements hform =>
    obtain ⟨planned, middle, hplanned, h⟩ := Run.exists_of_outcome_bind h
    obtain rfl := Run.eq_of_outcome_pure h
    simp only [templateWith, hform] at hplanned
    have helements : List.Forall₂ (fun element part => compiler.PlansElement element part ∧
        ∀ plan, part = .plan plan → ∃ query, compiler.MakesTree false query plan)
        elements planned := by
      refine (Run.forall₂_of_outcome_mapM hplanned).imp ?_
      rintro element part ⟨before, after, hpart⟩
      exact plansElement_of_outcome_elementWith hnested hpart
    refine ⟨hform ▸ .generate (helements.imp fun element part hpart => hpart.1), ?_⟩
    intro node hnode
    obtain ⟨plan, hmem, hnode⟩ := PlanElement.mem_nodesAll_iff.mp hnode
    obtain ⟨element, -, -, hplan⟩ := helements.exists_of_mem_right hmem
    obtain ⟨query, htree⟩ := hplan plan rfl
    refine ⟨?_, htree.mirrors node hnode⟩
    rw [Plan.nodes_eq, List.mem_cons] at hnode
    rcases hnode with rfl | hnode
    · exact htree.root
    · exact htree.below node hnode

/-- A compilation that succeeds, to any number of levels, makes a tree of mirrors. -/
theorem makesTree_of_outcome_planWithin {levels : Nat} {isTop : Bool} {query : Query}
    {plan : Plan} {trace left : Trace}
    (h : (compiler.planWithin levels isTop query).outcome trace = some (.ok plan, left)) :
    compiler.MakesTree isTop query plan := by
  induction levels generalizing isTop query plan trace left with
  | zero => cases h
  | succ levels ih =>
      obtain ⟨source, first, hsource, h⟩ := Run.exists_of_outcome_bind h
      obtain ⟨bindings, second, hbindings, h⟩ := Run.exists_of_outcome_bind h
      obtain ⟨output, third, houtput, h⟩ := Run.exists_of_outcome_bind h
      obtain rfl := Run.eq_of_outcome_pure h
      have hcompiles := compiles_of_outcome_normalize hsource
      have hchecks := Run.eq_ok_of_outcome_ofExcept hbindings
      obtain ⟨hplanned, hmodes⟩ := Query.plannedAs_of_bindings hchecks
      -- A nested query is compiled on the level below, from whatever trace it is reached with.
      obtain ⟨hform, hbelow⟩ := plansForm_of_outcome_outputWith
        (fun query trace plan left hplan => ih hplan) houtput
      refine ⟨rfl, fun node hnode => (hbelow node hnode).1, hcompiles, ?_⟩
      intro node hnode
      rw [Plan.nodes_eq, List.mem_cons] at hnode
      rcases hnode with rfl | hnode
      · refine ⟨hcompiles.embeddings_eq_nil, hplanned, ?_, rfl, hform⟩
        intro mode function arguments vars hmem
        rw [hmodes mode function arguments vars hmem]
        exact Query.iteratorMode_eq_sync_iff
      · exact (hbelow node hnode).2

/-- Whatever a parser answers, a compilation that succeeds makes a tree of mirrors. The root is top
level if the query is compiled on its own, and no other node is. -/
theorem compilation_mirrors_queries (compiler : Compiler) (query : Query) (plan : Plan)
    (trace left : Trace) :
    ((compiler.compile query).outcome trace = some (.ok plan, left) →
      compiler.MakesTree true query plan) ∧
    ((compiler.compileNested query).outcome trace = some (.ok plan, left) →
      compiler.MakesTree false query plan) :=
  ⟨makesTree_of_outcome_planWithin, makesTree_of_outcome_planWithin⟩

/-- A template with an embedded expression, which is read as a template over a nested query. -/
def rereadTree : Query :=
  .generate [.triples [⟨.embedded (.var ⟨"s"⟩), .term (.var ⟨"p"⟩), .term (.var ⟨"o"⟩)⟩]]

/-- A compiler whose parser answers with a query that has an iterator in a nested query. -/
def rereadingCompiler : Compiler where
  parser := some <| .ofReplies
    [.query (.generate [.query { Query.generate [] with
      clauses := [.iterator (.call (.custom ⟨"f"⟩) []) [⟨"x"⟩]] }])]
    (.foreign "unexpected query")

/-- The tree is that of the answer, and the iterator below the root may be interleaved. -/
theorem compilation_mirrors_answer :
    ∃ plan left, (rereadingCompiler.compile rereadTree).outcome {} = some (.ok plan, left) ∧
      rereadingCompiler.MakesTree true rereadTree plan ∧
      (plan.nodesBelow.map fun node => node.bindings) =
        [[.iterator .async ⟨"f"⟩ [] [⟨"x"⟩]]] :=
  ⟨_, _, rfl, (compilation_mirrors_queries rereadingCompiler rereadTree _ {} _).1 rfl, rfl⟩

end Compiler

end SparqlGenerate
