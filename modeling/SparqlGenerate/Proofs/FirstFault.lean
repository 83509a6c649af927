import SparqlGenerate.Proofs.Faults

/-!
# Compilations report the first fault

Without a parser a compilation always ends, and its result can be read off the query tree: it is
the error of the first fault of the tree, or a plan if there is none. Lifting matters here, since
it comes before the template is looked at: a predicate that is an expression has become a variable
by then.

With a parser the query that is compiled need not be the one that is given, and nothing is said
about it here.
-/

namespace SparqlGenerate

/-! ## Clauses and triples -/

theorem Term.reports_asName (fault : Term → Fault) (term : Term) :
    (Run.ofExcept (term.asName fault)).Reports (term.nameFaults fault) := by
  cases term with
  | iri name => exact Run.reports_pure _
  | var name => exact Run.reports_pure _
  | blank label => exact Run.reports_throw _ []
  | literal value => exact Run.reports_throw _ []

theorem Binding.reports_ofIterator (mode : IteratorMode) (value : Expr) (vars : List Var) :
    (Run.ofExcept (Binding.ofIterator mode value vars)).Reports
      ((if vars = [] then [.iteratorWithoutVars] else []) ++ value.callFaults) := by
  unfold Binding.ofIterator
  cases vars with
  | nil => exact Run.reports_throw _ _
  | cons v rest =>
      rw [if_neg (by simp), if_neg (by simp), List.nil_append]
      cases value with
      | call function arguments =>
          cases function with
          | custom name => exact Run.reports_pure _
          | builtin name => exact Run.reports_throw _ []
      | _ => exact Run.reports_throw _ []

theorem Clause.reports_plan (mode : IteratorMode) (clause : Clause) :
    (Run.ofExcept (clause.plan mode)).Reports clause.faults := by
  cases clause with
  | iterator value vars => exact Binding.reports_ofIterator mode value vars
  | bind value var => exact Run.reports_pure _
  | source document accept var =>
      rw [plan, Run.ofExcept_bind]
      refine (document.reports_asName .sourceNotName).bind fun _ name _ _ => ?_
      rw [Run.ofExcept_bind]
      cases accept with
      | none => exact Run.reports_pure _
      | some term =>
          have haccept := (term.reports_asName .acceptNotName).map fun accept =>
            Binding.source name (some accept) var
          simpa [Run.ofExcept_map] using haccept

/-- The plans of the clauses of a query report the faults of the clauses in their order. -/
theorem Query.reports_bindings (query : Query) (isTop : Bool) :
    (Run.ofExcept (query.bindings isTop)).Reports (query.clauses.flatMap Clause.faults) := by
  rw [bindings, Run.ofExcept_mapM]
  exact Run.reports_mapM fun clause _ => clause.reports_plan (query.iteratorMode isTop)

theorem TemplateTerm.reports_plan (term : TemplateTerm) :
    (Run.ofExcept term.plan).Reports term.unliftedFaults := by
  cases term with
  | term t => exact Run.reports_pure t
  | embedded value => exact Run.reports_throw _ []

/-- A predicate is found not to be lifted before it is found not to be a name. -/
theorem TemplateTerm.reports_plan_asName (term : TemplateTerm) :
    (Run.ofExcept (term.plan >>= fun t => t.asName .predicateNotName)).Reports
      (term.unliftedFaults ++ term.predicateFaults) := by
  cases term with
  | term t => exact t.reports_asName .predicateNotName
  | embedded value => exact Run.reports_throw _ _

theorem TemplateTriple.reports_plan (triple : TemplateTriple) :
    (Run.ofExcept triple.plan).Reports triple.unliftedFaults := by
  -- Both checks of the predicate come before the object is looked at.
  have hplan : triple.plan = do
      let subject ← triple.subject.plan
      let predicate ← triple.predicate.plan >>= fun t => t.asName .predicateNotName
      let object ← triple.object.plan
      return ⟨subject, predicate, object⟩ := by
    simp [plan]
  rw [hplan, unliftedFaults, List.append_assoc, Run.ofExcept_bind]
  refine triple.subject.reports_plan.bind fun _ subject _ _ => ?_
  rw [Run.ofExcept_bind]
  refine triple.predicate.reports_plan_asName.bind fun _ predicate _ _ => ?_
  simpa [Run.ofExcept_map] using
    triple.object.reports_plan.map fun object => (⟨subject, predicate, object⟩ : TriplePattern)

/-! ## Templates -/

namespace Compiler

variable {rounds : Nat} {nested : Query → Run Plan}

/-- The plan of an element reports the faults of the element as it stands, if the plans of the
queries in it report theirs. -/
theorem reports_elementWith {element : Element}
    (hnested : ∀ query, element = .query query → (nested query).Reports (query.faults rounds)) :
    (elementWith nested element).Reports (element.unliftedFaults rounds) := by
  cases element with
  | triples triples =>
      have htriples := Run.reports_mapM fun triple (_ : triple ∈ triples) => triple.reports_plan
      rw [← Run.ofExcept_mapM] at htriples
      exact htriples.map PlanElement.triples
  | query query => exact (hnested query rfl).map PlanElement.plan

theorem reports_templateWith {query : Query}
    (hnested : ∀ q, .query q ∈ query.elements → (nested q).Reports (q.faults rounds)) :
    (templateWith nested query).Reports (query.templateFaults rounds) := by
  unfold templateWith
  split
  next elements hform =>
    rw [Query.elements_of_generate hform] at hnested
    rw [Query.templateFaults_of_generate rounds hform]
    exact Run.reports_mapM fun element helement =>
      reports_elementWith fun q hq => hnested q (hq ▸ helement)
  next hform =>
    rw [Query.templateFaults_of_not_generate rounds hform]
    exact Run.reports_throw _ []

/-- The output of a query reports the faults of its template as it stands, if it has one. -/
theorem reports_outputWith (compiler : Compiler) {query : Query}
    (hnested : ∀ q, .query q ∈ query.elements → (nested q).Reports (q.faults rounds)) :
    (compiler.outputWith nested query).Reports
      (query.elements.flatMap (Element.unliftedFaults rounds)) := by
  unfold outputWith
  split
  next hform => simpa [Query.elements, Query.elements?, hform] using Run.reports_pure _
  next hform => simpa [Query.elements, Query.elements?, hform] using Run.reports_pure _
  next callee parameters hform =>
    simpa [Query.elements, Query.elements?, hform, callPlan] using Run.reports_pure _
  next elements hform =>
    have htemplate := reports_templateWith hnested
    rw [Query.templateFaults_of_generate rounds hform] at htemplate
    rw [Query.elements_of_generate hform]
    exact htemplate.map fun planned => some (Output.template planned)

/-! ## Lifting and faults -/

end Compiler

@[simp]
theorem TemplateTerm.predicateFaults_lift (fresh : Supply) (number : Nat) (term : TemplateTerm) :
    (term.lift fresh number).predicateFaults = term.predicateFaults := by
  cases term <;> rfl

theorem TemplateTriple.predicateFaults_liftAll (fresh : Supply) (number : Nat)
    (triples : List TemplateTriple) :
    (liftAll fresh number triples).flatMap (fun triple => triple.predicate.predicateFaults) =
      triples.flatMap fun triple => triple.predicate.predicateFaults := by
  induction triples generalizing number with
  | nil => rfl
  | cons triple rest ih => simp [liftAll, lift, ih]

/-- As it stands, a lifted element has the faults that the element has. -/
theorem Element.unliftedFaults_lift (rounds : Nat) (fresh : Supply) (number : Nat)
    (element : Element) :
    (element.lift fresh number).unliftedFaults rounds = element.faults rounds := by
  rw [unliftedFaults_of_embeddings rounds (embeddings_lift fresh number element)]
  cases element with
  | triples triples => exact TemplateTriple.predicateFaults_liftAll fresh number triples
  | query nested => rfl

theorem Element.unliftedFaults_liftAll (rounds : Nat) (fresh : Supply) (number : Nat)
    (elements : List Element) :
    (liftAll fresh number elements).flatMap (unliftedFaults rounds) =
      elements.flatMap (faults rounds) := by
  induction elements generalizing number with
  | nil => rfl
  | cons element rest ih => simp [liftAll, unliftedFaults_lift, ih]

/-! ## Plans -/

namespace Compiler

variable {compiler : Compiler}

/-- Without a parser, normalization reports whether it has the round that it needs. -/
theorem reports_normalize (hparser : compiler.parser = none) (query : Query) :
    (compiler.normalize query).Reports (query.roundFaults compiler.maxRounds) := by
  unfold Query.roundFaults
  split
  next hrounds =>
    rw [normalize_eq_liftNext hparser hrounds]
    exact fun trace => ⟨_, _, Query.outcome_liftNext compiler.fresh query trace, _, rfl⟩
  next hrounds =>
    obtain ⟨hnone, hcount⟩ := not_or.mp hrounds
    rw [normalize_eq, if_neg hcount, if_pos (Nat.lt_one_iff.mp (Nat.not_le.mp hnone))]
    exact Run.reports_throw _ []

/-- Without a parser, what normalization returns is the query, lifted. -/
theorem eq_lift_of_outcome_normalize (hparser : compiler.parser = none) {query source : Query}
    {trace left : Trace} (h : (compiler.normalize query).outcome trace = some (.ok source, left)) :
    source = query.lift compiler.fresh trace.drawn := by
  have hfaults := ((reports_normalize hparser query).succeeds_iff trace).mp ⟨source, left, h⟩
  rw [Query.roundFaults_eq_nil_iff, ← Query.embeddedCount_eq_zero_iff] at hfaults
  rw [normalize_eq_liftNext hparser hfaults] at h
  exact Query.eq_lift_of_outcome_liftNext h

/-- A compilation to a sufficient number of levels reports the faults of the tree. -/
theorem reports_planWithin (hparser : compiler.parser = none) (levels : Nat) (isTop : Bool)
    {query : Query} (hdepth : query.depth ≤ levels) :
    (compiler.planWithin levels isTop query).Reports (query.faults compiler.maxRounds) := by
  induction levels generalizing isTop query with
  -- There are as many levels as the query is deep, so no nested query is met without a level left.
  | zero => exact absurd hdepth (Nat.not_le.mpr query.depth_pos)
  | succ levels ih =>
      rw [Query.faults_eq, List.append_assoc]
      refine (reports_normalize hparser query).bind fun trace source middle hsource => ?_
      obtain rfl := eq_lift_of_outcome_normalize hparser hsource
      have hbindings := (query.lift compiler.fresh trace.drawn).reports_bindings isTop
      rw [Query.clauses_lift] at hbindings
      refine hbindings.bind fun _ bindings _ _ => ?_
      have hnested : ∀ q, .query q ∈ (query.lift compiler.fresh trace.drawn).elements →
          (compiler.planWithin levels false q).Reports (q.faults compiler.maxRounds) := by
        intro q hq
        rw [Query.elements_lift, Element.query_mem_liftAll] at hq
        exact ih false (Nat.le_of_lt_succ
          (Nat.lt_of_lt_of_le (Query.depth_lt_of_mem_elements hq) hdepth))
      have houtput := compiler.reports_outputWith hnested
      rw [Query.elements_lift, Element.unliftedFaults_liftAll] at houtput
      exact houtput.map fun output =>
        Plan.mk (query.lift compiler.fresh trace.drawn) bindings
          (query.lift compiler.fresh trace.drawn).selectPlan output isTop

/-- Without a parser a compilation goes through the levels of the query and no more. -/
theorem levelsFor_eq_depth (hparser : compiler.parser = none) (query : Query) :
    compiler.levelsFor query = query.depth := by
  simp [levelsFor, hparser]

end Compiler

end SparqlGenerate
