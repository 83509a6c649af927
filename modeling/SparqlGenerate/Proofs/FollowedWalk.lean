import SparqlGenerate.Proofs.FirstFault
import SparqlGenerate.Proofs.Levels
import SparqlGenerate.Proofs.PlanTree
import SparqlGenerate.Proofs.Walk

/-!
# Compilations follow walks

However a compilation ends, it has followed the walk of its query: the walk accounts for the calls
that it made and for the error that it ended with, and its plan has a node for each query that was
visited. A compilation looks at queries that are lifted, and the walk at queries as they were before
that, so the parts of a lifted query are shown to be checked as the parts of the query are.

Conversely, where there is a walk the compilation ends, if it may go through levels enough. So only
a compilation of a query that has no walk, as when each answer holds a further query, is abandoned
however many levels it may go through.
-/

namespace SparqlGenerate

/-! ## Checks of what is lifted -/

theorem Run.reports_of_ofExcept {α : Type} {check : Except CompileError α} {faults : List Fault}
    (h : (Run.ofExcept check).Reports faults) : SparqlGenerate.Reports faults check := by
  obtain ⟨result, left, houtcome, hresult⟩ := h {}
  rw [Run.outcome_ofExcept] at houtcome
  cases houtcome
  exact hresult

namespace Compiler

/-- The check of lifted triples finds the faults of the triples as they were. -/
theorem reports_triples_lift (fresh : Supply) (number : Nat) (triples : List TemplateTriple) :
    SparqlGenerate.Reports (TemplateTriple.faultsAll triples)
      ((TemplateTriple.liftAll fresh number triples).mapM TemplateTriple.plan) := by
  -- A lifted triple has no fault but that of its predicate.
  have hfaults : (TemplateTriple.liftAll fresh number triples).flatMap
      TemplateTriple.unliftedFaults = TemplateTriple.faultsAll triples :=
    Element.unliftedFaults_lift 0 fresh number (.triples triples)
  have hreports := Run.reports_mapM fun triple
    (_ : triple ∈ TemplateTriple.liftAll fresh number triples) => triple.reports_plan
  rw [hfaults, ← Run.ofExcept_mapM] at hreports
  exact Run.reports_of_ofExcept hreports

/-- The check of the clauses of a lifted query finds the faults of the clauses as they were. -/
theorem reports_bindings_lift (compiler : Compiler) (number : Nat) (isTop : Bool)
    (answer : Query) : SparqlGenerate.Reports answer.clauseFaults
      ((answer.lift compiler.fresh number).bindings isTop) := by
  have hreports := (answer.lift compiler.fresh number).reports_bindings isTop
  rw [Query.clauses_lift] at hreports
  exact Run.reports_of_ofExcept hreports

variable {compiler : Compiler}

/-! ## Opening a query -/

@[simp]
theorem text_rereadCall (compiler : Compiler) (query : Query) :
    (compiler.rereadCall query).text = query.text := by
  unfold rereadCall
  split <;> rfl

/-- Opening a query makes the call that the walk makes, and draws no variables. -/
theorem opens_of_outcome_opened {query : Query} {trace left : Trace}
    {result : Except CompileError Query}
    (h : (compiler.opened query).outcome trace = some (result, left)) :
    compiler.Opens query trace.calls result left.calls ∧ left.drawn = trace.drawn := by
  unfold opened at h
  split at h
  next hcount =>
    cases h
    exact ⟨.plain hcount, rfl⟩
  next hcount =>
    split at h
    next hrounds =>
      cases h
      rw [hrounds]
      exact ⟨.exhausted hcount hrounds, rfl⟩
    next hrounds =>
      unfold reread at h
      split at h
      next hparser =>
        cases h
        exact ⟨.unread hcount hrounds hparser, rfl⟩
      next parser hparser =>
        rw [Parser.outcome_ask] at h
        cases hanswer : parser.answer trace.calls (compiler.rereadCall query) with
        | ok answer =>
            rw [hanswer] at h
            cases h
            exact ⟨.answered hcount hrounds hparser hanswer, rfl⟩
        | error failure =>
            rw [hanswer, text_rereadCall] at h
            cases h
            exact ⟨.refused hcount hrounds hparser hanswer, rfl⟩

/-- What the walk finds at a query is what opening the query comes to. -/
theorem outcome_opened_of_opens {query : Query} {trace : Trace} {left : List Call}
    {result : Except CompileError Query} (h : compiler.Opens query trace.calls result left) :
    (compiler.opened query).outcome trace = some (result, { trace with calls := left }) := by
  unfold opened
  cases h with
  | plain hcount => rw [if_pos hcount, Run.outcome_pure]
  | exhausted hcount hrounds => rw [if_neg hcount, if_pos hrounds, Run.outcome_throw, hrounds]
  | unread hcount hrounds hparser =>
      rw [if_neg hcount, if_neg hrounds, reread, hparser, Run.outcome_pure]
  | answered hcount hrounds hparser hanswer =>
      rw [if_neg hcount, if_neg hrounds, reread, hparser, Parser.outcome_ask, hanswer]
      rfl
  | refused hcount hrounds hparser hanswer =>
      rw [if_neg hcount, if_neg hrounds, reread, hparser, Parser.outcome_ask, hanswer,
        text_rereadCall]
      rfl

theorem compiles_of_opens {query answer : Query} {log left : List Call}
    (h : compiler.Opens query log (.ok answer) left) (number : Nat) :
    compiler.Compiles query (answer.lift compiler.fresh number) := by
  cases h with
  | plain hcount =>
      have hnone := Query.embeddedCount_eq_zero_iff.mp hcount
      rw [query.lift_eq_self compiler.fresh number hnone]
      exact .same hnone
  | unread hcount hrounds hparser =>
      refine .lifted (fun hnone => hcount (Query.embeddedCount_eq_zero_iff.mpr hnone)) ?_
      rw [RereadsAs, hparser]
  | answered hcount hrounds hparser hanswer =>
      refine .lifted (fun hnone => hcount (Query.embeddedCount_eq_zero_iff.mpr hnone)) ?_
      rw [RereadsAs, hparser]
      exact ⟨log, hanswer⟩

/-! ## Runs follow walks -/

/-- However the run ends, it has followed the walk through the elements. If it has a result, that
is related to the queries that were visited. -/
def Follows {α : Type} (compiler : Compiler) (run : Run α) (agenda : List Element)
    (post : α → List Query → Prop) : Prop :=
  ∀ trace result left, run.outcome trace = some (result, left) →
    ∃ visited, compiler.Walks agenda trace.calls visited (errorIn result) left.calls ∧
      ∀ a, result = .ok a → post a visited

theorem follows_pure {α : Type} {a : α} {post : α → List Query → Prop} (h : post a []) :
    compiler.Follows (pure a) [] post := by
  intro trace result left hrun
  rw [Run.outcome_pure] at hrun
  cases hrun
  refine ⟨[], .done, ?_⟩
  rintro _ ⟨⟩
  exact h

/-- What is done with the result of a run goes on with the walk. -/
theorem Follows.bind {α β : Type} {run : Run α} {next : α → Run β} {first second : List Element}
    {middle : α → List Query → Prop} {post : β → List Query → Prop}
    (hrun : compiler.Follows run first middle)
    (hnext : ∀ a visited, middle a visited →
      compiler.Follows (next a) second fun b further => post b (visited ++ further)) :
    compiler.Follows (run >>= next) (first ++ second) post := by
  intro trace result left h
  rw [Run.outcome_bind, Option.bind_eq_some_iff] at h
  obtain ⟨⟨reached, between⟩, hreached, h⟩ := h
  obtain ⟨visited, hwalk, hmiddle⟩ := hrun trace reached between hreached
  cases reached with
  | error error =>
      cases h
      refine ⟨visited, hwalk.append_of_error second, ?_⟩
      rintro _ ⟨⟩
  | ok a =>
      obtain ⟨further, hfurther, hpost⟩ :=
        hnext a visited (hmiddle a rfl) between result left h
      exact ⟨visited ++ further, hwalk.append hfurther, hpost⟩

/-- A run that only returns its result in another shape follows the same walk. -/
theorem Follows.map {α β : Type} {run : Run α} {agenda : List Element}
    {post : β → List Query → Prop} (value : α → β)
    (hrun : compiler.Follows run agenda fun a visited => post (value a) visited) :
    compiler.Follows (run >>= fun a => pure (value a)) agenda post := by
  have hwhole : compiler.Follows (run >>= fun a => pure (value a)) (agenda ++ []) post :=
    hrun.bind fun a visited hpost => follows_pure (by simpa using hpost)
  rwa [List.append_nil] at hwhole

/-- A check of triples ends the walk with the first of their faults. -/
theorem follows_triples {triples : List TemplateTriple} {α : Type} {check : Except CompileError α}
    {post : α → List Query → Prop}
    (hcheck : SparqlGenerate.Reports (TemplateTriple.faultsAll triples) check)
    (hpost : ∀ a, post a []) :
    compiler.Follows (Run.ofExcept check) [.triples triples] post := by
  intro trace result left h
  rw [Run.outcome_ofExcept] at h
  cases h
  cases hfaults : TemplateTriple.faultsAll triples with
  | nil =>
      rw [hfaults] at hcheck
      obtain ⟨a, rfl⟩ := hcheck
      exact ⟨[], .triples hfaults .done, fun b _ => hpost b⟩
  | cons fault further =>
      rw [hfaults] at hcheck
      obtain rfl := hcheck
      refine ⟨[], .faultyTriples hfaults, ?_⟩
      rintro _ ⟨⟩

/-! ## Plans -/

/-- The nodes are made from the queries that were visited, one from each and in the same order. -/
def MadeFrom (compiler : Compiler) (nodes : List Plan) (visited : List Query) : Prop :=
  List.Forall₂ (fun query node => compiler.Compiles query node.source) visited nodes

section Elements

variable {nested : Query → Run Plan} (hnested : ∀ query,
  compiler.Follows (nested query) [.query query] fun plan => compiler.MadeFrom plan.nodes)

include hnested

/-- Planning a lifted element follows the walk of the element as it was before. -/
theorem follows_elementWith (number : Nat) (element : Element) :
    compiler.Follows (elementWith nested (element.lift compiler.fresh number)) [element]
      fun planned => compiler.MadeFrom planned.nodes := by
  cases element with
  | query query => exact Follows.map PlanElement.plan (hnested query)
  | triples triples =>
      have hcheck := reports_triples_lift compiler.fresh number triples
      exact Follows.map PlanElement.triples
        (follows_triples hcheck fun planned => List.Forall₂.nil)

/-- Planning lifted elements follows the walk of the elements as they were before. -/
theorem follows_elements (number : Nat) (elements : List Element) :
    compiler.Follows
      ((Element.liftAll compiler.fresh number elements).mapM (elementWith nested)) elements
      fun planned => compiler.MadeFrom (PlanElement.nodesAll planned) := by
  induction elements generalizing number with
  | nil => exact follows_pure .nil
  | cons element rest ih =>
      rw [Element.liftAll, List.mapM_cons]
      refine (follows_elementWith hnested number element).bind fun planned visited hplanned => ?_
      refine .map (planned :: ·) fun trace result left h => ?_
      obtain ⟨further, hwalk, hfurther⟩ := ih _ trace result left h
      exact ⟨further, hwalk, fun others hothers =>
        List.rel_append hplanned (hfurther others hothers)⟩

/-- Planning the template of a lifted query follows the walk of the template as it was before. -/
theorem follows_template (number : Nat) (answer : Query) :
    compiler.Follows ((answer.lift compiler.fresh number).elements.mapM (elementWith nested))
      answer.elements fun planned => compiler.MadeFrom
        (Output.nodesBelow (compiler.outputOf (answer.lift compiler.fresh number) planned)) := by
  rw [Query.elements_lift]
  obtain ⟨form, base, dataset, name, signature, clauses, pattern⟩ := answer
  cases form with
  | generate elements => exact follows_elements hnested number elements
  | select => exact follows_pure List.Forall₂.nil
  | template => exact follows_pure List.Forall₂.nil
  | call callee parameters => exact follows_pure List.Forall₂.nil

end Elements

/-- A compilation follows the walk of its query, and its plan has a node for each query that was
visited. -/
theorem follows_planWithin (compiler : Compiler) (levels : Nat) (isTop : Bool) (query : Query) :
    compiler.Follows (compiler.planWithin levels isTop query) [.query query] fun plan =>
      compiler.MadeFrom plan.nodes := by
  induction levels generalizing isTop query with
  | zero =>
      intro trace result left h
      cases h
  | succ levels ih =>
      intro trace result left h
      rw [planWithin_succ, Run.outcome_bind, Option.bind_eq_some_iff] at h
      obtain ⟨⟨reached, middle⟩, hreached, h⟩ := h
      obtain ⟨hopens, -⟩ := opens_of_outcome_opened hreached
      cases reached with
      | error error =>
          cases h
          refine ⟨[query], .unopened hopens, ?_⟩
          rintro _ ⟨⟩
      | ok answer =>
          replace h := (Run.outcome_bind_of_ok
            (Query.outcome_liftNext compiler.fresh answer middle)).symm.trans h
          have hbindings := compiler.reports_bindings_lift middle.drawn isTop answer
          cases hfaults : answer.clauseFaults with
          | cons fault further =>
              rw [hfaults] at hbindings
              rw [planLifted_of_error _ _ hbindings] at h
              cases h
              refine ⟨[query], .faultyClauses hopens hfaults, ?_⟩
              rintro _ ⟨⟩
          | nil =>
              rw [hfaults] at hbindings
              obtain ⟨bindings, hbindings⟩ := hbindings
              rw [planLifted_of_ok _ _ hbindings, Run.outcome_bind, Option.bind_eq_some_iff] at h
              obtain ⟨⟨planned, last⟩, hplanned, h⟩ := h
              obtain ⟨visited, hwalk, hmade⟩ :=
                follows_template (ih false) middle.drawn answer _ planned last hplanned
              rw [← List.append_nil answer.elements] at hwalk
              cases planned with
              | error error =>
                  cases h
                  refine ⟨query :: visited, .query hopens hfaults hwalk, ?_⟩
                  rintro _ ⟨⟩
              | ok planned =>
                  cases h
                  refine ⟨query :: visited, .query hopens hfaults hwalk, ?_⟩
                  rintro _ ⟨⟩
                  rw [Plan.nodes_eq]
                  exact .cons (compiles_of_opens hopens middle.drawn) (hmade planned rfl)

/-- A compilation that ends, in whatever way, has walked through its query. -/
theorem exists_walks_of_outcome {levels : Nat} {isTop : Bool} {query : Query}
    {trace left : Trace} {result : Except CompileError Plan}
    (h : (compiler.planWithin levels isTop query).outcome trace = some (result, left)) :
    ∃ visited, compiler.Walks [.query query] trace.calls visited (errorIn result) left.calls := by
  obtain ⟨visited, hwalk, -⟩ := compiler.follows_planWithin levels isTop query _ _ _ h
  exact ⟨visited, hwalk⟩

/-! ## Compilations that end -/

/-- Each query whose walk visits so many queries at most is compiled to some end. -/
def EndsAlong (compiler : Compiler) (nested : Query → Run Plan) (visits : Nat) : Prop :=
  ∀ query trace visited ending left,
    compiler.Walks [.query query] trace.calls visited ending left → visited.length ≤ visits →
      ∃ ended, (nested query).outcome trace = some ended

theorem exists_outcome_elementWith {nested : Query → Run Plan} {visits : Nat}
    (hends : compiler.EndsAlong nested visits) (number : Nat) {element : Element} {trace : Trace}
    {left : List Call} {visited : List Query} {ending : Option CompileError}
    (h : compiler.Walks [element] trace.calls visited ending left)
    (hvisits : visited.length ≤ visits) :
    ∃ ended, (elementWith nested (element.lift compiler.fresh number)).outcome trace =
      some ended := by
  cases element with
  | triples triples => exact Run.exists_outcome_bind ⟨_, rfl⟩ fun _ _ _ => ⟨_, rfl⟩
  | query query =>
      exact Run.exists_outcome_bind (hends query trace visited ending left h hvisits)
        fun _ _ _ => ⟨_, rfl⟩

/-- Elements are planned to some end if their walk visits few queries. -/
theorem exists_outcome_elements {nested : Query → Run Plan} {visits : Nat}
    (hnested : ∀ query, compiler.Follows (nested query) [.query query] fun plan =>
      compiler.MadeFrom plan.nodes)
    (hends : compiler.EndsAlong nested visits) (number : Nat) {elements : List Element}
    {trace : Trace} {left : List Call} {visited : List Query} {ending : Option CompileError}
    (h : compiler.Walks elements trace.calls visited ending left)
    (hvisits : visited.length ≤ visits) :
    ∃ ended, Run.outcome
      ((Element.liftAll compiler.fresh number elements).mapM (elementWith nested)) trace =
        some ended := by
  induction elements generalizing number trace visited with
  | nil => exact ⟨_, rfl⟩
  | cons element rest ih =>
      rw [Element.liftAll, List.mapM_cons]
      have hsequence : compiler.Walks ([element] ++ rest) trace.calls visited ending left := h
      rcases hsequence.split with
        ⟨error, rfl, hfirst⟩ | ⟨passed, further, middle, rfl, hfirst, hsecond⟩
      · refine Run.exists_outcome_bind (exists_outcome_elementWith hends number hfirst hvisits) ?_
        intro planned between hplanned
        obtain ⟨_, hother, -⟩ := follows_elementWith hnested number element _ _ _ hplanned
        cases (hfirst.unique hother).2.1
      · rw [List.length_append] at hvisits
        refine Run.exists_outcome_bind
          (exists_outcome_elementWith hends number hfirst (by omega)) ?_
        intro planned between hplanned
        obtain ⟨_, hother, -⟩ := follows_elementWith hnested number element _ _ _ hplanned
        obtain ⟨-, -, rfl⟩ := hfirst.unique hother
        exact Run.exists_outcome_bind (ih _ hsecond (by omega)) fun _ _ _ => ⟨_, rfl⟩

/-- Past the query that is opened, a level goes on with the answer, lifted. -/
theorem outcome_of_opens {next : Query → Run Plan} {query answer : Query} {trace : Trace}
    {middle : List Call} (hopens : compiler.Opens query trace.calls (.ok answer) middle) :
    Run.outcome (compiler.opened query >>= fun answer =>
        answer.liftNext compiler.fresh >>= next) trace =
      (next (answer.lift compiler.fresh trace.drawn)).outcome
        ⟨trace.drawn + answer.embeddedCount, middle⟩ := by
  rw [Run.outcome_bind_of_ok (outcome_opened_of_opens hopens)]
  exact Run.outcome_bind_of_ok (Query.outcome_liftNext compiler.fresh answer _)

/-- A compilation ends within as many levels as its walk visits queries. -/
theorem endsAlong_planWithin (compiler : Compiler) (levels : Nat) (isTop : Bool) :
    compiler.EndsAlong (compiler.planWithin levels isTop) levels := by
  induction levels generalizing isTop with
  | zero =>
      intro query trace visited ending left h hvisits
      obtain rfl := List.length_eq_zero_iff.mp (Nat.le_zero.mp hvisits)
      cases h
  | succ levels ih =>
      intro query trace visited ending left h hvisits
      rw [planWithin_succ]
      cases h with
      | unopened hopens =>
          exact ⟨_, Run.outcome_bind_of_error (outcome_opened_of_opens hopens)⟩
      | @faultyClauses _ answer _ _ _ _ _ hopens hfaults =>
          have hbindings := compiler.reports_bindings_lift trace.drawn isTop answer
          rw [hfaults] at hbindings
          rw [outcome_of_opens hopens, planLifted_of_error _ _ hbindings]
          exact ⟨_, rfl⟩
      | @query _ answer _ _ middle _ visited _ hopens hfaults hrest =>
          have hbindings := compiler.reports_bindings_lift trace.drawn isTop answer
          rw [hfaults] at hbindings
          obtain ⟨bindings, hbindings⟩ := hbindings
          rw [List.append_nil] at hrest
          rw [outcome_of_opens hopens, planLifted_of_ok _ _ hbindings, Query.elements_lift]
          exact Run.exists_outcome_bind (exists_outcome_elements
            (compiler.follows_planWithin levels false) (ih false) trace.drawn hrest
            (Nat.le_of_succ_le_succ hvisits)) fun _ _ _ => ⟨_, rfl⟩

/-- A compilation ends within some number of levels just if there is a walk of its query. -/
theorem exists_outcome_iff_exists_walks (compiler : Compiler) (isTop : Bool) (query : Query)
    (trace : Trace) :
    (∃ levels ended, (compiler.planWithin levels isTop query).outcome trace = some ended) ↔
      ∃ visited ending left, compiler.Walks [.query query] trace.calls visited ending left := by
  constructor
  · rintro ⟨levels, ⟨result, left⟩, h⟩
    obtain ⟨visited, hwalk⟩ := exists_walks_of_outcome h
    exact ⟨visited, _, _, hwalk⟩
  · rintro ⟨visited, ending, left, h⟩
    exact ⟨_, compiler.endsAlong_planWithin _ isTop query trace visited ending left h
      (Nat.le_refl _)⟩

end Compiler

end SparqlGenerate
