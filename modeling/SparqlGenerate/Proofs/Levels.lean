import SparqlGenerate.Proofs.Normalization
import SparqlGenerate.Proofs.QueryTree

/-!
# One level of a compilation

On each level a query is opened, lifted, and planned: its clauses are checked, and the elements of
its template are planned in order. All forms of queries go through the same three steps, since a
query without a template has no elements. What is proved about compilations is proved of these
steps and then, level by level, of whole trees.

A compilation that ends within some number of levels ends in the same way within more of them, so
the number of levels decides only whether it is abandoned.
-/

namespace SparqlGenerate

namespace Compiler

/-! ## The steps of a level -/

/-- The query that is compiled in place of the query, before it is lifted: the query itself if it
has nothing embedded, and otherwise what it is read again as, if a round is allowed. -/
def opened (compiler : Compiler) (query : Query) : Run Query :=
  if query.embeddedCount = 0 then pure query
  else if compiler.maxRounds = 0 then
    throw (.fault (.roundsExhausted query.embeddedCount compiler.maxRounds))
  else compiler.reread query

/-- The output of a query whose elements are planned. -/
def outputOf (compiler : Compiler) (query : Query) (planned : List PlanElement) : Option Output :=
  match query.form with
  | .select | .template => none
  | .call name parameters => some (.call ⟨compiler.baseOf query, name, parameters⟩)
  | .generate _ => some (.template planned)

/-- The plan of a query that is lifted, given how to compile a nested query. -/
def planLifted (compiler : Compiler) (nested : Query → Run Plan) (isTop : Bool) (source : Query) :
    Run Plan := do
  let bindings ← Run.ofExcept (source.bindings isTop)
  let planned ← source.elements.mapM (elementWith nested)
  return ⟨source, bindings, source.selectPlan, compiler.outputOf source planned, isTop⟩

theorem normalize_eq_opened (compiler : Compiler) (query : Query) :
    compiler.normalize query = compiler.opened query >>= Query.liftNext compiler.fresh := by
  rw [normalize_eq, opened]
  by_cases hcount : query.embeddedCount = 0
  · rw [if_pos hcount, if_pos hcount, pure_bind,
      Query.liftNext_of_plain _ (Query.embeddedCount_eq_zero_iff.mp hcount)]
  · by_cases hrounds : compiler.maxRounds = 0
    · rw [if_neg hcount, if_pos hrounds, if_neg hcount, if_pos hrounds]
      rfl
    · rw [if_neg hcount, if_neg hrounds, if_neg hcount, if_neg hrounds]

/-- The elements are planned in the same way whatever the form, which may have none. -/
theorem outputWith_eq (compiler : Compiler) (nested : Query → Run Plan) (query : Query) :
    compiler.outputWith nested query =
      query.elements.mapM (elementWith nested) >>=
        fun planned => pure (compiler.outputOf query planned) := by
  cases hform : query.form with
  | generate elements =>
      simp [outputWith, outputOf, templateWith, hform]
  | select => simp [outputWith, outputOf, Query.elements, Query.elements?, hform]
  | template => simp [outputWith, outputOf, Query.elements, Query.elements?, hform]
  | call callee parameters =>
      simp [outputWith, outputOf, callPlan, Query.elements, Query.elements?, hform]

theorem planWith_eq (compiler : Compiler) (nested : Query → Run Plan) (isTop : Bool)
    (query : Query) :
    compiler.planWith nested isTop query =
      compiler.opened query >>= fun answer =>
        answer.liftNext compiler.fresh >>= compiler.planLifted nested isTop := by
  have hlifted : compiler.planWith nested isTop query =
      compiler.normalize query >>= compiler.planLifted nested isTop := by
    simp only [planWith, outputWith_eq, bind_assoc, pure_bind]
    rfl
  rw [hlifted, normalize_eq_opened, bind_assoc]

/-- A level goes through the three steps, and compiles the nested queries on the level below. -/
theorem planWithin_succ (compiler : Compiler) (levels : Nat) (isTop : Bool) (query : Query) :
    compiler.planWithin (levels + 1) isTop query =
      compiler.opened query >>= fun answer =>
        answer.liftNext compiler.fresh >>=
          compiler.planLifted (compiler.planWithin levels false) isTop :=
  compiler.planWith_eq (compiler.planWithin levels false) isTop query

/-- A lifted query whose clauses are faulty has no plan. -/
theorem planLifted_of_error (compiler : Compiler) (nested : Query → Run Plan) {isTop : Bool}
    {source : Query} {error : CompileError} (h : source.bindings isTop = .error error) :
    compiler.planLifted nested isTop source = throw error := by
  rw [planLifted, h]
  rfl

/-- The plan of a lifted query whose clauses are planned is made once its elements are planned. -/
theorem planLifted_of_ok (compiler : Compiler) (nested : Query → Run Plan) {isTop : Bool}
    {source : Query} {bindings : List Binding} (h : source.bindings isTop = .ok bindings) :
    compiler.planLifted nested isTop source =
      source.elements.mapM (elementWith nested) >>= fun planned =>
        pure ⟨source, bindings, source.selectPlan, compiler.outputOf source planned, isTop⟩ := by
  rw [planLifted, h]
  rfl

/-- A lifted query that has a plan has passed all checks, and the plan is made of their results. -/
theorem exists_of_outcome_planLifted {compiler : Compiler} {nested : Query → Run Plan}
    {isTop : Bool} {source : Query} {plan : Plan} {trace left : Trace}
    (h : (compiler.planLifted nested isTop source).outcome trace = some (.ok plan, left)) :
    ∃ bindings planned, source.bindings isTop = .ok bindings ∧
      (source.elements.mapM (elementWith nested)).outcome trace = some (.ok planned, left) ∧
      plan = ⟨source, bindings, source.selectPlan, compiler.outputOf source planned, isTop⟩ := by
  obtain ⟨bindings, first, hchecked, hrest⟩ := Run.exists_of_outcome_bind h
  obtain ⟨planned, middle, hplanned, hreturned⟩ := Run.exists_of_outcome_bind hrest
  obtain ⟨hbindings, rfl⟩ : source.bindings isTop = .ok bindings ∧ trace = first := by
    simpa using hchecked
  obtain ⟨rfl, rfl⟩ : _ = plan ∧ middle = left := by simpa using hreturned
  exact ⟨bindings, planned, hbindings, hplanned, rfl⟩

/-- Triples that are planned have passed their checks, and asked for nothing. -/
theorem exists_of_outcome_triples {nested : Query → Run Plan} {triples : List TemplateTriple}
    {planned : PlanElement} {trace left : Trace}
    (h : (elementWith nested (.triples triples)).outcome trace = some (.ok planned, left)) :
    ∃ patterns, triples.mapM TemplateTriple.plan = .ok patterns ∧
      planned = .triples patterns ∧ left = trace := by
  obtain ⟨patterns, middle, hchecked, hreturned⟩ := Run.exists_of_outcome_bind h
  obtain ⟨hpatterns, rfl⟩ : triples.mapM TemplateTriple.plan = .ok patterns ∧ trace = middle := by
    simpa using hchecked
  obtain ⟨rfl, rfl⟩ : _ = planned ∧ trace = left := by simpa using hreturned
  exact ⟨patterns, hpatterns, rfl, rfl⟩

/-- A nested query is planned just by compiling it. -/
theorem exists_of_outcome_query {nested : Query → Run Plan} {query : Query}
    {planned : PlanElement} {trace left : Trace}
    (h : (elementWith nested (.query query)).outcome trace = some (.ok planned, left)) :
    ∃ plan, (nested query).outcome trace = some (.ok plan, left) ∧ planned = .plan plan := by
  obtain ⟨plan, middle, hplan, hreturned⟩ := Run.exists_of_outcome_bind h
  obtain ⟨rfl, rfl⟩ : _ = planned ∧ middle = left := by simpa using hreturned
  exact ⟨plan, hplan, rfl⟩

/-! ## Texts -/

theorem compileText_of_none {compiler : Compiler} (hparser : compiler.parser = none)
    (text : String) : compiler.compileText text = throw (.fault .noParser) := by
  unfold compileText
  rw [hparser]

theorem compileText_of_some {compiler : Compiler} {parser : Parser}
    (hparser : compiler.parser = some parser) (text : String) :
    compiler.compileText text =
      parser.ask (.query text compiler.base) >>= fun query => compiler.compile query := by
  unfold compileText
  rw [hparser]

end Compiler

/-! ## Further levels -/

namespace Run

variable {α β : Type}

/-- Wherever the first run ends, the second one ends in the same way. -/
def EndsAs (first second : Run α) : Prop :=
  ∀ trace ended, first.outcome trace = some ended → second.outcome trace = some ended

theorem EndsAs.refl (run : Run α) : run.EndsAs run :=
  fun _ _ h => h

theorem EndsAs.bind {first second : Run α} {next further : α → Run β} (hrun : first.EndsAs second)
    (hnext : ∀ a, (next a).EndsAs (further a)) :
    Run.EndsAs (first >>= next) (second >>= further) := by
  intro trace ended h
  rw [outcome_bind, Option.bind_eq_some_iff] at h
  obtain ⟨⟨result, middle⟩, hfirst, h⟩ := h
  rw [outcome_bind, hrun trace _ hfirst]
  cases result with
  | error error => exact h
  | ok a => exact hnext a middle ended h

theorem endsAs_mapM {first second : α → Run β} (h : ∀ a, (first a).EndsAs (second a))
    (members : List α) : Run.EndsAs (members.mapM first) (members.mapM second) := by
  induction members with
  | nil => exact .refl _
  | cons a rest ih =>
      rw [List.mapM_cons, List.mapM_cons]
      exact (h a).bind fun b => ih.bind fun bs => .refl _

end Run

namespace Compiler

theorem endsAs_elementWith {first second : Query → Run Plan}
    (h : ∀ query, (first query).EndsAs (second query)) (element : Element) :
    (elementWith first element).EndsAs (elementWith second element) := by
  cases element with
  | triples triples => exact .refl _
  | query query => exact (h query).bind fun plan => .refl _

/-- A compilation that ends is not changed by further levels. -/
theorem endsAs_planWithin (compiler : Compiler) {levels further : Nat} (hle : levels ≤ further)
    (isTop : Bool) (query : Query) :
    (compiler.planWithin levels isTop query).EndsAs
      (compiler.planWithin further isTop query) := by
  induction levels generalizing further isTop query with
  | zero =>
      intro trace ended h
      cases h
  | succ levels ih =>
      obtain ⟨further, rfl⟩ : ∃ below, further = below + 1 := ⟨further - 1, by omega⟩
      rw [planWithin_succ, planWithin_succ]
      refine (Run.EndsAs.refl _).bind fun answer => (Run.EndsAs.refl _).bind fun source => ?_
      refine (Run.EndsAs.refl _).bind fun bindings => ?_
      refine (Run.endsAs_mapM ?_ source.elements).bind fun planned => .refl _
      exact endsAs_elementWith fun nested => ih (by omega) false nested

end Compiler

end SparqlGenerate
