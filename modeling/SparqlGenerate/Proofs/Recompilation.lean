import SparqlGenerate.Proofs.EnoughLevels
import SparqlGenerate.Proofs.LiftedVariables
import SparqlGenerate.Proofs.Replay

/-!
# Compiling the source of a plan

The source of a plan is the query at its root as it was compiled: read again where that was needed,
and lifted. To compile it means to go on from there, without asking the parser about it and without
lifting anything in it. The queries nested in it are still as they were, so they are read again and
lifted as before, but with other fresh variables.
-/

namespace SparqlGenerate

namespace Compiler

variable {compiler : Compiler}

/-! ## Queries without embedded expressions -/

/-- A query without embedded expressions of its own is planned at once. -/
theorem planWithin_of_plain {query : Query} (hplain : query.embeddings = []) (levels : Nat)
    (isTop : Bool) :
    compiler.planWithin (levels + 1) isTop query =
      compiler.planLifted (compiler.planWithin levels false) isTop query := by
  have hcount := Query.embeddedCount_eq_zero_iff.mpr hplain
  have hopened : compiler.opened query = pure query := if_pos hcount
  rw [planWithin_succ, hopened, pure_bind, Query.liftNext_of_plain compiler.fresh hplain, pure_bind]

/-- A tree without embedded expressions is compiled alike from all traces, and leaves them alone. -/
theorem moves_planWithin_of_plain (compiler : Compiler) (move : Trace → Trace) (levels : Nat)
    (isTop : Bool) {query : Query} (hplain : ∀ node ∈ query.nodes, node.embeddings = []) :
    (compiler.planWithin levels isTop query).Moves move
      (compiler.planWithin levels isTop query) := by
  induction levels generalizing isTop query with
  | zero => exact fun _ => rfl
  | succ levels ih =>
      rw [planWithin_of_plain (hplain query (Query.mem_nodes_iff.mpr (Or.inl rfl)))]
      refine moves_planLifted rfl (fun nested hnested => ih false fun node hnode => ?_) isTop
      exact hplain node (Query.mem_nodes_iff.mpr (Or.inr ⟨nested, hnested, hnode⟩))

theorem outcome_planWithin_of_plain {levels : Nat} {isTop : Bool} {query : Query} {trace : Trace}
    {result : Except CompileError Plan} {left : Trace}
    (h : (compiler.planWithin levels isTop query).outcome trace = some (result, left))
    (hplain : ∀ node ∈ query.nodes, node.embeddings = []) (other : Trace) :
    (compiler.planWithin levels isTop query).outcome other = some (result, other) := by
  have hmoved := compiler.moves_planWithin_of_plain (fun _ => other) levels isTop hplain trace
  rwa [h] at hmoved

end Compiler

/-! ## Roots -/

/-- The triples of an element that has no plan of its own. -/
def PlanElement.ownTriples? : PlanElement → Option (List TriplePattern)
  | .triples planned => some planned
  | .plan _ => none

/-- The call that a plan is, if it is one. -/
def Plan.call? (plan : Plan) : Option CallPlan :=
  match plan.output with
  | some (.call call) => some call
  | _ => none

/-- The plans are the same but for the plans that are nested in them. -/
structure Plan.SameRoot (plan other : Plan) : Prop where
  source : other.source = plan.source
  bindings : other.bindings = plan.bindings
  select : other.select = plan.select
  isTop : other.isTop = plan.isTop
  call : other.call? = plan.call?
  /-- Nested plans stand in the same places among the triples. -/
  triples : other.elements?.map (List.map PlanElement.ownTriples?) =
    plan.elements?.map (List.map PlanElement.ownTriples?)

namespace Compiler

variable {compiler : Compiler} {nested further : Query → Run Plan}

/-- The own triples of an element that is planned. -/
def ownTriplesOf : Element → Option (List TriplePattern)
  | .triples triples => (triples.mapM TemplateTriple.plan).toOption
  | .query _ => none

theorem ownTriples?_of_outcome_elementWith {element : Element} {planned : PlanElement}
    {trace left : Trace}
    (h : (elementWith nested element).outcome trace = some (.ok planned, left)) :
    planned.ownTriples? = ownTriplesOf element := by
  cases element with
  | triples triples =>
      obtain ⟨patterns, hpatterns, rfl, -⟩ := exists_of_outcome_triples h
      rw [ownTriplesOf, hpatterns]
      rfl
  | query query =>
      obtain ⟨plan, -, rfl⟩ := exists_of_outcome_query h
      rfl

/-- The own triples of a template do not depend on how nested queries are compiled. -/
theorem map_ownTriples?_of_outcome_mapM {elements : List Element} {planned : List PlanElement}
    {trace left : Trace}
    (h : (elements.mapM (elementWith nested)).outcome trace = some (.ok planned, left)) :
    planned.map PlanElement.ownTriples? = elements.map ownTriplesOf := by
  have hsame : List.Forall₂ (· = ·) (elements.map ownTriplesOf)
      (planned.map PlanElement.ownTriples?) := by
    rw [List.forall₂_map_left_iff, List.forall₂_map_right_iff]
    exact (Run.forall₂_of_outcome_mapM h).imp fun element part ⟨before, after, hpart⟩ =>
      (ownTriples?_of_outcome_elementWith hpart).symm
  rw [List.forall₂_eq_eq_eq] at hsame
  exact hsame.symm

/-- Two plans of the same lifted query differ in the plans of nested queries only. -/
theorem sameRoot_of_outcome_planLifted {isTop : Bool} {source : Query} {plan other : Plan}
    {trace left beside last : Trace}
    (h : (compiler.planLifted nested isTop source).outcome trace = some (.ok plan, left))
    (hother : (compiler.planLifted further isTop source).outcome beside = some (.ok other, last)) :
    plan.SameRoot other := by
  obtain ⟨bindings, planned, hbindings, hplanned, rfl⟩ := exists_of_outcome_planLifted h
  obtain ⟨others, replanned, hothers, hreplanned, rfl⟩ :=
    exists_of_outcome_planLifted hother
  have htriples : replanned.map PlanElement.ownTriples? = planned.map PlanElement.ownTriples? :=
    (map_ownTriples?_of_outcome_mapM hreplanned).trans
      (map_ownTriples?_of_outcome_mapM hplanned).symm
  refine ⟨rfl, Except.ok.inj (hothers.symm.trans hbindings), rfl, rfl, ?_, ?_⟩
  · unfold Plan.call? outputOf
    cases source.form <;> rfl
  · unfold Plan.elements? outputOf
    cases source.form with
    | generate elements => exact congrArg some htriples
    | select | template | call => rfl

theorem sameRoot_of_outcome_planWithin {levels : Nat} {isTop : Bool} {source : Query}
    (hplain : source.embeddings = []) {plan other : Plan} {trace left beside last : Trace}
    (h : (compiler.planWithin levels isTop source).outcome trace = some (.ok plan, left))
    (hother : (compiler.planWithin levels isTop source).outcome beside = some (.ok other, last)) :
    plan.SameRoot other := by
  cases levels with
  | zero => cases h
  | succ levels =>
      rw [planWithin_of_plain hplain] at h hother
      exact sameRoot_of_outcome_planLifted h hother

/-! ## Sources -/

/-- A compilation that has a plan goes on, once it has lifted what is compiled in place of the
query, as the compilation of the plan's source does. -/
theorem exists_source_of_outcome {levels : Nat} {isTop : Bool} {query : Query} {plan : Plan}
    {trace left : Trace}
    (h : (compiler.planWithin levels isTop query).outcome trace = some (.ok plan, left)) :
    ∃ answer middle, compiler.Opens query trace.calls (.ok answer) middle.calls ∧
      middle.drawn = trace.drawn + answer.embeddedCount ∧
      plan.source = answer.lift compiler.fresh trace.drawn ∧
      (compiler.planWithin levels isTop plan.source).outcome middle = some (.ok plan, left) := by
  cases levels with
  | zero => cases h
  | succ levels =>
      rw [planWithin_succ] at h
      obtain ⟨answer, first, hopened, h⟩ := Run.exists_of_outcome_bind h
      obtain ⟨hopens, hdrawn⟩ := opens_of_outcome_opened hopened
      replace h := (Run.outcome_bind_of_ok
        (Query.outcome_liftNext compiler.fresh answer first)).symm.trans h
      obtain ⟨bindings, planned, -, -, hplan⟩ := exists_of_outcome_planLifted h
      have hsource : plan.source = answer.lift compiler.fresh first.drawn := by rw [hplan]
      refine ⟨answer, ⟨first.drawn + answer.embeddedCount, first.calls⟩, hopens,
        congrArg (· + answer.embeddedCount) hdrawn, hdrawn ▸ hsource, ?_⟩
      rw [hsource, planWithin_of_plain (Query.embeddings_lift _ _ answer)]
      exact h

/-- What is drawn after a query was lifted occurs in it no more than in the query before. -/
theorem lacks_of_mem_vars_lift {fresh : Supply} (hfresh : Function.Injective fresh) {number : Nat}
    {answer : Query} (hanswer : ∀ v ∈ answer.vars, (fresh.drop number).Lacks v) :
    ∀ v ∈ (answer.lift fresh number).vars,
      (fresh.drop (number + answer.embeddedCount)).Lacks v := by
  refine Query.forall_vars_lift (fun v hv => (hanswer v hv).of_le (Nat.le_add_right _ _)) ?_
  intro other hle hlt later hsame
  have hnumber := hfresh hsame
  rw [← Query.embeddedCount] at hlt
  omega

/-- Where a query has a plan, from another trace it has that plan with other fresh variables. -/
theorem eq_rename_of_outcome (hmemoryless : compiler.Memoryless)
    (hfresh : Function.Injective compiler.fresh) {levels : Nat} {isTop : Bool} {query : Query}
    {plan other : Plan} {trace left again last : Trace}
    (h : (compiler.planWithin levels isTop query).outcome trace = some (.ok plan, left))
    (hother : (compiler.planWithin levels isTop query).outcome again = some (.ok other, last))
    (hquery : ∀ v ∈ query.vars, (compiler.fresh.drop trace.drawn).Lacks v)
    (hreplies : compiler.AllReplyVars (compiler.fresh.drop trace.drawn).Lacks trace.calls
      left.calls) : other = plan.rename (compiler.replayed trace again) := by
  obtain ⟨count, made, -, hreplays⟩ := exists_replays hmemoryless hfresh h
  obtain ⟨same, hsame, hrename⟩ := hreplays again
  obtain ⟨rfl, -⟩ : other = same ∧ _ := by simpa using hother.symm.trans hsame
  exact hrename hquery hreplies

/-! ## Sources of plans -/

/-- A compilation reaches the middle trace once the root is open. Then the queries nested in it draw
so many variables and make these calls. -/
structure OpensRoot (compiler : Compiler) (query : Query) (trace middle left : Trace)
    (count : Nat) (made : List Call) : Prop where
  calls : middle.calls = trace.calls ++ ([query].filter compiler.asks).map compiler.rereadCall
  drawn : trace.drawn ≤ middle.drawn
  left_eq : left = ⟨middle.drawn + count, middle.calls ++ made⟩

/-- The plans are the same but for the variables, which are drawn from the one trace on for the
first and from the other on for the second. -/
structure SameAfter (compiler : Compiler) (middle again : Trace) (plan other : Plan) : Prop where
  drawn : ∀ number, compiler.replayed middle again (compiler.fresh (middle.drawn + number)) =
    compiler.fresh (again.drawn + number)
  other_eq : other = plan.rename (compiler.replayed middle again)
  plan_eq : plan = other.rename (compiler.replayed again middle)

/-- What a plan that is made later, from another trace, has in common with the first one. -/
structure Restores (compiler : Compiler) (query : Query) (trace middle left again : Trace)
    (plan other : Plan) : Prop where
  root : plan.SameRoot other
  renamed : (∀ v ∈ query.vars, (compiler.fresh.drop trace.drawn).Lacks v) →
    compiler.AllReplyVars (compiler.fresh.drop trace.drawn).Lacks trace.calls left.calls →
      left.drawn ≤ again.drawn → compiler.SameAfter middle again plan other
  plain : (∀ node ∈ plan.source.elements.flatMap Element.nodes, node.embeddings = []) →
    other = plan

/-- The source of the plan can be compiled again, from any trace and with as many levels or more.
The root is not read again, and the queries nested in it draw as much and make the same calls. -/
structure Recompiles (compiler : Compiler) (run : Compiler → Query → Run Plan) (query : Query)
    (plan : Plan) (trace middle left : Trace) (count : Nat) (made : List Call) : Prop where
  first : compiler.OpensRoot query trace middle left count made
  again : ∀ again further, compiler.levelsFor query ≤ further →
    ∃ other, (run (compiler.allowing further) plan.source).outcome again =
      some (.ok other, ⟨again.drawn + count, again.calls ++ made⟩) ∧
        compiler.Restores query trace middle left again plan other
  plain : (∀ node ∈ plan.source.elements.flatMap Element.nodes, node.embeddings = []) →
    count = 0 ∧ made = []

/-- A source is compiled to the same plan from two traces, if the variables of the first are fresh
and the second draws later ones. -/
theorem sameAfter_of_outcome (hmemoryless : compiler.Memoryless)
    (hfresh : Function.Injective compiler.fresh) {levels : Nat} {isTop : Bool} {source : Query}
    {plan other : Plan} {middle again : Trace} {count : Nat} {made : List Call}
    (hplan : (compiler.planWithin levels isTop source).outcome middle =
      some (.ok plan, ⟨middle.drawn + count, middle.calls ++ made⟩))
    (hother : (compiler.planWithin levels isTop source).outcome again =
      some (.ok other, ⟨again.drawn + count, again.calls ++ made⟩))
    (hsource : ∀ v ∈ source.vars, (compiler.fresh.drop middle.drawn).Lacks v)
    (hreplies : compiler.AllReplyVars (compiler.fresh.drop middle.drawn).Lacks middle.calls
      (middle.calls ++ made)) (hle : middle.drawn ≤ again.drawn) :
    compiler.SameAfter middle again plan other where
  drawn := replayed_apply hfresh middle again
  other_eq := eq_rename_of_outcome hmemoryless hfresh hplan hother hsource hreplies
  plan_eq := by
    apply eq_rename_of_outcome hmemoryless hfresh hother hplan
    · exact fun v hv => (hsource v hv).of_le hle
    · exact (hreplies.imp fun v hv => hv.of_le hle).replay hmemoryless again.calls

/-- The source of a plan is compiled to the same plan again, from whatever trace. Its root is not
read again, and the same calls are made about the queries nested in it. The plan differs in the
variables drawn for these queries only, and not at all if none of them has an embedded
expression. -/
theorem recompilation_is_stable (hmemoryless : compiler.Memoryless)
    (hfresh : Function.Injective compiler.fresh) {run : Compiler → Query → Run Plan}
    (hrun : run ∈ [Compiler.compile, Compiler.compileNested]) {query : Query}
    {trace left : Trace} {plan : Plan}
    (h : (run compiler query).outcome trace = some (.ok plan, left)) :
    ∃ middle count made, compiler.Recompiles run query plan trace middle left count made := by
  obtain ⟨isTop, hplanWithin⟩ : ∃ isTop, ∀ compiler query,
      run compiler query = planWithin compiler (levelsFor compiler query) isTop query := by
    rcases List.mem_pair.mp hrun with rfl | rfl
    · exact ⟨true, fun _ _ => rfl⟩
    · exact ⟨false, fun _ _ => rfl⟩
  rw [hplanWithin] at h
  obtain ⟨answer, middle, hopens, hdrawn, hsource, hplan⟩ := exists_source_of_outcome h
  have hplain : plan.source.embeddings = [] := by rw [hsource, Query.embeddings_lift]
  have hle : trace.drawn ≤ middle.drawn := hdrawn ▸ Nat.le_add_right _ _
  obtain ⟨count, made, rfl, hreplays⟩ := exists_replays hmemoryless hfresh hplan
  -- Where nothing nested is embedded, a further run has the plan and leaves its trace as it was.
  have hnothing : (∀ node ∈ plan.source.elements.flatMap Element.nodes, node.embeddings = []) →
      ∀ again, (compiler.planWithin (compiler.levelsFor query) isTop plan.source).outcome again =
        some (.ok plan, again) := by
    intro hnone
    refine outcome_planWithin_of_plain hplan ?_
    rw [Query.nodes_eq]
    exact List.forall_mem_cons.mpr ⟨hplain, hnone⟩
  refine ⟨middle, count, made, ⟨hopens.calls_eq, hle, rfl⟩, ?_, ?_⟩
  · intro again further hfurther
    obtain ⟨other, hother, -⟩ := hreplays again
    refine ⟨other, ?_, sameRoot_of_outcome_planWithin hplain hplan hother, ?_, ?_⟩
    · rw [hplanWithin]
      exact outcome_planWithin_allowing hother hfurther
    · intro hquery hreplies hlater
      have hmade : trace.calls <+: middle.calls := hopens.calls_eq ▸ List.prefix_append _ _
      have hanswer := hopens.forall_vars hquery
        (hreplies.narrow (List.prefix_refl _) (List.prefix_append middle.calls made))
      have hlacks : ∀ v ∈ plan.source.vars, (compiler.fresh.drop middle.drawn).Lacks v := by
        rw [hsource, hdrawn]
        exact lacks_of_mem_vars_lift hfresh hanswer
      have hnested : compiler.AllReplyVars (compiler.fresh.drop middle.drawn).Lacks middle.calls
          (middle.calls ++ made) :=
        (hreplies.narrow hmade (List.prefix_refl _)).imp fun v hv => hv.of_le hle
      exact sameAfter_of_outcome hmemoryless hfresh hplan hother hlacks hnested
        (Nat.le_of_add_right_le hlater)
    · intro hnone
      obtain ⟨hplans, -⟩ := Prod.mk.inj (Option.some.inj (hother.symm.trans (hnothing hnone again)))
      exact Except.ok.inj hplans
  · intro hnone
    obtain ⟨-, hleft⟩ := Prod.mk.inj (Option.some.inj (hplan.symm.trans (hnothing hnone middle)))
    have hcount := congrArg Trace.drawn hleft
    have hmade := congrArg Trace.calls hleft
    exact ⟨by simpa using hcount, by simpa using hmade⟩

/-- The compiler whose parser reads all whole queries alike, and all parts of queries too. -/
def steadyCompiler : Compiler where
  parser := some
    { answer := fun _ call =>
        match call with
        | .query .. => .ok (.generate [.triples [⟨.term (.var ⟨"s"⟩), .embedded (.var ⟨"p"⟩),
            .term (.var ⟨"o"⟩)⟩], .query askedPart])
        | .subQuery .. => .ok askedPart
      levels := 1 }
  fresh := .tally "fresh"

/-- Compiled again, the part is asked about again, and gets the next variable. -/
theorem recompilation_renames_part : ∃ plan left other last f,
    (steadyCompiler.compile askedWhole).outcome {} = some (.ok plan, left) ∧
    left.calls = [.query askedWhole.text none, .subQuery askedPart.text askedPart] ∧
    ((steadyCompiler.allowing 2).compile plan.source).outcome left = some (.ok other, last) ∧
    last.calls = left.calls ++ [.subQuery askedPart.text askedPart] ∧
    plan.SameRoot other ∧ other = plan.rename f ∧
    f (steadyCompiler.fresh 1) = steadyCompiler.fresh 2 := by
  obtain ⟨plan, left, other, last, hrun, hleft, hcalls, hrerun, hdrawn⟩ : ∃ plan left other last,
      (steadyCompiler.compile askedWhole).outcome {} = some (.ok plan, left) ∧ left.drawn = 2 ∧
      left.calls = [.query askedWhole.text none, .subQuery askedPart.text askedPart] ∧
      ((steadyCompiler.allowing 2).compile plan.source).outcome left = some (.ok other, last) ∧
      last.drawn = 3 :=
    ⟨_, _, _, _, rfl, rfl, rfl, rfl, rfl⟩
  have hmemoryless : steadyCompiler.Memoryless := by
    rintro parser log other call hparser
    cases hparser
    rfl
  -- The names that occur are single letters.
  have hlacks : ∀ v : Var, v.name.length < 5 → (steadyCompiler.fresh.drop 0).Lacks v :=
    fun v hv number => Supply.tally_lacks hv (0 + number)
  have hasked : ∀ v ∈ askedWhole.vars, v.name.length < 5 := by decide
  have hreplies : ∀ start finish,
      steadyCompiler.AllReplyVars (fun v => v.name.length < 5) start finish := by
    rintro start finish call reply ⟨parser, earlier, hparser, -, hanswer⟩
    cases hparser
    cases call with
    | query | subQuery =>
        cases hanswer
        decide
  obtain ⟨middle, count, made, ⟨hmiddle, -, rfl⟩, hagain, -⟩ :=
    recompilation_is_stable hmemoryless (Supply.tally_injective "fresh") List.mem_cons_self hrun
  obtain ⟨same, hsame, hrestores⟩ := hagain _ 2 (by decide)
  have hrenamed := hrestores.renamed (fun v hv => hlacks v (hasked v hv))
    ((hreplies _ _).imp hlacks) (Nat.le_refl _)
  cases hrerun.symm.trans hsame
  have hmade : made = [.subQuery askedPart.text askedPart] := by
    have hfirst : middle.calls = [.query askedWhole.text none] := hmiddle
    simpa [hfirst] using hcalls
  simp only at hleft hdrawn
  have hfirst : 1 = middle.drawn + 0 := by omega
  have hsecond : 2 = middle.drawn + count + 0 := by omega
  refine ⟨plan, _, other, _, _, hrun, hcalls, hrerun, by rw [hmade], hrestores.root,
    hrenamed.other_eq, ?_⟩
  rw [hfirst, hsecond]
  exact hrenamed.drawn 0

end Compiler

end SparqlGenerate
