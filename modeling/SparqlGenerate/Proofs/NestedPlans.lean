import SparqlGenerate.Proofs.DrawnVariables
import SparqlGenerate.Proofs.EntryPoints
import SparqlGenerate.Proofs.Recompilation

/-!
# Nested queries are compiled as on their own

Without a parser, a query leaves nothing for the queries nested in it but the number of variables
that were drawn before them. So the plan of a nested query, wherever it stands in a tree, is the one
that it has on its own, up to the fresh variables. The query it is nested in, its siblings, and
whether the whole is run on its own or is a part of something else make no difference.
-/

namespace SparqlGenerate

/-! ## Positions -/

/-- The query that the element is, if it is one. -/
def Element.nested? : Element → Option Query
  | .triples _ => none
  | .query nested => some nested

/-- The plan of a nested query that the element is, if it is one. -/
def PlanElement.nested? : PlanElement → Option Plan
  | .triples _ => none
  | .plan nested => some nested

/-- The query that is the element of that number in the template. -/
def Query.child? (query : Query) (number : Nat) : Option Query :=
  query.elements[number]?.bind Element.nested?

def Plan.child? (plan : Plan) (number : Nat) : Option Plan :=
  (plan.elements?.getD [])[number]?.bind PlanElement.nested?

/-- The query at a position of the tree: the numbers of the elements on the way from the root. -/
def Query.at? (query : Query) : List Nat → Option Query
  | [] => some query
  | number :: path => (query.child? number).bind fun child => child.at? path

/-- The plan at a position of the tree. -/
def Plan.at? (plan : Plan) : List Nat → Option Plan
  | [] => some plan
  | number :: path => (plan.child? number).bind fun child => child.at? path

/-- Lifting leaves each nested query where it is. -/
theorem Element.nested?_getElem?_liftAll (fresh : Supply) (first : Nat) (elements : List Element)
    (number : Nat) :
    (liftAll fresh first elements)[number]?.bind nested? = elements[number]?.bind nested? := by
  induction elements generalizing first number with
  | nil => rfl
  | cons element rest ih =>
      cases number with
      | zero => cases element <;> rfl
      | succ number => exact ih _ number

theorem Query.child?_lift (fresh : Supply) (first : Nat) (query : Query) (number : Nat) :
    (query.lift fresh first).child? number = query.child? number := by
  rw [child?, elements_lift, Element.nested?_getElem?_liftAll, child?]

/-! ## Plans up to fresh variables -/

/-- Each of the plans is the other one with fresh variables renamed. -/
def Plan.SameUpTo (fresh : Supply) (plan other : Plan) : Prop :=
  ∃ f g : Var → Var, (∀ v, fresh.Lacks v → f v = v ∧ g v = v) ∧
    other = plan.rename f ∧ plan = other.rename g

namespace Compiler

variable {compiler : Compiler}

theorem memoryless_of_none (hparser : compiler.parser = none) : compiler.Memoryless := by
  intro parser log other call hsome
  rw [hparser] at hsome
  cases hsome

theorem allReplyVars_of_none (hparser : compiler.parser = none) (P : Var → Prop)
    (start finish : List Call) : compiler.AllReplyVars P start finish := by
  rintro call reply ⟨parser, earlier, hsome, -, -⟩
  rw [hparser] at hsome
  cases hsome

theorem sameUpTo_of_outcome (hparser : compiler.parser = none)
    (hfresh : Function.Injective compiler.fresh) {levels : Nat} {isTop : Bool} {query : Query}
    (hquery : ∀ v ∈ query.vars, compiler.fresh.Lacks v) {plan again : Plan}
    {trace left other last : Trace}
    (h : (compiler.planWithin levels isTop query).outcome trace = some (.ok plan, left))
    (hagain : (compiler.planWithin levels isTop query).outcome other = some (.ok again, last)) :
    plan.SameUpTo compiler.fresh again := by
  have hlater : ∀ (v : Var) (start : Nat), compiler.fresh.Lacks v →
      (compiler.fresh.drop start).Lacks v :=
    fun v start hv number => hv (start + number)
  have hmemoryless := memoryless_of_none hparser
  have hreplies := fun P => allReplyVars_of_none hparser P
  refine ⟨compiler.replayed trace other, compiler.replayed other trace, ?_, ?_, ?_⟩
  · intro v hv
    constructor
    · exact Supply.mapTo_of_lacks (hlater v trace.drawn hv) _
    · exact Supply.mapTo_of_lacks (hlater v other.drawn hv) _
  · exact eq_rename_of_outcome hmemoryless hfresh h hagain
      (fun v hv => hlater v trace.drawn (hquery v hv)) (hreplies _ _ _)
  · exact eq_rename_of_outcome hmemoryless hfresh hagain h
      (fun v hv => hlater v other.drawn (hquery v hv)) (hreplies _ _ _)

/-! ## From parents to nested queries -/

/-- The plan is one that the query has on its own, as part of another one. -/
def PlannedAlone (compiler : Compiler) (query : Query) (plan : Plan) : Prop :=
  ∃ trace left, (compiler.compileNested query).outcome trace = some (.ok plan, left)

/-- What a query is compiled to on some level, it is compiled to on its own. -/
theorem plannedAlone_of_outcome_planWithin (hparser : compiler.parser = none) {levels : Nat}
    {query : Query} {plan : Plan} {trace left : Trace}
    (h : (compiler.planWithin levels false query).outcome trace = some (.ok plan, left)) :
    compiler.PlannedAlone query plan := by
  have halone := outcome_planWithin_allowing h (Nat.le_refl levels)
  rw [allowing_of_none hparser] at halone
  exact ⟨trace, left, halone⟩

/-- The plan of an element is that of a nested query if the element is one. -/
theorem rel_nested?_of_outcome_elementWith {nested : Query → Run Plan} {R : Query → Plan → Prop}
    (hnested : ∀ query plan trace left, (nested query).outcome trace = some (.ok plan, left) →
      R query plan) {element : Element} {planned : PlanElement} {trace left : Trace}
    (h : (elementWith nested element).outcome trace = some (.ok planned, left)) :
    Option.Rel R element.nested? planned.nested? := by
  cases element with
  | triples triples =>
      obtain ⟨patterns, -, rfl, -⟩ := exists_of_outcome_triples h
      exact .none
  | query query =>
      obtain ⟨plan, hplan, rfl⟩ := exists_of_outcome_query h
      exact .some (hnested query plan trace left hplan)

/-- The children of a plan are plans of the children of the query, with the same numbers. -/
theorem rel_child?_of_outcome_planWithin (hparser : compiler.parser = none) {levels : Nat}
    {isTop : Bool} {query : Query} {plan : Plan} {trace left : Trace}
    (h : (compiler.planWithin levels isTop query).outcome trace = some (.ok plan, left))
    (number : Nat) :
    Option.Rel compiler.PlannedAlone (query.child? number) (plan.child? number) := by
  cases levels with
  | zero => cases h
  | succ levels =>
      obtain ⟨hsource, hplanned⟩ := eq_and_outcome_elements_of_outcome_planWithin hparser h
      have hmembers := (Run.forall₂_of_outcome_mapM hplanned).rel_getElem? number
      rw [← Query.child?_lift compiler.fresh trace.drawn, ← hsource, Query.child?, Plan.child?]
      apply hmembers.bind
      rintro element part ⟨before, after, hpart⟩
      apply rel_nested?_of_outcome_elementWith _ hpart
      intro nested sub trace left
      exact plannedAlone_of_outcome_planWithin hparser

/-- So are the plans further below. -/
theorem PlannedAlone.rel_at? (hparser : compiler.parser = none) {query : Query} {plan : Plan}
    (h : compiler.PlannedAlone query plan) (path : List Nat) :
    Option.Rel compiler.PlannedAlone (query.at? path) (plan.at? path) := by
  induction path generalizing query plan with
  | nil => exact .some h
  | cons number path ih =>
      obtain ⟨trace, left, hplan⟩ := h
      apply (rel_child?_of_outcome_planWithin hparser hplan number).bind
      intro child planned hchild
      exact ih hchild

/-- The plans below the root are those of the queries at the same positions, by whichever entry
point the root is compiled. -/
theorem rel_at?_of_outcome_planWithin (hparser : compiler.parser = none) {levels : Nat}
    {isTop : Bool} {query : Query} {plan : Plan} {trace left : Trace}
    (h : (compiler.planWithin levels isTop query).outcome trace = some (.ok plan, left))
    {path : List Nat} (hpath : path ≠ []) :
    Option.Rel compiler.PlannedAlone (query.at? path) (plan.at? path) := by
  cases path with
  | nil => exact absurd rfl hpath
  | cons number path =>
      apply (rel_child?_of_outcome_planWithin hparser h number).bind
      intro child planned hchild
      exact hchild.rel_at? hparser path

/-! ## Contexts -/

/-- The plan is one that the query has by either entry point. -/
def CompilesTo (compiler : Compiler) (query : Query) (plan : Plan) : Prop :=
  ∃ run ∈ [Compiler.compile, Compiler.compileNested], ∃ trace left,
    (run compiler query).outcome trace = some (.ok plan, left)

theorem CompilesTo.rel_at? (hparser : compiler.parser = none) {query : Query} {plan : Plan}
    (h : compiler.CompilesTo query plan) {path : List Nat} (hpath : path ≠ []) :
    Option.Rel compiler.PlannedAlone (query.at? path) (plan.at? path) := by
  obtain ⟨run, hrun, trace, left, hplan⟩ := h
  rcases List.mem_pair.mp hrun with rfl | rfl
  · exact rel_at?_of_outcome_planWithin hparser hplan hpath
  · exact rel_at?_of_outcome_planWithin hparser hplan hpath

/-- The plan is the one that the query has alone, from any trace, but for the fresh variables. -/
structure PlansAlone (compiler : Compiler) (query : Query) (plan : Plan) : Prop where
  somewhere : compiler.PlannedAlone query plan
  anywhere : ∀ trace, ∃ alone left,
    (compiler.compileNested query).outcome trace = some (.ok alone, left) ∧
      ((∀ v ∈ query.vars, compiler.fresh.Lacks v) → plan.SameUpTo compiler.fresh alone)

theorem PlannedAlone.plansAlone (hparser : compiler.parser = none)
    (hfresh : Function.Injective compiler.fresh) {query : Query} {plan : Plan}
    (h : compiler.PlannedAlone query plan) : compiler.PlansAlone query plan := by
  refine ⟨h, ?_⟩
  intro trace
  obtain ⟨start, left, hplan⟩ := h
  obtain ⟨count, made, -, hreplays⟩ := exists_replays (memoryless_of_none hparser) hfresh hplan
  obtain ⟨alone, halone, -⟩ := hreplays trace
  refine ⟨alone, _, halone, ?_⟩
  intro hquery
  exact sameUpTo_of_outcome hparser hfresh hquery hplan halone

/-- The plans of nested queries are the same in all contexts, and the context of the whole shows at
its root only. -/
structure IgnoresContext (compiler : Compiler) : Prop where
  /-- A plan has further plans just where the query has further queries, and each of them is the
  plan of that query alone. -/
  positions : ∀ query plan, compiler.CompilesTo query plan → ∀ path, path ≠ [] →
    Option.Rel compiler.PlansAlone (query.at? path) (plan.at? path)
  /-- Two queries may have nothing in common but the one nested in both. -/
  parents : ∀ first second plan other, compiler.CompilesTo first plan →
    compiler.CompilesTo second other → ∀ path place nested, path ≠ [] → place ≠ [] →
      first.at? path = some nested → second.at? place = some nested →
        (∀ v ∈ nested.vars, compiler.fresh.Lacks v) →
          ∃ sub again, plan.at? path = some sub ∧ other.at? place = some again ∧
            sub.SameUpTo compiler.fresh again
  /-- Both entry points fail with the same error or succeed. -/
  entries : ∀ query trace other,
    (∃ error left last, (compiler.compile query).outcome trace = some (.error error, left) ∧
      (compiler.compileNested query).outcome other = some (.error error, last)) ∨
    ∃ plan nested left last, (compiler.compile query).outcome trace = some (.ok plan, left) ∧
      (compiler.compileNested query).outcome other = some (.ok nested, last) ∧
        ((∀ v ∈ query.vars, compiler.fresh.Lacks v) →
          plan.asNested.SameUpTo compiler.fresh nested)

theorem sameUpTo_at? (hparser : compiler.parser = none)
    (hfresh : Function.Injective compiler.fresh) {first second nested : Query} {plan other : Plan}
    (hplan : compiler.CompilesTo first plan) (hother : compiler.CompilesTo second other)
    {path place : List Nat} (hpath : path ≠ []) (hplace : place ≠ [])
    (hfirst : first.at? path = some nested) (hsecond : second.at? place = some nested)
    (hnested : ∀ v ∈ nested.vars, compiler.fresh.Lacks v) :
    ∃ sub again, plan.at? path = some sub ∧ other.at? place = some again ∧
      sub.SameUpTo compiler.fresh again := by
  have hhere := hplan.rel_at? hparser hpath
  have hthere := hother.rel_at? hparser hplace
  rw [hfirst] at hhere
  rw [hsecond] at hthere
  obtain ⟨sub, hsub, trace, left, hplanned⟩ := hhere.exists_of_some_left
  obtain ⟨again, hagain, beside, last, hreplanned⟩ := hthere.exists_of_some_left
  exact ⟨sub, again, hsub, hagain,
    sameUpTo_of_outcome hparser hfresh hnested hplanned hreplanned⟩

theorem entries_agree (hparser : compiler.parser = none)
    (hfresh : Function.Injective compiler.fresh) (query : Query) (trace other : Trace) :
    (∃ error left last, (compiler.compile query).outcome trace = some (.error error, left) ∧
      (compiler.compileNested query).outcome other = some (.error error, last)) ∨
    ∃ plan nested left last, (compiler.compile query).outcome trace = some (.ok plan, left) ∧
      (compiler.compileNested query).outcome other = some (.ok nested, last) ∧
        ((∀ v ∈ query.vars, compiler.fresh.Lacks v) →
          plan.asNested.SameUpTo compiler.fresh nested) := by
  have hdepth := Nat.le_of_eq (levelsFor_eq_depth hparser query).symm
  obtain ⟨first, left, hfirst, hreports⟩ :=
    reports_planWithin hparser (compiler.levelsFor query) true hdepth trace
  obtain ⟨second, last, hsecond, hagain⟩ :=
    reports_planWithin hparser (compiler.levelsFor query) false hdepth other
  rcases hreports.cases hagain with ⟨error, rfl, rfl⟩ | ⟨plan, nested, rfl, rfl⟩
  · exact Or.inl ⟨error, left, last, hfirst, hsecond⟩
  · refine Or.inr ⟨plan, nested, left, last, hfirst, hsecond, ?_⟩
    intro hquery
    -- From the trace of the first run, the second entry point gives the same plan but for the root.
    have hhere : (compiler.compileNested query).outcome trace = some (.ok plan.asNested, left) := by
      rw [outcome_compileNested, compile, hfirst]
      rfl
    exact sameUpTo_of_outcome hparser hfresh hquery hhere hsecond

/-- From the same trace, both entry points end with the same error, or with plans that differ at
the root only. Without a parser, the plan at each position below the root is the plan of the query
there alone, up to the fresh variables: so it is the same in all queries that it is nested in. -/
theorem nested_plans_ignore_context (compiler : Compiler) :
    (∀ query trace, (compiler.compileNested query).outcome trace =
      ((compiler.compile query).outcome trace).map fun (result, left) =>
        (result.map Plan.asNested, left)) ∧
    (compiler.parser = none → Function.Injective compiler.fresh → compiler.IgnoresContext) := by
  refine ⟨compiler.outcome_compileNested, ?_⟩
  intro hparser hfresh
  constructor
  · intro query plan hplan path hpath
    apply (hplan.rel_at? hparser hpath).imp
    intro nested sub hsub
    exact hsub.plansAlone hparser hfresh
  · intro first second plan other hplan hother path place nested hpath hplace hfirst hsecond
    exact sameUpTo_at? hparser hfresh hplan hother hpath hplace hfirst hsecond
  · exact entries_agree hparser hfresh

/-- The query nested in the template with two expressions. -/
def countedPart : Query :=
  .generate [.triples [⟨.term (.var ⟨"s"⟩), .term (.var ⟨"p"⟩), .embedded (.var ⟨"c"⟩)⟩]]

/-- A query with a base, a name, a parameter and an iterator of its own, which holds the same part
one level further down. -/
def namedWhole : Query where
  form := .generate [.query (.generate [.query countedPart])]
  base := some ⟨"base"⟩
  dataset := none
  name := some ⟨"whole"⟩
  signature := some [⟨"k"⟩]
  clauses := [.iterator (.call (.custom ⟨"rows"⟩) [.var ⟨"k"⟩]) [⟨"r"⟩]]
  pattern := .bgp [⟨.var ⟨"r"⟩, .var ⟨"p"⟩, .var ⟨"o"⟩⟩]

/-- The part draws the third variable in the one query and the first one in the other, which is
compiled as a part itself. Its iterator is interleaved there. -/
theorem part_planned_alike_in_both : ∃ plan left top other last sub again,
    (Compiler.compile { fresh := .tally "fresh" } countedTemplate).outcome {} =
      some (.ok plan, left) ∧
    (Compiler.compile { fresh := .tally "fresh" } namedWhole).outcome {} = some (.ok top, last) ∧
    (Compiler.compileNested { fresh := .tally "fresh" } namedWhole).outcome {} =
      some (.ok other, last) ∧
    plan.at? [1] = some sub ∧ other.at? [0, 0] = some again ∧
    sub.select.query.pattern = Pattern.unit.extend ⟨"fresh__"⟩ (.var ⟨"c"⟩) ∧
    again.select.query.pattern = Pattern.unit.extend ⟨"fresh"⟩ (.var ⟨"c"⟩) ∧
    sub.SameUpTo (.tally "fresh") again ∧ other = top.asNested ∧
    top.bindings = [.iterator .sync ⟨"rows"⟩ [.var ⟨"k"⟩] [⟨"r"⟩]] ∧
    other.bindings = [.iterator .async ⟨"rows"⟩ [.var ⟨"k"⟩] [⟨"r"⟩]] := by
  obtain ⟨plan, left, hplan, sub, hsub, hthird⟩ : ∃ plan left,
      (Compiler.compile { fresh := .tally "fresh" } countedTemplate).outcome {} =
        some (.ok plan, left) ∧ ∃ sub, plan.at? [1] = some sub ∧
          sub.select.query.pattern = Pattern.unit.extend ⟨"fresh__"⟩ (.var ⟨"c"⟩) :=
    ⟨_, _, rfl, _, rfl, rfl⟩
  obtain ⟨top, last, htop, again, hagain, hfirst, hsync, hasync⟩ : ∃ top last,
      (Compiler.compile { fresh := .tally "fresh" } namedWhole).outcome {} =
        some (.ok top, last) ∧ ∃ again, top.asNested.at? [0, 0] = some again ∧
          again.select.query.pattern = Pattern.unit.extend ⟨"fresh"⟩ (.var ⟨"c"⟩) ∧
          top.bindings = [.iterator .sync ⟨"rows"⟩ [.var ⟨"k"⟩] [⟨"r"⟩]] ∧
          top.asNested.bindings = [.iterator .async ⟨"rows"⟩ [.var ⟨"k"⟩] [⟨"r"⟩]] :=
    ⟨_, _, rfl, _, rfl, rfl, rfl, rfl⟩
  obtain ⟨hentries, hcontext⟩ := nested_plans_ignore_context { fresh := .tally "fresh" }
  have hother : (Compiler.compileNested { fresh := .tally "fresh" } namedWhole).outcome {} =
      some (.ok top.asNested, last) := by
    rw [hentries, htop]
    rfl
  -- The names that occur are single letters.
  have hnames : ∀ v ∈ countedPart.vars, v.name.length < 5 := by decide
  have hwhole : Compiler.CompilesTo { fresh := .tally "fresh" } countedTemplate plan :=
    ⟨_, List.mem_cons_self, _, _, hplan⟩
  have hnamed : Compiler.CompilesTo { fresh := .tally "fresh" } namedWhole top.asNested :=
    ⟨_, List.mem_cons_of_mem _ List.mem_cons_self, _, _, hother⟩
  obtain ⟨sub', again', hsub', hagain', hsame⟩ :=
    (hcontext rfl (Supply.tally_injective "fresh")).parents _ _ _ _ hwhole hnamed [1] [0, 0]
      countedPart (List.cons_ne_nil _ _) (List.cons_ne_nil _ _) rfl rfl
      fun v hv => Supply.tally_lacks (hnames v hv)
  cases hsub.symm.trans hsub'
  cases hagain.symm.trans hagain'
  exact ⟨plan, left, top, _, last, sub, again, hplan, htop, hother, hsub, hagain, hthird, hfirst,
    hsame, rfl, hsync, hasync⟩

end Compiler

end SparqlGenerate
