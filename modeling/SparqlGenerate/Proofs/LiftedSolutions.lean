import Mathlib.Data.List.Forall2
import SparqlGenerate.Proofs.Solutions
import SparqlGenerate.Proofs.Variables

/-!
# What a lifted query produces

A query produces triples from each solution of its pattern, with the values of the expressions that
are embedded in its template. Once it is lifted, its pattern assigns the values to fresh variables
instead, one after another, and the template holds these variables. The later values are computed
with the earlier ones already assigned, and an expression without a value leaves its variable
unbound. Both queries produce the same triples all the same, as long as no fresh variable occurs in
the query or is used for two expressions.
-/

namespace SparqlGenerate

/-! ## Assignments -/

theorem Supply.assign_append (fresh : Supply) (number : Nat) (first second : List Expr) :
    fresh.assign number (first ++ second) =
      fresh.assign number first ++ fresh.assign (number + first.length) second := by
  induction first generalizing number with
  | nil => rfl
  | cons value rest ih =>
      simp only [List.cons_append, assign, ih, List.length_cons]
      rw [Nat.add_assoc, Nat.add_comm 1]

/-- The fresh variables that lifting gives to the embedded expressions of the query. -/
def Query.drawn (fresh : Supply) (number : Nat) (query : Query) : List Var :=
  (List.range' number query.embeddedCount).map fresh

theorem Supply.map_fst_assign (fresh : Supply) (number : Nat) (values : List Expr) :
    (fresh.assign number values).map Prod.fst = (List.range' number values.length).map fresh := by
  induction values generalizing number with
  | nil => rfl
  | cons value rest ih =>
      rw [assign, List.map_cons, ih, List.length_cons, List.range'_succ, List.map_cons]

theorem Supply.value_mem_of_mem_assign {fresh : Supply} {number : Nat} {values : List Expr}
    {assignment : Var × Expr} (h : assignment ∈ fresh.assign number values) :
    assignment.2 ∈ values := by
  induction values generalizing number with
  | nil => cases h
  | cons value rest ih =>
      rcases List.mem_cons.mp h with rfl | h
      · exact List.mem_cons_self
      · exact List.mem_cons_of_mem _ (ih h)

theorem Query.pattern_lift (fresh : Supply) (number : Nat) (query : Query) :
    (query.lift fresh number).pattern =
      query.pattern.extendAll (fresh.assign number query.embeddings) := by
  obtain ⟨form, base, dataset, name, signature, clauses, pattern⟩ := query
  cases form <;> rfl

namespace Evaluator

/-- The value of an expression depends on nothing of the solution but the variables that occur in
the expression. -/
def IsLocal (evaluator : Evaluator) : Prop :=
  ∀ (e : Expr) (first second : Solution), (∀ v ∈ e.vars, first v = second v) →
    evaluator.value e first = evaluator.value e second

/-- The solutions of patterns obey the rule of `Extend`: they are those of the inner pattern, in
order, each with the variable bound to the value of the expression if it has one. -/
def Extends (evaluator : Evaluator) (solutions : Pattern → List Solution) : Prop :=
  ∀ inner var value,
    solutions (.extend inner var value) = (solutions inner).map (evaluator.extend var value)

theorem Extends.solutions_extendAll {evaluator : Evaluator} {solutions : Pattern → List Solution}
    (h : evaluator.Extends solutions) (pattern : Pattern) (assignments : List (Var × Expr)) :
    solutions (pattern.extendAll assignments) =
      (solutions pattern).map (Solution.assignAll evaluator.value assignments) := by
  induction assignments generalizing pattern with
  | nil => exact (List.map_id _).symm
  | cons assignment rest ih =>
      obtain ⟨var, value⟩ := assignment
      rw [Pattern.extendAll_cons, ih, h, List.map_map]
      rfl

/-- Among two solutions, the second has the variables as the first, and has stored the values that
the assigned expressions have on the first. -/
structure Carries (evaluator : Evaluator) (before after : Solution) (vars : List Var)
    (assignments : List (Var × Expr)) : Prop where
  frame : ∀ v ∈ vars, after v = before v
  stored : ∀ assignment ∈ assignments,
    after assignment.1 = evaluator.value assignment.2 before

theorem Carries.of_append {evaluator : Evaluator} {before after : Solution}
    {firstVars secondVars : List Var} {first second : List (Var × Expr)}
    (h : evaluator.Carries before after (firstVars ++ secondVars) (first ++ second)) :
    evaluator.Carries before after firstVars first ∧
      evaluator.Carries before after secondVars second := by
  refine ⟨⟨?_, ?_⟩, ⟨?_, ?_⟩⟩
  · exact fun v hv => h.frame v (List.mem_append_left _ hv)
  · exact fun assignment hmem => h.stored assignment (List.mem_append_left _ hmem)
  · exact fun v hv => h.frame v (List.mem_append_right _ hv)
  · exact fun assignment hmem => h.stored assignment (List.mem_append_right _ hmem)

/-- Each assigned variable has the value of its expression before all assignments, if the variables
are unbound there, are distinct, and occur in none of the expressions. -/
theorem assignAll_of_mem {evaluator : Evaluator} (hlocal : evaluator.IsLocal)
    {assignments : List (Var × Expr)} (hnodup : (assignments.map Prod.fst).Nodup)
    (hfresh : ∀ v ∈ assignments.map Prod.fst, ∀ assignment ∈ assignments, v ∉ assignment.2.vars)
    {solution : Solution} (hunbound : ∀ v ∈ assignments.map Prod.fst, solution v = none)
    {assignment : Var × Expr} (hmem : assignment ∈ assignments) :
    solution.assignAll evaluator.value assignments assignment.1 =
      evaluator.value assignment.2 solution := by
  induction assignments generalizing solution with
  | nil => cases hmem
  | cons head rest ih =>
      obtain ⟨var, value⟩ := head
      rw [List.map_cons, List.nodup_cons] at hnodup
      rw [List.map_cons, List.forall_mem_cons] at hunbound hfresh
      obtain ⟨hvar, hnodup⟩ := hnodup
      change (evaluator.extend var value solution).assignAll evaluator.value rest assignment.1 = _
      rcases List.mem_cons.mp hmem with rfl | hrest
      · rw [Solution.assignAll_of_notMem _ hvar]
        exact Solution.assign_self hunbound.1 _
      -- The first assignment changes nothing that the others depend on.
      have hother : ∀ v ≠ var, evaluator.extend var value solution v = solution v :=
        fun v hne => Solution.assign_of_ne hne _ _
      have hstillUnbound : ∀ v ∈ rest.map Prod.fst,
          evaluator.extend var value solution v = none := by
        intro v hv
        rw [hother v (ne_of_mem_of_not_mem hv hvar)]
        exact hunbound.2 v hv
      rw [ih hnodup (fun v hv other hmem => hfresh.2 v hv other (List.mem_cons_of_mem _ hmem))
        hstillUnbound hrest]
      refine hlocal _ _ _ fun v hv => hother v ?_
      exact ne_of_mem_of_not_mem hv (hfresh.1 assignment hmem)

theorem carries_assignAll {evaluator : Evaluator} (hlocal : evaluator.IsLocal)
    {assignments : List (Var × Expr)} {vars : List Var}
    (hnodup : (assignments.map Prod.fst).Nodup)
    (hfresh : ∀ v ∈ assignments.map Prod.fst, v ∉ vars)
    (hvalues : ∀ assignment ∈ assignments, assignment.2.vars ⊆ vars) {solution : Solution}
    (hunbound : ∀ v ∈ assignments.map Prod.fst, solution v = none) :
    evaluator.Carries solution (solution.assignAll evaluator.value assignments) vars
      assignments where
  frame := by
    intro v hv
    exact Solution.assignAll_of_notMem _ (fun hmem => hfresh v hmem hv) solution
  stored := by
    intro assignment hmem
    refine assignAll_of_mem hlocal hnodup ?_ hunbound hmem
    exact fun v hv other hother hoccurs => hfresh v hv (hvalues other hother hoccurs)

end Evaluator

/-! ## Templates -/

structure GroundTriple where
  subject : GroundTerm
  predicate : GroundTerm
  object : GroundTerm
  deriving DecidableEq, Repr

/-- The ground term for a term on a solution, given the blank nodes for the labels of the template.
There is none for an unbound variable. -/
def Term.ground? (blanks : String → GroundTerm) (solution : Solution) : Term → Option GroundTerm
  | .iri name => some (.iri name)
  | .blank label => some (blanks label)
  | .literal value => some (.literal value)
  | .var name => solution name

/-- The ground term at a place of a template. There is none for an expression without a value. -/
def TemplateTerm.ground? (evaluator : Evaluator) (blanks : String → GroundTerm)
    (solution : Solution) : TemplateTerm → Option GroundTerm
  | .term t => t.ground? blanks solution
  | .embedded value => evaluator.value value solution

/-- The ground triple for a triple of a template, if there is a ground term at each place. -/
def TemplateTriple.ground? (evaluator : Evaluator) (blanks : String → GroundTerm)
    (solution : Solution) (triple : TemplateTriple) : Option GroundTriple := do
  let subject ← triple.subject.ground? evaluator blanks solution
  let predicate ← triple.predicate.ground? evaluator blanks solution
  let object ← triple.object.ground? evaluator blanks solution
  return ⟨subject, predicate, object⟩

/-- The triples that an element produces from a solution. A nested query produces its own. -/
def Element.produced (evaluator : Evaluator) (blanks : String → GroundTerm)
    (solution : Solution) : Element → List GroundTriple
  | .triples ts => ts.filterMap (TemplateTriple.ground? evaluator blanks solution)
  | .query _ => []

/-- The triples that the own template of a query produces from a solution. -/
def Query.produced (evaluator : Evaluator) (blanks : String → GroundTerm) (solution : Solution)
    (query : Query) : List GroundTriple :=
  query.elements.flatMap (Element.produced evaluator blanks solution)

section Lifted

variable {evaluator : Evaluator} {fresh : Supply} {before after : Solution}

theorem TemplateTerm.ground?_lift (blanks : String → GroundTerm) {number : Nat}
    {term : TemplateTerm}
    (h : evaluator.Carries before after term.vars (fresh.assign number term.embeddings)) :
    (term.lift fresh number).ground? evaluator blanks after =
      term.ground? evaluator blanks before := by
  cases term with
  | embedded value => exact h.stored (fresh number, value) List.mem_cons_self
  | term t =>
      cases t with
      | var name => exact h.frame name List.mem_cons_self
      | iri | blank | literal => rfl

theorem TemplateTriple.ground?_lift (blanks : String → GroundTerm) {number : Nat}
    {triple : TemplateTriple}
    (h : evaluator.Carries before after triple.vars (fresh.assign number triple.embeddings)) :
    (triple.lift fresh number).ground? evaluator blanks after =
      triple.ground? evaluator blanks before := by
  rw [embeddings, Supply.assign_append] at h
  obtain ⟨hfirst, hobject⟩ := h.of_append
  rw [Supply.assign_append] at hfirst
  obtain ⟨hsubject, hpredicate⟩ := hfirst.of_append
  simp only [ground?, lift, TemplateTerm.ground?_lift blanks hsubject,
    TemplateTerm.ground?_lift blanks hpredicate, TemplateTerm.ground?_lift blanks hobject]

theorem Element.produced_lift (blanks : String → GroundTerm) {number : Nat} {element : Element}
    (h : evaluator.Carries before after element.vars (fresh.assign number element.embeddings)) :
    (element.lift fresh number).produced evaluator blanks after =
      element.produced evaluator blanks before := by
  cases element with
  | query nested => rfl
  | triples triples =>
      rw [vars, embeddings] at h
      rw [lift, produced, produced]
      -- The numbers go on from one triple to the next.
      induction triples generalizing number with
      | nil => rfl
      | cons triple rest ih =>
          rw [List.flatMap_cons, List.flatMap_cons, Supply.assign_append] at h
          obtain ⟨htriple, hrest⟩ := h.of_append
          rw [TemplateTriple.liftAll, List.filterMap_cons, List.filterMap_cons,
            TemplateTriple.ground?_lift blanks htriple, ih hrest]

theorem Element.flatMap_produced_liftAll (blanks : String → GroundTerm) {number : Nat}
    {elements : List Element} (h : evaluator.Carries before after (elements.flatMap vars)
      (fresh.assign number (elements.flatMap embeddings))) :
    (liftAll fresh number elements).flatMap (produced evaluator blanks after) =
      elements.flatMap (produced evaluator blanks before) := by
  induction elements generalizing number with
  | nil => rfl
  | cons element rest ih =>
      rw [List.flatMap_cons, List.flatMap_cons, Supply.assign_append] at h
      obtain ⟨helement, hrest⟩ := h.of_append
      rw [liftAll, List.flatMap_cons, List.flatMap_cons, produced_lift blanks helement, ih hrest]

end Lifted

/-! ## Queries -/

/-- A lifted query has a solution for each solution of the query, in the same order, and produces
the same triples from it. The solutions differ in the fresh variables only, each of which has the
value of its expression, or none if the expression has none. Fresh are variables that neither occur
in the query nor are bound by a solution of it. -/
theorem lifting_preserves_production (evaluator : Evaluator) (solutions : Pattern → List Solution)
    (fresh : Supply) (number : Nat) (query : Query) (hlocal : evaluator.IsLocal)
    (hextends : evaluator.Extends solutions)
    (hunbound : ∀ solution ∈ solutions query.pattern,
      ∀ v ∈ query.drawn fresh number, solution v = none)
    (hnodup : (query.drawn fresh number).Nodup)
    (hfresh : ∀ v ∈ query.drawn fresh number, v ∉ query.vars) :
    List.Forall₂
      (fun before after =>
        (∀ v ∉ query.drawn fresh number, after v = before v) ∧
        (∀ assignment ∈ fresh.assign number query.embeddings,
          after assignment.1 = evaluator.value assignment.2 before) ∧
        ∀ blanks, (query.lift fresh number).produced evaluator blanks after =
          query.produced evaluator blanks before)
      (solutions query.pattern) (solutions (query.lift fresh number).pattern) := by
  have hdrawn : (fresh.assign number query.embeddings).map Prod.fst = query.drawn fresh number :=
    fresh.map_fst_assign number query.embeddings
  rw [Query.pattern_lift, hextends.solutions_extendAll, List.forall₂_map_right_iff,
    List.forall₂_same]
  intro before hmem
  have hcarries : evaluator.Carries before
      (before.assignAll evaluator.value (fresh.assign number query.embeddings)) query.vars
      (fresh.assign number query.embeddings) := by
    refine Evaluator.carries_assignAll hlocal (hdrawn ▸ hnodup) (hdrawn ▸ hfresh) ?_
      (hdrawn ▸ hunbound before hmem)
    exact fun assignment hassignment => Query.vars_subset_of_mem_embeddings
      (Supply.value_mem_of_mem_assign hassignment)
  refine ⟨?_, hcarries.stored, fun blanks => ?_⟩
  · intro v hv
    exact Solution.assignAll_of_notMem _ (hdrawn ▸ hv) before
  · rw [Query.produced, Query.produced, Query.elements_lift]
    refine Element.flatMap_produced_liftAll blanks ⟨?_, hcarries.stored⟩
    exact fun v hv => hcarries.frame v (query.flatMap_vars_elements_subset hv)

/-- An evaluator that knows IRIs and variables, and fails on all other expressions. -/
def nameEvaluator : Evaluator where
  value
    | .iri name, _ => some (.iri name)
    | .var name, solution => solution name
    | _, _ => none
  isTrue _ := true
  summary _ _ := none

theorem nameEvaluator_isLocal : nameEvaluator.IsLocal := by
  intro e first second h
  cases e with
  | var name => exact h name List.mem_cons_self
  | _ => rfl

/-- The solutions of patterns that assign, given those of all other patterns. -/
def Evaluator.extended (evaluator : Evaluator) (base : Pattern → List Solution) :
    Pattern → List Solution
  | .extend inner var value => (evaluator.extended base inner).map (evaluator.extend var value)
  | pattern => base pattern

/-- A query over `?s <r> ?c OPTIONAL { ?s <q> ?o }` with two expressions embedded in one triple. -/
def namingQuery : Query :=
  { Query.generate [.triples
      [⟨.embedded (.var ⟨"s"⟩), .term (.iri ⟨"p"⟩), .embedded (.var ⟨"o"⟩)⟩]] with
    pattern := .leftJoin (.bgp [⟨.var ⟨"s"⟩, .iri ⟨"r"⟩, .var ⟨"c"⟩⟩])
      (.bgp [⟨.var ⟨"s"⟩, .iri ⟨"q"⟩, .var ⟨"o"⟩⟩]) none }

/-- The solutions of that pattern over the triples `<a> <r> <c>`, `<b> <r> <c>` and `<b> <q> <d>`,
and none of any other. On the first one the optional part binds nothing, so that the second
expression has no value. -/
def namingSolutions : Pattern → List Solution :=
  let classed (name : String) :=
    (Solution.empty.assign ⟨"s"⟩ (some (.iri ⟨name⟩))).assign ⟨"c"⟩ (some (.iri ⟨"c"⟩))
  nameEvaluator.extended fun
    | .leftJoin _ _ _ => [classed "a", (classed "b").assign ⟨"o"⟩ (some (.iri ⟨"d"⟩))]
    | _ => []

/-- Lifted or not, the query produces nothing from the first solution and one triple from the
second. -/
theorem lifting_preserves_naming :
    nameEvaluator.IsLocal ∧ nameEvaluator.Extends namingSolutions ∧
    (∀ solution ∈ namingSolutions namingQuery.pattern,
      ∀ v ∈ namingQuery.drawn .numbered 0, solution v = none) ∧
    (namingQuery.drawn .numbered 0).Nodup ∧
    (∀ v ∈ namingQuery.drawn .numbered 0, v ∉ namingQuery.vars) ∧
    (namingSolutions (namingQuery.lift .numbered 0).pattern).map
        ((namingQuery.lift .numbered 0).produced nameEvaluator .blank ·) =
      [[], [⟨.iri ⟨"b"⟩, .iri ⟨"p"⟩, .iri ⟨"d"⟩⟩]] := by
  have hextends : nameEvaluator.Extends namingSolutions := fun _ _ _ => rfl
  have hunbound : ∀ solution ∈ namingSolutions namingQuery.pattern,
      ∀ v ∈ namingQuery.drawn .numbered 0, solution v = none := by decide
  have hnodup : (namingQuery.drawn .numbered 0).Nodup := by decide
  have hfresh : ∀ v ∈ namingQuery.drawn .numbered 0, v ∉ namingQuery.vars := by decide
  have hproduced := (lifting_preserves_production nameEvaluator namingSolutions .numbered 0
    namingQuery nameEvaluator_isLocal hextends hunbound hnodup hfresh).imp
      fun _ _ hpair => hpair.2.2 .blank
  refine ⟨nameEvaluator_isLocal, hextends, hunbound, hnodup, hfresh, ?_⟩
  have hlists := List.forall₂_map_left_iff.mpr (List.forall₂_map_right_iff.mpr hproduced.flip)
  rw [List.forall₂_eq_eq_eq] at hlists
  exact hlists.trans rfl

end SparqlGenerate
