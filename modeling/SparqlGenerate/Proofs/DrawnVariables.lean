import Mathlib.Algebra.GroupWithZero.Nat
import Mathlib.Data.List.Nodup
import SparqlGenerate.Proofs.LiftedPlaces
import SparqlGenerate.Proofs.LiftedVariables
import SparqlGenerate.Proofs.Replay

/-!
# Each node draws its own variables

Without a parser each query of a tree is lifted once, before the queries nested in it and after
those to the left of it. So the numbers of the variables drawn for the nodes follow one another in
depth-first order, and two nodes never share a variable. An expression of the tree is assigned to
its variable in the select plan of the one node whose triples it was embedded in.
-/

namespace SparqlGenerate

/-! ## Numbers -/

namespace Query

/-- The number of expressions embedded in the own triples of the queries. -/
def countAll (queries : List Query) : Nat :=
  (queries.map embeddedCount).sum

/-- The queries, each with the number of the first variable drawn for it if they are lifted one
after another. -/
def numberAll : Nat → List Query → List (Query × Nat)
  | _, [] => []
  | number, query :: rest => (query, number) :: numberAll (number + query.embeddedCount) rest

@[simp]
theorem countAll_cons (query : Query) (rest : List Query) :
    countAll (query :: rest) = query.embeddedCount + countAll rest := by
  simp [countAll]

theorem countAll_append (first second : List Query) :
    countAll (first ++ second) = countAll first + countAll second := by
  simp [countAll]

theorem numberAll_append (number : Nat) (first second : List Query) :
    numberAll number (first ++ second) =
      numberAll number first ++ numberAll (number + countAll first) second := by
  induction first generalizing number with
  | nil => rfl
  | cons query rest ih =>
      rw [List.cons_append, numberAll, ih, numberAll, List.cons_append, countAll_cons,
        Nat.add_assoc]

/-- All numbers are used, and none of them twice. -/
theorem flatMap_drawn_numberAll (fresh : Supply) (number : Nat) (queries : List Query) :
    (numberAll number queries).flatMap (fun origin => origin.1.drawn fresh origin.2) =
      (List.range' number (countAll queries)).map fresh := by
  induction queries generalizing number with
  | nil => rfl
  | cons query rest ih =>
      rw [numberAll, List.flatMap_cons, ih, drawn, ← List.map_append, List.range'_append_1,
        countAll_cons]

theorem le_of_mem_numberAll {number : Nat} {queries : List Query} {origin : Query × Nat}
    (h : origin ∈ numberAll number queries) : number ≤ origin.2 := by
  induction queries generalizing number with
  | nil => cases h
  | cons query rest ih =>
      rcases List.mem_cons.mp h with rfl | h
      · exact Nat.le_refl number
      · exact Nat.le_of_add_right_le (ih h)

theorem fst_mem_of_mem_numberAll {number : Nat} {queries : List Query} {origin : Query × Nat}
    (h : origin ∈ numberAll number queries) : origin.1 ∈ queries := by
  induction queries generalizing number with
  | nil => cases h
  | cons query rest ih =>
      rcases List.mem_cons.mp h with rfl | h
      · exact List.mem_cons_self
      · exact List.mem_cons_of_mem query (ih h)

/-- The numbers of an earlier query are below those of a later one. -/
theorem pairwise_numberAll (number : Nat) (queries : List Query) :
    (numberAll number queries).Pairwise fun first second =>
      first.2 + first.1.embeddedCount ≤ second.2 := by
  induction queries generalizing number with
  | nil => exact .nil
  | cons query rest ih =>
      exact List.pairwise_cons.mpr ⟨fun origin horigin => le_of_mem_numberAll horigin, ih _⟩

end Query

/-! ## Nodes in turn -/

/-- The nodes are made from the queries, in the same order, and the variables that they are lifted
with are drawn one after another between the traces. -/
structure LiftsInTurn (fresh : Supply) (queries : List Query) (nodes : List Plan)
    (trace left : Trace) : Prop where
  sources : List.Forall₂ (fun (origin : Query × Nat) node =>
    node.source = origin.1.lift fresh origin.2) (Query.numberAll trace.drawn queries) nodes
  drawn : left.drawn = trace.drawn + Query.countAll queries

theorem LiftsInTurn.append {fresh : Supply} {first second : List Query} {nodes more : List Plan}
    {trace middle left : Trace} (hfirst : LiftsInTurn fresh first nodes trace middle)
    (hsecond : LiftsInTurn fresh second more middle left) :
    LiftsInTurn fresh (first ++ second) (nodes ++ more) trace left := by
  refine ⟨?_, ?_⟩
  · rw [Query.numberAll_append, ← hfirst.drawn]
    exact List.rel_append hfirst.sources hsecond.sources
  · rw [hsecond.drawn, hfirst.drawn, Query.countAll_append, Nat.add_assoc]

theorem Element.flatMap_nodes_liftAll (fresh : Supply) (number : Nat) (elements : List Element) :
    (liftAll fresh number elements).flatMap nodes = elements.flatMap nodes := by
  induction elements generalizing number with
  | nil => rfl
  | cons element rest ih => cases element <;> simp [liftAll, lift, nodes, ih]

namespace Compiler

variable {compiler : Compiler} {fresh : Supply} {nested : Query → Run Plan}

/-- Without a parser a query is opened as it is. -/
theorem eq_of_outcome_opened (hparser : compiler.parser = none) {query answer : Query}
    {trace left : Trace} (h : (compiler.opened query).outcome trace = some (.ok answer, left)) :
    answer = query ∧ left = trace := by
  simp only [opened, reread, hparser] at h
  split at h
  · simpa [eq_comm] using h
  · split at h
    · cases h
    · simpa [eq_comm] using h

theorem liftsInTurn_of_outcome_mapM
    (hnested : ∀ query trace plan left, (nested query).outcome trace = some (.ok plan, left) →
      LiftsInTurn fresh query.nodes plan.nodes trace left)
    {elements : List Element} {planned : List PlanElement} {trace left : Trace}
    (h : (elements.mapM (elementWith nested)).outcome trace = some (.ok planned, left)) :
    LiftsInTurn fresh (elements.flatMap Element.nodes) (PlanElement.nodesAll planned)
      trace left := by
  induction elements generalizing planned trace with
  | nil =>
      obtain ⟨rfl, rfl⟩ : [] = planned ∧ trace = left := by simpa using h
      exact ⟨.nil, rfl⟩
  | cons element rest ih =>
      rw [List.mapM_cons] at h
      obtain ⟨part, middle, hpart, h⟩ := Run.exists_of_outcome_bind h
      obtain ⟨parts, last, hparts, h⟩ := Run.exists_of_outcome_bind h
      obtain ⟨rfl, rfl⟩ : part :: parts = planned ∧ last = left := by simpa using h
      refine LiftsInTurn.append ?_ (ih hparts)
      cases element with
      | triples triples =>
          obtain ⟨patterns, -, rfl, rfl⟩ := exists_of_outcome_triples hpart
          exact ⟨.nil, rfl⟩
      | query query =>
          obtain ⟨plan, hplan, rfl⟩ := exists_of_outcome_query hpart
          exact hnested query trace plan middle hplan

/-- A plan has the planned elements, whatever the form. -/
theorem getD_elements?_outputOf {source : Query} {planned : List PlanElement} {trace left : Trace}
    (h : (source.elements.mapM (elementWith nested)).outcome trace = some (.ok planned, left))
    (bindings : List Binding) (isTop : Bool) :
    (Plan.elements? ⟨source, bindings, source.selectPlan, compiler.outputOf source planned,
      isTop⟩).getD [] = planned := by
  unfold Plan.elements? outputOf
  cases hform : source.form with
  | generate elements => rfl
  | select | template | call =>
      rw [Query.elements, Query.elements?, hform] at h
      obtain ⟨rfl, -⟩ : [] = planned ∧ trace = left := by simpa using h
      rfl

/-- Without a parser, a query that has a plan is lifted, and its elements are planned after it has
drawn its variables. -/
theorem eq_and_outcome_elements_of_outcome_planWithin (hparser : compiler.parser = none)
    {levels : Nat} {isTop : Bool} {query : Query} {plan : Plan} {trace left : Trace}
    (h : (compiler.planWithin (levels + 1) isTop query).outcome trace = some (.ok plan, left)) :
    plan.source = query.lift compiler.fresh trace.drawn ∧
      (plan.source.elements.mapM (elementWith (compiler.planWithin levels false))).outcome
        ⟨trace.drawn + query.embeddedCount, trace.calls⟩ =
          some (.ok (plan.elements?.getD []), left) := by
  rw [planWithin_succ] at h
  obtain ⟨answer, first, hopened, hlifted⟩ := Run.exists_of_outcome_bind h
  obtain ⟨rfl, rfl⟩ := eq_of_outcome_opened hparser hopened
  have hrest := (Run.outcome_bind_of_ok
    (Query.outcome_liftNext compiler.fresh answer first)).symm.trans hlifted
  obtain ⟨bindings, planned, -, hplanned, rfl⟩ := exists_of_outcome_planLifted hrest
  refine ⟨rfl, ?_⟩
  rw [getD_elements?_outputOf hplanned]
  exact hplanned

/-- Without a parser the queries of the tree are lifted in depth-first order. -/
theorem liftsInTurn_of_outcome_planWithin (hparser : compiler.parser = none) {levels : Nat}
    {isTop : Bool} {query : Query} {plan : Plan} {trace left : Trace}
    (h : (compiler.planWithin levels isTop query).outcome trace = some (.ok plan, left)) :
    LiftsInTurn compiler.fresh query.nodes plan.nodes trace left := by
  induction levels generalizing isTop query plan trace left with
  | zero => cases h
  | succ levels ih =>
      obtain ⟨hsource, hplanned⟩ := eq_and_outcome_elements_of_outcome_planWithin hparser h
      have hbelow := liftsInTurn_of_outcome_mapM (fun query trace plan left => ih) hplanned
      rw [hsource, Query.elements_lift, Element.flatMap_nodes_liftAll] at hbelow
      rw [Query.nodes_eq, Plan.nodes_eq, Plan.nodesBelow_eq]
      refine ⟨.cons hsource hbelow.sources, ?_⟩
      rw [hbelow.drawn, Query.countAll_cons, Nat.add_assoc]

end Compiler

/-! ## What a node holds -/

/-- The term of a planned triple that has the role. -/
def TriplePattern.termAt? (planned : TriplePattern) : Role → Option Term
  | .subject => some planned.subject
  | .predicate => some planned.predicate.toTerm
  | .object => some planned.object

def PlanElement.termAt? : PlanElement → Nat × Role → Option Term
  | .triples ts, place => memberAt? TriplePattern.termAt? ts place
  | .plan _, _ => none

/-- What stands at the place of the node's own template. -/
def Plan.termAt? (node : Plan) : Place → Option Term :=
  memberAt? PlanElement.termAt? (node.elements?.getD [])

/-- Members that have the same at their places have the same at the places of their lists. -/
theorem map_memberAt?_of_forall₂ {α β γ δ ε : Type} {R : β → γ → Prop} {at? : β → α → Option δ}
    {planned? : γ → α → Option ε} {value : ε → δ}
    (hmember : ∀ b c, R b c → ∀ place, (planned? c place).map value = at? b place)
    {members : List β} {results : List γ} (h : List.Forall₂ R members results)
    (place : Nat × α) :
    (memberAt? planned? results place).map value = memberAt? at? members place := by
  obtain ⟨number, place⟩ := place
  induction h generalizing number with
  | nil => rfl
  | @cons b c members results hrel hrest ih =>
      cases number with
      | zero => exact hmember b c hrel place
      | succ number => exact ih number

theorem TemplateTriple.PlannedAs.map_termAt? {triple : TemplateTriple} {planned : TriplePattern}
    (h : triple.PlannedAs planned) (role : Role) :
    (planned.termAt? role).map TemplateTerm.term = triple.termAt? role := by
  cases role with
  | subject => exact congrArg some h.subject.symm
  | predicate => exact congrArg some h.predicate.symm
  | object => exact congrArg some h.object.symm

theorem Compiler.PlansElement.map_termAt? {compiler : Compiler} {element : Element}
    {planned : PlanElement} (h : compiler.PlansElement element planned) (place : Nat × Role) :
    (planned.termAt? place).map TemplateTerm.term = element.termAt? place := by
  cases h with
  | triples htriples =>
      exact map_memberAt?_of_forall₂ (fun _ _ h => h.map_termAt?) htriples place
  | query => rfl

/-- The template of a node has the terms of the query that the node was made from. -/
theorem Plan.Mirrors.map_termAt? {compiler : Compiler} {node : Plan} (h : node.Mirrors compiler)
    (place : Place) : (node.termAt? place).map TemplateTerm.term = node.source.termAt? place := by
  have hform := h.output
  unfold Plan.termAt? Plan.elements? Query.termAt? Query.elements Query.elements?
  cases hsource : node.source.form with
  | generate elements =>
      rw [hsource] at hform
      generalize node.output = output at hform ⊢
      cases hform with
      | generate helements =>
          exact map_memberAt?_of_forall₂ (fun _ _ h => h.map_termAt?) helements place
  | select | template | call =>
      rw [hsource] at hform
      generalize node.output = output at hform ⊢
      cases hform
      rfl

/-- The variables that occur in the binding or are bound by it. -/
def Binding.occurring : Binding → List Var
  | .iterator _ _ arguments vars => Expr.varsAll arguments ++ vars
  | .source document accept var => document.vars ++ (accept.map VarOrIri.vars).getD [] ++ [var]
  | .bind value var => value.vars ++ [var]

def PlanElement.ownVars : PlanElement → List Var
  | .triples ts => ts.flatMap TriplePattern.vars
  | .plan _ => []

/-- The variables of a call, or those of the own triples of a template. -/
def Output.ownVars : Output → List Var
  | .call plan => plan.name.vars ++ plan.parameters.flatMap Expr.vars
  | .template elements => elements.flatMap PlanElement.ownVars

/-- The variables that occur in the node, but for those of the plans nested in it. -/
def Plan.ownVars (node : Plan) : List Var :=
  node.source.vars ++ node.bindings.flatMap Binding.occurring
    ++ (node.select.query.pattern.vars ++ node.select.parameters)
    ++ (node.output.map Output.ownVars).getD []

theorem Clause.PlannedAs.occurring_eq {clause : Clause} {binding : Binding}
    (h : clause.PlannedAs binding) : binding.occurring = clause.vars := by
  cases h with
  | iterator | bind => rfl
  | @source document accept var => cases accept <;> rfl

theorem TemplateTriple.PlannedAs.vars_eq {triple : TemplateTriple} {planned : TriplePattern}
    (h : triple.PlannedAs planned) : planned.vars = triple.vars := by
  rw [TemplateTriple.vars, h.subject, h.predicate, h.object]
  rfl

theorem Compiler.PlansElement.ownVars_subset {compiler : Compiler} {element : Element}
    {planned : PlanElement} (h : compiler.PlansElement element planned) :
    planned.ownVars ⊆ element.vars := by
  cases h with
  | query => exact List.nil_subset _
  | @triples triples patterns htriples =>
      intro v hv
      obtain ⟨pattern, hpattern, hv⟩ := List.mem_flatMap.mp hv
      obtain ⟨triple, htriple, hplanned⟩ := htriples.exists_of_mem_right hpattern
      exact List.mem_flatMap.mpr ⟨triple, htriple, hplanned.vars_eq ▸ hv⟩

theorem Compiler.PlansForm.ownVars_subset {compiler : Compiler} {base : Option Iri} {form : Form}
    {output : Option Output} (h : compiler.PlansForm base form output) :
    (output.map Output.ownVars).getD [] ⊆ form.vars := by
  cases h with
  | select | template => exact List.nil_subset _
  | call => exact fun _ hv => hv
  | generate helements =>
      intro v hv
      obtain ⟨planned, hplanned, hv⟩ := List.mem_flatMap.mp hv
      obtain ⟨element, helement, hplan⟩ := helements.exists_of_mem_right hplanned
      rw [Form.vars, Element.varsAll_eq_flatMap]
      exact List.mem_flatMap.mpr ⟨element, helement, hplan.ownVars_subset hv⟩

/-- Planning a query adds no variable to those that occur in it. -/
theorem Plan.Mirrors.ownVars_subset {compiler : Compiler} {node : Plan}
    (h : node.Mirrors compiler) : node.ownVars ⊆ node.source.vars := by
  have hform := h.output.ownVars_subset
  have hparts := node.source.vars_eq
  intro v hv
  simp only [Plan.ownVars, h.select, List.mem_append] at hv
  rcases hv with ((hv | hv) | hv | hv) | hv
  · exact hv
  · obtain ⟨binding, hbinding, hv⟩ := List.mem_flatMap.mp hv
    obtain ⟨clause, hclause, hplanned⟩ := h.bindings.exists_of_mem_right hbinding
    have hmem := List.mem_flatMap.mpr ⟨clause, hclause, hplanned.occurring_eq ▸ hv⟩
    simp [hparts, hmem]
  · refine Pattern.forall_vars_groupBy (fun w hw => ?_) (fun w hw => ?_) v hv
    · simp [hparts, hw]
    · simp [hparts, hw]
  · have hmem : v ∈ node.source.signature.getD [] := hv
    simp [hparts, hmem]
  · simp [hparts, hform hv]

/-! ## Trees -/

/-- The node is made from the query by moving the expressions embedded in it, with the variables
from the number on. Its select plan makes the assignments, after all that it does for the query as
it was, and its template holds the variables. -/
structure Plan.OwnsEmbeddings (fresh : Supply) (origin : Query) (number : Nat) (node : Plan) :
    Prop where
  source : origin.MovesEmbeddings fresh number node.source
  select : node.select = origin.selectPlan.extendAll (fresh.assign number origin.embeddings)
  terms : ∀ place, (node.termAt? place).map TemplateTerm.term = node.source.termAt? place

/-- The nodes of the plan are those of the tree of the query, in the same order, and each of them
owns the expressions that are embedded in its triples. -/
structure Plan.MovesAll (fresh : Supply) (query : Query) (plan : Plan) (trace left : Trace) :
    Prop where
  nodes : List.Forall₂ (fun (origin : Query × Nat) node =>
      node.OwnsEmbeddings fresh origin.1 origin.2)
    (Query.numberAll trace.drawn query.nodes) plan.nodes
  drawn : left.drawn = trace.drawn + Query.countAll query.nodes

/-- No variable is drawn twice for the tree, and none occurs in a node that it is not drawn for. -/
structure Plan.KeepsApart (fresh : Supply) (query : Query) (plan : Plan) (trace : Trace) :
    Prop where
  distinct : ((Query.numberAll trace.drawn query.nodes).flatMap fun origin =>
    origin.1.drawn fresh origin.2).Nodup
  apart : ∀ (i j : Nat) (origin : Query) (number : Nat) (node : Plan), i ≠ j →
    (Query.numberAll trace.drawn query.nodes)[i]? = some (origin, number) →
    plan.nodes[j]? = some node → ∀ v ∈ origin.drawn fresh number, v ∉ node.ownVars

theorem Query.mem_drawn_iff {fresh : Supply} {number : Nat} {query : Query} {v : Var} :
    v ∈ query.drawn fresh number ↔
      ∃ other, number ≤ other ∧ other < number + query.embeddedCount ∧ fresh other = v := by
  simp only [drawn, List.mem_map, List.mem_range'_1, and_assoc]

/-- The variables drawn for two of the queries have different numbers. -/
theorem Query.disjoint_numberAll {start : Nat} {queries : List Query} {i j : Nat}
    {first second : Query × Nat} (hne : i ≠ j) (hfirst : (numberAll start queries)[i]? = some first)
    (hsecond : (numberAll start queries)[j]? = some second) :
    first.2 + first.1.embeddedCount ≤ second.2 ∨ second.2 + second.1.embeddedCount ≤ first.2 := by
  have hpairs := List.pairwise_iff_getElem.mp (pairwise_numberAll start queries)
  obtain ⟨hi, rfl⟩ := List.getElem?_eq_some_iff.mp hfirst
  obtain ⟨hj, rfl⟩ := List.getElem?_eq_some_iff.mp hsecond
  rcases Nat.lt_or_gt_of_ne hne with hlt | hlt
  · exact Or.inl (hpairs i j hi hj hlt)
  · exact Or.inr (hpairs j i hj hi hlt)

namespace LiftsInTurn

variable {fresh : Supply} {query : Query} {plan : Plan} {trace left : Trace} {compiler : Compiler}

theorem movesAll (h : LiftsInTurn fresh query.nodes plan.nodes trace left)
    (hmirrors : ∀ node ∈ plan.nodes, node.Mirrors compiler) :
    plan.MovesAll fresh query trace left := by
  refine ⟨h.sources.imp_of_mem_right ?_, h.drawn⟩
  intro origin node hnode hsource
  have hnode := hmirrors node hnode
  refine ⟨?_, ?_, hnode.map_termAt?⟩
  · rw [hsource]
    exact origin.1.movesEmbeddings_lift fresh origin.2
  · rw [hnode.select, hsource]
    exact origin.1.selectPlan_lift fresh origin.2

/-- Where no variable of the supply occurs in the tree or is the same as another one, the nodes
share none of those drawn for them. -/
theorem keepsApart (h : LiftsInTurn fresh query.nodes plan.nodes trace left)
    (hmirrors : ∀ node ∈ plan.nodes, node.Mirrors compiler) (hfresh : Function.Injective fresh)
    (hquery : ∀ v ∈ query.vars, (fresh.drop trace.drawn).Lacks v) :
    plan.KeepsApart fresh query trace := by
  refine ⟨?_, ?_⟩
  · rw [Query.flatMap_drawn_numberAll]
    exact List.Nodup.map hfresh List.nodup_range'
  · intro i j origin number node hne horigin hnode v hv hmem
    obtain ⟨other, hle, hlt, rfl⟩ := Query.mem_drawn_iff.mp hv
    obtain ⟨second, hsecond, hsource⟩ := (hnode ▸ h.sources.rel_getElem? j).exists_of_some_right
    have hstart := Query.le_of_mem_numberAll (List.mem_of_getElem? horigin)
    have hdisjoint := Query.disjoint_numberAll hne horigin hsecond
    replace hmem := (hmirrors node (List.mem_of_getElem? hnode)).ownVars_subset hmem
    rw [hsource] at hmem
    refine Query.forall_vars_lift (P := fun v => v ≠ fresh other) ?_ ?_ _ hmem rfl
    · intro v hv hsame
      have hnodes := Query.fst_mem_of_mem_numberAll (List.mem_of_getElem? hsecond)
      have hlacks := hquery v (Query.vars_subset_of_mem_nodes hnodes hv) (other - trace.drawn)
      simp only at hstart
      rw [Supply.drop, Nat.add_sub_cancel' (by omega)] at hlacks
      exact hlacks hsame.symm
    · intro later hfirst hlast hsame
      have hnumber := hfresh hsame
      rw [← Query.embeddedCount] at hlast
      simp only at hdisjoint
      omega

end LiftsInTurn

/-! ## Compilations -/

/-- Lifting a query moves the expressions embedded in it into its pattern, each for a variable that
takes its place, and changes nothing else; lifted again, the query stays as it is and nothing is
drawn. A compilation without a parser does so at each node of the tree, and so assigns each
expression of the tree once, in the select plan of the node that owns it. If the supply does not
repeat itself and avoids the variables of the tree, nodes share none of the variables drawn. -/
theorem embedded_expressions_are_moved (compiler : Compiler) (query : Query) (trace : Trace) :
    (∃ lifted,
      (query.liftNext compiler.fresh).outcome trace =
        some (.ok lifted, ⟨trace.drawn + query.embeddedCount, trace.calls⟩) ∧
      query.MovesEmbeddings compiler.fresh trace.drawn lifted ∧
      lifted.liftNext compiler.fresh = pure lifted) ∧
    ∀ run ∈ [Compiler.compile, Compiler.compileNested], compiler.parser = none →
      ∀ plan left, (run compiler query).outcome trace = some (.ok plan, left) →
        plan.MovesAll compiler.fresh query trace left ∧
        (Function.Injective compiler.fresh →
          (∀ v ∈ query.vars, (compiler.fresh.drop trace.drawn).Lacks v) →
          plan.KeepsApart compiler.fresh query trace) := by
  constructor
  · refine ⟨query.lift compiler.fresh trace.drawn, rfl, ?_, ?_⟩
    · exact query.movesEmbeddings_lift compiler.fresh trace.drawn
    · exact Query.liftNext_of_plain compiler.fresh (query.embeddings_lift _ _)
  · intro run hrun hparser plan left h
    obtain ⟨isTop, hplan⟩ : ∃ isTop, (compiler.planWithin (compiler.levelsFor query) isTop
        query).outcome trace = some (.ok plan, left) := by
      rcases List.mem_pair.mp hrun with rfl | rfl
      · exact ⟨true, h⟩
      · exact ⟨false, h⟩
    have hturn := Compiler.liftsInTurn_of_outcome_planWithin hparser hplan
    have hmirrors := (Compiler.makesTree_of_outcome_planWithin hplan).mirrors
    refine ⟨hturn.movesAll hmirrors, ?_⟩
    intro hfresh hquery
    exact hturn.keepsApart hmirrors hfresh hquery

/-- A template with two expressions in a triple, around a query with one. -/
def countedTemplate : Query :=
  .generate [
    .triples [⟨.embedded (.var ⟨"a"⟩), .term (.var ⟨"p"⟩), .embedded (.var ⟨"b"⟩)⟩],
    .query (.generate [
      .triples [⟨.term (.var ⟨"s"⟩), .term (.var ⟨"p"⟩), .embedded (.var ⟨"c"⟩)⟩]])]

/-- The outer query draws the first two variables, and the nested one draws the third. -/
theorem embedded_expressions_of_template_are_moved : ∃ plan left,
    (Compiler.compile { fresh := .tally "fresh" } countedTemplate).outcome {} =
      some (.ok plan, left) ∧
    left.drawn = 3 ∧
    (plan.nodes.map fun node => node.select.query.pattern) =
      [(Pattern.unit.extend ⟨"fresh"⟩ (.var ⟨"a"⟩)).extend ⟨"fresh_"⟩ (.var ⟨"b"⟩),
        Pattern.unit.extend ⟨"fresh__"⟩ (.var ⟨"c"⟩)] ∧
    plan.MovesAll (.tally "fresh") countedTemplate {} left ∧
    plan.KeepsApart (.tally "fresh") countedTemplate {} := by
  obtain ⟨plan, left, hrun, hdrawn, hpatterns⟩ : ∃ plan left,
      (Compiler.compile { fresh := .tally "fresh" } countedTemplate).outcome {} =
        some (.ok plan, left) ∧
      left.drawn = 3 ∧
      (plan.nodes.map fun node => node.select.query.pattern) =
        [(Pattern.unit.extend ⟨"fresh"⟩ (.var ⟨"a"⟩)).extend ⟨"fresh_"⟩ (.var ⟨"b"⟩),
          Pattern.unit.extend ⟨"fresh__"⟩ (.var ⟨"c"⟩)] :=
    ⟨_, _, rfl, rfl, rfl⟩
  -- The names that occur are single letters.
  have hnames : ∀ v ∈ countedTemplate.vars, v.name.length < 5 := by decide
  obtain ⟨-, hmoved⟩ :=
    embedded_expressions_are_moved { fresh := .tally "fresh" } countedTemplate {}
  obtain ⟨hall, hapart⟩ := hmoved _ List.mem_cons_self rfl plan left hrun
  refine ⟨plan, left, hrun, hdrawn, hpatterns, hall, ?_⟩
  apply hapart (Supply.tally_injective "fresh")
  intro v hv number
  exact Supply.tally_lacks (hnames v hv) (0 + number)

end SparqlGenerate
