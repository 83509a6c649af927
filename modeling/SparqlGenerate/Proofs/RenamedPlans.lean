import SparqlGenerate.Proofs.Levels
import SparqlGenerate.Proofs.LiftedSolutions
import SparqlGenerate.Proofs.ModifierChain
import SparqlGenerate.Proofs.PlanTree
import SparqlGenerate.Proofs.Renaming

/-!
# Lifting under other names

A query that is lifted with the variables of one supply and with those of another one is the same
up to the names of these variables, and so is the plan of each of its parts. The names come in when
the query is lifted and are carried along unchanged after that, so this takes no assumption on the
names but that the renaming leaves all the variables of the query as they are.
-/

namespace SparqlGenerate

variable {f : Var → Var} {fresh other : Supply}

/-! ## Lifted queries -/

theorem TemplateTerm.rename_lift (hsupply : ∀ number, f (fresh number) = other number)
    (number : Nat) {term : TemplateTerm} (h : Fixes f term.vars) :
    (term.lift fresh number).rename f = term.lift other number := by
  cases term with
  | term t => exact congrArg TemplateTerm.term (t.rename_eq_self h)
  | embedded value => exact congrArg (TemplateTerm.term ∘ Term.var) (hsupply number)

theorem TemplateTriple.rename_lift (hsupply : ∀ number, f (fresh number) = other number)
    (number : Nat) {triple : TemplateTriple} (h : Fixes f triple.vars) :
    (triple.lift fresh number).rename f = triple.lift other number := by
  simp only [vars, fixes_append] at h
  simp only [rename, lift, TemplateTerm.rename_lift hsupply, h]

theorem TemplateTriple.map_rename_liftAll (hsupply : ∀ number, f (fresh number) = other number)
    (number : Nat) {triples : List TemplateTriple} (h : Fixes f (triples.flatMap vars)) :
    (liftAll fresh number triples).map (rename f) = liftAll other number triples := by
  induction triples generalizing number with
  | nil => rfl
  | cons triple rest ih =>
      rw [List.flatMap_cons, fixes_append] at h
      rw [liftAll, List.map_cons, rename_lift hsupply number h.1, ih _ h.2, liftAll]

theorem Element.rename_lift (hsupply : ∀ number, f (fresh number) = other number) (number : Nat)
    {element : Element} (h : Fixes f element.vars) :
    (element.lift fresh number).rename f = element.lift other number := by
  cases element with
  | triples triples =>
      exact congrArg Element.triples (TemplateTriple.map_rename_liftAll hsupply number h)
  | query nested => exact congrArg Element.query (nested.rename_eq_self h)

theorem Element.renameAll_liftAll (hsupply : ∀ number, f (fresh number) = other number)
    (number : Nat) {elements : List Element} (h : Fixes f (varsAll elements)) :
    renameAll f (liftAll fresh number elements) = liftAll other number elements := by
  induction elements generalizing number with
  | nil => rfl
  | cons element rest ih =>
      rw [varsAll, fixes_append] at h
      rw [liftAll, renameAll, rename_lift hsupply number h.1, ih _ h.2, liftAll]

/-- The assigned expressions keep their variables; only those that they are assigned to change. -/
theorem Pattern.rename_extendAll_assign (hsupply : ∀ number, f (fresh number) = other number)
    (number : Nat) {values : List Expr} (hvalues : ∀ value ∈ values, Fixes f value.vars)
    (pattern : Pattern) :
    (pattern.extendAll (fresh.assign number values)).rename f =
      (pattern.rename f).extendAll (other.assign number values) := by
  induction values generalizing number pattern with
  | nil => rfl
  | cons value rest ih =>
      have hvalue := value.rename_eq_self (hvalues value List.mem_cons_self)
      rw [Supply.assign, extendAll_cons, Supply.assign, extendAll_cons,
        ih _ (fun e he => hvalues e (List.mem_cons_of_mem value he)), rename, hsupply, hvalue]

/-- What one supply lifts is renamed to what the other one lifts. -/
theorem Query.rename_lift (hsupply : ∀ number, f (fresh number) = other number) (number : Nat)
    {query : Query} (h : Fixes f query.vars) :
    (query.lift fresh number).rename f = query.lift other number := by
  have hvalues : ∀ value ∈ query.embeddings, Fixes f value.vars := fun value hvalue =>
    h.mono (vars_subset_of_mem_embeddings hvalue)
  have hself := query.rename_eq_self h
  obtain ⟨form, base, dataset, name, signature, clauses, pattern⟩ := query
  cases form with
  | select | template | call => exact hself
  | generate elements =>
      simp only [vars, fixes_append] at h
      obtain ⟨⟨⟨helements, hsignature⟩, hclauses⟩, hpattern⟩ := h
      simp only [lift, rename, Form.rename, Element.renameAll_liftAll hsupply number helements,
        hsignature.map_signature, map_eq_self_of_fixes (fun _ => Clause.rename_eq_self) hclauses,
        Pattern.rename_extendAll_assign hsupply number hvalues, pattern.rename_eq_self hpattern]

/-! ## Grouped patterns -/

namespace Pattern

theorem hasAggregates_extendAll (pattern : Pattern) (assignments : List (Var × Expr)) :
    (pattern.extendAll assignments).hasAggregates = pattern.hasAggregates := by
  induction assignments generalizing pattern with
  | nil => rfl
  | cons assignment rest ih => exact ih _

theorem addGroupKey_extend (pattern : Pattern) (v var : Var) (value : Expr) :
    (pattern.extend var value).addGroupKey v = (pattern.addGroupKey v).extend var value := rfl

theorem addGroupKey_extendAll (pattern : Pattern) (v : Var) (assignments : List (Var × Expr)) :
    (pattern.extendAll assignments).addGroupKey v =
      (pattern.addGroupKey v).extendAll assignments := by
  induction assignments generalizing pattern with
  | nil => rfl
  | cons assignment rest ih =>
      obtain ⟨var, value⟩ := assignment
      rw [extendAll_cons, ih, addGroupKey_extend, extendAll_cons]

theorem foldl_addGroupKey_extendAll (pattern : Pattern) (parameters : List Var)
    (assignments : List (Var × Expr)) :
    parameters.foldl addGroupKey (pattern.extendAll assignments) =
      (parameters.foldl addGroupKey pattern).extendAll assignments := by
  induction parameters generalizing pattern with
  | nil => rfl
  | cons v rest ih => rw [List.foldl_cons, addGroupKey_extendAll, ih, List.foldl_cons]

/-- A pattern is grouped below the assignments that stand above it. -/
theorem groupBy_extendAll (pattern : Pattern) (parameters : List Var)
    (assignments : List (Var × Expr)) :
    (pattern.extendAll assignments).groupBy parameters =
      (pattern.groupBy parameters).extendAll assignments := by
  unfold groupBy
  rw [hasAggregates_extendAll, foldl_addGroupKey_extendAll]
  split <;> rfl

theorem forall_mem_addIfAbsent {P : Var → Prop} {vars : List Var} {v : Var}
    (h : ∀ w ∈ vars, P w) (hv : P v) : ∀ w ∈ addIfAbsent vars v, P w := by
  intro w hw
  rcases mem_addIfAbsent.mp hw with hmem | rfl
  · exact h w hmem
  · exact hv

/-- A group key adds no variable but itself. -/
theorem forall_vars_addOwnGroupKey {P : Var → Prop} {v : Var} (hv : P v) {projected : Bool}
    {pattern : Pattern} (h : ∀ w ∈ pattern.vars, P w) :
    ∀ w ∈ (pattern.addOwnGroupKey v projected).2.vars, P w := by
  fun_induction addOwnGroupKey v projected pattern with
  | case1 projected inner keys aggregates =>
      simp only [vars, List.forall_mem_append] at h ⊢
      exact ⟨⟨h.1.1, forall_mem_addIfAbsent h.1.2 hv⟩, h.2⟩
  | case2 | case10 => exact h
  | case3 projected inner columns _ below ih =>
      simp only [vars, List.forall_mem_append] at h ⊢
      refine ⟨ih h.1, ?_⟩
      split
      · exact forall_mem_addIfAbsent h.2 hv
      · exact h.2
  | case4 projected inner ih | case5 projected inner ih | case6 projected inner start length ih =>
      exact ih h
  | case7 projected inner keys ih | case9 projected inner var value ih =>
      simp only [vars, List.forall_mem_append, Prod.map_snd] at h ⊢
      exact ⟨ih h.1, h.2⟩
  | case8 projected condition inner ih =>
      simp only [vars, List.forall_mem_append, Prod.map_snd] at h ⊢
      exact ⟨h.1, ih h.2⟩

theorem forall_vars_foldl_addGroupKey {P : Var → Prop} {parameters : List Var}
    (hparameters : ∀ v ∈ parameters, P v) {pattern : Pattern} (h : ∀ w ∈ pattern.vars, P w) :
    ∀ w ∈ (parameters.foldl addGroupKey pattern).vars, P w := by
  induction parameters generalizing pattern with
  | nil => exact h
  | cons v rest ih =>
      obtain ⟨hv, hrest⟩ := List.forall_mem_cons.mp hparameters
      exact ih hrest (forall_vars_addOwnGroupKey hv h)

/-- A grouped pattern has the variables of the pattern and the parameters, and no others. -/
theorem forall_vars_groupBy {P : Var → Prop} {parameters : List Var}
    (hparameters : ∀ v ∈ parameters, P v) {pattern : Pattern} (h : ∀ w ∈ pattern.vars, P w) :
    ∀ w ∈ (pattern.groupBy parameters).vars, P w := by
  unfold groupBy
  split
  · exact forall_vars_foldl_addGroupKey hparameters h
  · exact h

end Pattern

/-! ## Parts of plans -/

/-- The plan under assignments that are made after all that it does already. -/
def SelectPlan.extendAll (plan : SelectPlan) (assignments : List (Var × Expr)) : SelectPlan :=
  { plan with query.pattern := plan.query.pattern.extendAll assignments }

namespace Query

@[simp]
theorem isSelect_lift (fresh : Supply) (number : Nat) (query : Query) :
    (query.lift fresh number).isSelect = query.isSelect := by
  obtain ⟨form, base, dataset, name, signature, clauses, pattern⟩ := query
  cases form <;> rfl

@[simp]
theorem iteratorMode_lift (fresh : Supply) (number : Nat) (query : Query) (isTop : Bool) :
    (query.lift fresh number).iteratorMode isTop = query.iteratorMode isTop := by
  obtain ⟨form, base, dataset, name, signature, clauses, pattern⟩ := query
  cases form <;> rfl

/-- The clauses are planned as they are in the query before it is lifted. -/
theorem bindings_lift (fresh : Supply) (number : Nat) (query : Query) (isTop : Bool) :
    (query.lift fresh number).bindings isTop = query.bindings isTop := by
  simp [bindings]

/-- The pattern of a lifted query is grouped as it was before, below the assignments. -/
theorem selectPlan_lift (fresh : Supply) (number : Nat) (query : Query) :
    (query.lift fresh number).selectPlan =
      query.selectPlan.extendAll (fresh.assign number query.embeddings) := by
  simp only [selectPlan, SelectPlan.extendAll, toSelect, pattern_lift, dataset_lift, base_lift,
    signature_lift, isSelect_lift, Pattern.groupBy_extendAll]

theorem fixes_clauses {query : Query} (h : Fixes f query.vars) :
    Fixes f (query.clauses.flatMap Clause.vars) := by
  rw [vars_eq, fixes_append, fixes_append] at h
  exact h.1.2

theorem fixes_signature {query : Query} (h : Fixes f query.vars) :
    Fixes f (query.signature.getD []) := by
  rw [vars_eq, fixes_append, fixes_append, fixes_append] at h
  exact h.1.1.2

theorem fixes_pattern {query : Query} (h : Fixes f query.vars) : Fixes f query.pattern.vars := by
  rw [vars_eq, fixes_append] at h
  exact h.2

theorem rename_selectPlan_lift (hsupply : ∀ number, f (fresh number) = other number)
    (number : Nat) {query : Query} (h : Fixes f query.vars) :
    (query.lift fresh number).selectPlan.rename f = (query.lift other number).selectPlan := by
  have hsignature := fixes_signature h
  have hvalues : ∀ value ∈ query.embeddings, Fixes f value.vars := fun value hvalue =>
    h.mono (vars_subset_of_mem_embeddings hvalue)
  have hpattern := (query.pattern.groupBy (query.signature.getD [])).rename_eq_self
    (Pattern.forall_vars_groupBy hsignature (fixes_pattern h))
  rw [selectPlan_lift, selectPlan_lift]
  simp only [selectPlan, SelectPlan.extendAll, SelectPlan.rename, SelectQuery.rename, toSelect,
    Pattern.rename_extendAll_assign hsupply number hvalues, hpattern, hsignature.map_eq_self]

end Query

theorem Binding.rename_eq_self {clause : Clause} {binding : Binding}
    (hplanned : clause.PlannedAs binding) (h : Fixes f clause.vars) :
    binding.rename f = binding := by
  have hself := Clause.rename_eq_self h
  cases hplanned with
  | iterator => simpa [rename, Clause.rename, Expr.rename, Expr.renameAll_eq_map] using hself
  | bind => simpa [rename, Clause.rename] using hself
  | @source document accept var =>
      simp only [Clause.vars, fixes_append, fixes_cons] at h
      obtain ⟨⟨hdocument, haccept⟩, hvar, -⟩ := h
      rw [rename, VarOrIri.rename_eq_self hdocument, hvar]
      cases accept with
      | none => rfl
      | some name => rw [Option.map_some, VarOrIri.rename_eq_self haccept]

theorem Query.map_rename_bindings {query : Query} {isTop : Bool} {bindings : List Binding}
    (hbindings : query.bindings isTop = .ok bindings) (h : Fixes f query.vars) :
    bindings.map (Binding.rename f) = bindings := by
  have hclauses := fixes_clauses h
  have hplanned := (plannedAs_of_bindings hbindings).1
  refine (List.map_congr_left fun binding hbinding => ?_).trans (List.map_id bindings)
  obtain ⟨clause, hclause, hplan⟩ := hplanned.exists_of_mem_right hbinding
  exact Binding.rename_eq_self hplan fun v hv =>
    hclauses v (List.mem_flatMap.mpr ⟨clause, hclause, hv⟩)

/-! ## Outputs -/

/-- The plan of a triple without embedded expressions is renamed with it, and so are its faults,
which mention no variables. -/
theorem TemplateTriple.plan_rename {triple : TemplateTriple} (h : triple.embeddings = []) :
    (triple.rename f).plan = triple.plan.map (TriplePattern.rename f) := by
  obtain ⟨subject, predicate, object⟩ := triple
  simp only [embeddings, List.append_eq_nil_iff] at h
  obtain ⟨⟨hsubject, hpredicate⟩, hobject⟩ := h
  cases subject with
  | embedded value => cases hsubject
  | term subject =>
  cases predicate with
  | embedded value => cases hpredicate
  | term predicate =>
  cases object with
  | embedded value => cases hobject
  | term object => cases predicate <;> rfl

/-- The triples of one supply have the plans of the triples of the other one, renamed. -/
theorem TemplateTriple.mapM_plan_liftAll (hsupply : ∀ number, f (fresh number) = other number)
    (number : Nat) {triples : List TemplateTriple} (h : Fixes f (triples.flatMap vars)) :
    (liftAll other number triples).mapM plan =
      ((liftAll fresh number triples).mapM plan).map (List.map (TriplePattern.rename f)) := by
  induction triples generalizing number with
  | nil => rfl
  | cons triple rest ih =>
      rw [List.flatMap_cons, fixes_append] at h
      rw [liftAll, liftAll, List.mapM_cons, List.mapM_cons, ← rename_lift hsupply number h.1,
        plan_rename (embeddings_lift fresh number triple), ih _ h.2]
      cases (triple.lift fresh number).plan with
      | error error => rfl
      | ok planned =>
          cases (liftAll fresh (number + triple.embeddings.length) rest).mapM plan <;> rfl

namespace Compiler

variable {first second : Compiler}

theorem renameIn_outputOf_lift (hbase : first.base = second.base)
    (hsupply : ∀ number, f (fresh number) = other number) (number : Nat) {answer : Query}
    (h : Fixes f answer.vars) (planned : List PlanElement) :
    Output.renameIn f (first.outputOf (answer.lift fresh number) planned) =
      second.outputOf (answer.lift other number) (PlanElement.renameAll f planned) := by
  rw [← Query.rename_lift hsupply number h]
  obtain ⟨form, base, dataset, name, signature, clauses, pattern⟩ := answer
  cases form with
  | select | template | generate => rfl
  | call callee parameters =>
      simp only [Query.lift, Query.rename, Form.rename, outputOf, baseOf, Output.renameIn,
        Output.rename, CallPlan.rename, hbase]

/-- A node over a query that one supply lifts is renamed to the node over what the other lifts. -/
theorem rename_node_lift (hbase : first.base = second.base)
    (hsupply : ∀ number, f (fresh number) = other number) (number : Nat) {answer : Query}
    (h : Fixes f answer.vars) {isTop : Bool} {bindings : List Binding}
    (hbindings : answer.bindings isTop = .ok bindings) (planned : List PlanElement) :
    Plan.rename f ⟨answer.lift fresh number, bindings, (answer.lift fresh number).selectPlan,
        first.outputOf (answer.lift fresh number) planned, isTop⟩ =
      ⟨answer.lift other number, bindings, (answer.lift other number).selectPlan,
        second.outputOf (answer.lift other number) (PlanElement.renameAll f planned), isTop⟩ := by
  rw [Plan.rename, Query.rename_lift hsupply number h, Query.map_rename_bindings hbindings h,
    Query.rename_selectPlan_lift hsupply number h, renameIn_outputOf_lift hbase hsupply number h]

end Compiler

end SparqlGenerate
