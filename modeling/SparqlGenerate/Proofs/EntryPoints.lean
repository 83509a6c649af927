import SparqlGenerate.Proofs.Levels

/-!
# The two entry points

A query is compiled on its own or as part of another one. Which of them it is decides how the
iterators of its root take their results, and is noted in the plan. Nothing else depends on it: the
queries nested in it are compiled as parts in both cases.
-/

namespace SparqlGenerate

/-- An iterator in the mode; any other binding as it is. -/
def Binding.withMode (mode : IteratorMode) : Binding → Binding
  | .iterator _ function arguments vars => .iterator mode function arguments vars
  | binding => binding

/-- The bindings of a query of the form, as they are if the query is part of another one. -/
def Form.bindingsNested (form : Form) (bindings : List Binding) : List Binding :=
  match form with
  | .generate _ | .call .. => bindings.map (Binding.withMode .async)
  | .select | .template => bindings

/-- The plan as one of a query that is part of another one. Only the mark at the root changes, and
the mode of the root's own iterators if the form lets them be interleaved. -/
def Plan.asNested (plan : Plan) : Plan :=
  { plan with
    bindings := plan.source.form.bindingsNested plan.bindings
    isTop := false }

/-! ## Clauses -/

theorem Binding.ofIterator_withMode (mode other : IteratorMode) (value : Expr) (vars : List Var) :
    ofIterator other value vars = (ofIterator mode value vars).map (withMode other) := by
  unfold ofIterator
  split
  · rfl
  · split <;> rfl

/-- The mode has no influence on whether a clause has a plan. -/
theorem Clause.plan_withMode (mode other : IteratorMode) (clause : Clause) :
    clause.plan other = (clause.plan mode).map (Binding.withMode other) := by
  cases clause with
  | iterator value vars => exact Binding.ofIterator_withMode mode other value vars
  | bind value var => rfl
  | source document accept var =>
      simp only [plan]
      cases document.asName Fault.sourceNotName with
      | error error => rfl
      | ok document =>
          cases accept.mapM fun term => term.asName Fault.acceptNotName <;> rfl

theorem Clause.mapM_plan_withMode (mode other : IteratorMode) (clauses : List Clause) :
    clauses.mapM (plan other) =
      (clauses.mapM (plan mode)).map (List.map (Binding.withMode other)) := by
  induction clauses with
  | nil => rfl
  | cons clause rest ih =>
      rw [List.mapM_cons, List.mapM_cons, ih, plan_withMode mode other clause]
      cases clause.plan mode with
      | error error => rfl
      | ok binding => cases rest.mapM (plan mode) <;> rfl

/-- The clauses of a query are planned with the same result as a part of another one, but for the
mode. -/
theorem Query.bindings_nested (query : Query) :
    query.bindings false = (query.bindings true).map query.form.bindingsNested := by
  unfold bindings iteratorMode
  cases query.form with
  | generate elements => exact Clause.mapM_plan_withMode .sync .async query.clauses
  | call callee parameters => exact Clause.mapM_plan_withMode .sync .async query.clauses
  | select => cases query.clauses.mapM (Clause.plan .sync) <;> rfl
  | template => cases query.clauses.mapM (Clause.plan .sync) <;> rfl

/-! ## Plans -/

namespace Compiler

theorem planLifted_nested (compiler : Compiler) (nested : Query → Run Plan) (source : Query) :
    compiler.planLifted nested false source =
      compiler.planLifted nested true source >>= fun plan => pure plan.asNested := by
  have hnested := source.bindings_nested
  cases hbindings : source.bindings true with
  | error error =>
      rw [hbindings] at hnested
      rw [planLifted_of_error compiler nested hbindings,
        planLifted_of_error compiler nested hnested]
      rfl
  | ok bindings =>
      rw [hbindings] at hnested
      rw [planLifted_of_ok compiler nested hbindings, planLifted_of_ok compiler nested hnested,
        bind_assoc]
      rfl

/-- A query is compiled as part of another one by compiling it on its own, up to the root. -/
theorem planWithin_nested (compiler : Compiler) (levels : Nat) (query : Query) :
    compiler.planWithin levels false query =
      compiler.planWithin levels true query >>= fun plan => pure plan.asNested := by
  cases levels with
  | zero => rfl
  | succ levels =>
      have hlifted : compiler.planLifted (compiler.planWithin levels false) false =
          fun source => compiler.planLifted (compiler.planWithin levels false) true source >>=
            fun plan => pure plan.asNested := by
        funext source
        exact compiler.planLifted_nested _ source
      rw [planWithin_succ, planWithin_succ, hlifted]
      simp only [bind_assoc]

/-- From the same trace, both entry points end alike: with the same error, or with the same plan
but for the root, and with the same trace in any case. -/
theorem outcome_compileNested (compiler : Compiler) (query : Query) (trace : Trace) :
    (compiler.compileNested query).outcome trace =
      ((compiler.compile query).outcome trace).map fun (result, left) =>
        (result.map Plan.asNested, left) := by
  rw [compileNested, compile, planWithin_nested, Run.outcome_bind]
  cases (compiler.planWithin (compiler.levelsFor query) true query).outcome trace with
  | none => rfl
  | some ended =>
      obtain ⟨result, left⟩ := ended
      cases result <;> rfl

end Compiler

end SparqlGenerate
