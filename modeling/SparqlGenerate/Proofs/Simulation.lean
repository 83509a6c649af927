import SparqlGenerate.Proofs.RenamedPlans
import SparqlGenerate.Proofs.FollowedWalk

/-!
# Simulation between compilers

Two compilations of the same query run side by side, each with its own parser and its own supply of
fresh variables. If they are related whenever they open a query, they are abandoned together, fail
with the same error, or end with plans that differ in the names of the fresh variables only.

The relation between the traces may depend on what is still to be walked through. Whether the names
of the two plans can be told apart from others depends on the answers of the parser; this is asked
of the calls made on the way, and of nothing else.
-/

namespace SparqlGenerate

/-! ## Pairs of outcomes -/

/-- Both runs are abandoned, or fail with the same error, or have results. The traces that are left
are related, and so are the results. -/
inductive Paired {α β : Type} (failed : Trace → Trace → Prop)
    (ended : α → Trace → β → Trace → Prop) :
    Option (Except CompileError α × Trace) → Option (Except CompileError β × Trace) → Prop
  | abandoned : Paired failed ended none none
  | failed {error : CompileError} {left other : Trace} (h : failed left other) :
      Paired failed ended (some (.error error, left)) (some (.error error, other))
  | ended {a : α} {b : β} {left other : Trace} (h : ended a left b other) :
      Paired failed ended (some (.ok a, left)) (some (.ok b, other))

namespace Paired

variable {α β γ δ : Type} {failed : Trace → Trace → Prop}

/-- What is done with paired results is paired if it is for results that are related. -/
theorem bind {first : Run α} {second : Run β} {next : α → Run γ} {further : β → Run δ}
    {middle : α → Trace → β → Trace → Prop} {ended : γ → Trace → δ → Trace → Prop}
    {trace other : Trace} (h : Paired failed middle (first.outcome trace) (second.outcome other))
    (hnext : ∀ a left b beside, middle a left b beside →
      Paired failed ended ((next a).outcome left) ((further b).outcome beside)) :
    Paired failed ended (Run.outcome (first >>= next) trace)
      (Run.outcome (second >>= further) other) := by
  rw [Run.outcome_bind, Run.outcome_bind]
  generalize first.outcome trace = reached at h ⊢
  generalize second.outcome other = arrived at h ⊢
  cases h with
  | abandoned => exact .abandoned
  | failed h => exact .failed h
  | ended h => exact hnext _ _ _ _ h

theorem mono {before after : α → Trace → β → Trace → Prop}
    {first : Option (Except CompileError α × Trace)}
    {second : Option (Except CompileError β × Trace)} (h : Paired failed before first second)
    (himp : ∀ a left b other, before a left b other → after a left b other) :
    Paired failed after first second := by
  cases h with
  | abandoned => exact .abandoned
  | failed h => exact .failed h
  | ended h => exact .ended (himp _ _ _ _ h)

end Paired

/-- Checks that report the same faults fail alike. -/
theorem Reports.cases {α : Type} {faults : List Fault} {first second : Except CompileError α}
    (hfirst : Reports faults first) (hsecond : Reports faults second) :
    (∃ error, first = .error error ∧ second = .error error) ∨
      ∃ a b, first = .ok a ∧ second = .ok b := by
  cases faults with
  | nil =>
      obtain ⟨a, rfl⟩ := hfirst
      obtain ⟨b, rfl⟩ := hsecond
      exact Or.inr ⟨a, b, rfl, rfl⟩
  | cons fault further => exact Or.inl ⟨_, hfirst, hsecond⟩

/-! ## Simulations -/

/-- A relation between the runs of two compilers that is kept when they open a query. The renaming
takes the fresh variables of the first one to those of the second one. -/
structure Simulation (first second : Compiler) (f : Var → Var) where
  /-- The traces of the two runs while the elements are still to be walked through. -/
  Related : List Element → Trace → Trace → Prop
  /-- The renaming keeps to the fresh variables in what is answered between the logs. -/
  Safe : List Call → List Call → Prop
  base : first.base = second.base
  fresh : ∀ number, f (first.fresh number) = second.fresh number
  drawn {agenda : List Element} {trace other : Trace} :
    Related agenda trace other → other.drawn = trace.drawn
  /-- Drawing the same number of variables keeps traces related. -/
  draw {agenda : List Element} {trace other : Trace} (number : Nat) :
    Related agenda trace other →
      Related agenda { trace with drawn := number } { other with drawn := number }
  triples {triples : List TemplateTriple} {agenda : List Element} {trace other : Trace} :
    Related (.triples triples :: agenda) trace other → Related agenda trace other
  safe {start middle finish : List Call} : Safe start finish → start <+: middle →
    middle <+: finish → Safe start middle ∧ Safe middle finish
  opened {query : Query} {agenda : List Element} {trace other : Trace} :
    Related (.query query :: agenda) trace other →
      Paired (fun left beside => ∃ rest, Related rest left beside)
        (fun answer left answer' beside => answer' = answer ∧ trace.calls <+: left.calls ∧
          Related (answer.elements ++ agenda) left beside ∧
          (Fixes f query.vars → Safe trace.calls left.calls → Fixes f answer.vars))
        ((first.opened query).outcome trace) ((second.opened query).outcome other)

namespace Simulation

variable {first second : Compiler} {f : Var → Var} (sim : Simulation first second f)

/-- The traces that two failed runs leave are related, whatever was still to be done. -/
def Failed (left other : Trace) : Prop :=
  ∃ rest, sim.Related rest left other

/-- Two runs from related traces have ended, with nothing but the agenda to do. The second result
is the first one renamed if all variables are fixed that were there to begin with. -/
def Ended {α : Type} (rename : α → α) (vars : List Var) (agenda : List Element)
    (start : List Call) (a : α) (left : Trace) (b : α) (other : Trace) : Prop :=
  start <+: left.calls ∧ sim.Related agenda left other ∧
    (Fixes f vars → sim.Safe start left.calls → b = rename a)

variable {sim}

/-- Planning an element lifted by either compiler keeps the runs paired, if compiling the nested
queries does. -/
theorem paired_elementWith {nested further : Query → Run Plan}
    (hnested : ∀ query agenda trace other, sim.Related (.query query :: agenda) trace other →
      Paired sim.Failed (sim.Ended (Plan.rename f) query.vars agenda trace.calls)
        ((nested query).outcome trace) ((further query).outcome other))
    (number : Nat) {element : Element} {agenda : List Element} {trace other : Trace}
    (h : sim.Related (element :: agenda) trace other) :
    Paired sim.Failed (sim.Ended (PlanElement.rename f) element.vars agenda trace.calls)
      ((Compiler.elementWith nested (element.lift first.fresh number)).outcome trace)
      ((Compiler.elementWith further (element.lift second.fresh number)).outcome other) := by
  cases element with
  | query query =>
      refine (hnested query agenda trace other h).bind fun plan left plan' beside hended => ?_
      obtain ⟨hgrows, hrelated, hrename⟩ := hended
      exact .ended ⟨hgrows, hrelated, fun hfixes hsafe =>
        congrArg PlanElement.plan (hrename hfixes hsafe)⟩
  | triples triples =>
      have hreports := Compiler.reports_triples_lift first.fresh number triples
      have hothers := Compiler.reports_triples_lift second.fresh number triples
      simp only [Element.lift, Compiler.elementWith]
      rcases hreports.cases hothers with ⟨error, hfirst, hsecond⟩ |
        ⟨planned, planned', hfirst, hsecond⟩
      · rw [hfirst, hsecond]
        exact .failed ⟨_, h⟩
      · rw [hfirst, hsecond]
        refine .ended ⟨List.prefix_refl _, sim.triples h, fun hfixes _ => ?_⟩
        have hplans := TemplateTriple.mapM_plan_liftAll sim.fresh number hfixes
        rw [hfirst, hsecond] at hplans
        exact congrArg PlanElement.triples (Except.ok.inj hplans)

/-- What comes after other steps ends in relation to where these were started. -/
theorem Ended.after {α β : Type} {rename : α → α} {renameNext : β → β} {vars more : List Var}
    {before agenda : List Element} {start : List Call} {a a' : α} {b b' : β}
    {middle beside left other : Trace}
    (hbefore : sim.Ended rename vars before start a middle a' beside)
    (h : sim.Ended renameNext more agenda middle.calls b left b' other) :
    start <+: left.calls ∧ sim.Related agenda left other ∧
      (Fixes f (vars ++ more) → sim.Safe start left.calls → a' = rename a ∧ b' = renameNext b) := by
  obtain ⟨hstart, -, ha⟩ := hbefore
  obtain ⟨hgrows, hrelated, hb⟩ := h
  refine ⟨hstart.trans hgrows, hrelated, fun hfixes hsafe => ?_⟩
  obtain ⟨hvars, hmore⟩ := fixes_append.mp hfixes
  obtain ⟨hearly, hlate⟩ := sim.safe hsafe hstart hgrows
  exact ⟨ha hvars hearly, hb hmore hlate⟩

theorem paired_elements {nested further : Query → Run Plan}
    (hnested : ∀ query agenda trace other, sim.Related (.query query :: agenda) trace other →
      Paired sim.Failed (sim.Ended (Plan.rename f) query.vars agenda trace.calls)
        ((nested query).outcome trace) ((further query).outcome other))
    (number : Nat) {elements agenda : List Element} {trace other : Trace}
    (h : sim.Related (elements ++ agenda) trace other) :
    Paired sim.Failed
      (sim.Ended (PlanElement.renameAll f) (Element.varsAll elements) agenda trace.calls)
      (Run.outcome ((Element.liftAll first.fresh number elements).mapM
        (Compiler.elementWith nested)) trace)
      (Run.outcome ((Element.liftAll second.fresh number elements).mapM
        (Compiler.elementWith further)) other) := by
  induction elements generalizing number trace other with
  | nil => exact .ended ⟨List.prefix_refl _, h, fun _ _ => rfl⟩
  | cons element rest ih =>
      rw [Element.liftAll, Element.liftAll, List.mapM_cons, List.mapM_cons]
      refine (paired_elementWith hnested number h).bind
        fun planned middle planned' beside hhead => ?_
      refine (ih _ hhead.2.1).bind fun others left others' left' hrest => ?_
      obtain ⟨hgrows, hrelated, hrename⟩ := hhead.after hrest
      refine .ended ⟨hgrows, hrelated, fun hfixes hsafe => ?_⟩
      obtain ⟨hplanned, hothers⟩ := hrename hfixes hsafe
      rw [hplanned, hothers, PlanElement.renameAll]

/-- Compilations that start with related traces, to the same number of levels, are paired: the plan
that one makes is the other one's, renamed. -/
theorem paired_planWithin (sim : Simulation first second f) (levels : Nat) (isTop : Bool)
    {query : Query} {agenda : List Element} {trace other : Trace}
    (h : sim.Related (.query query :: agenda) trace other) :
    Paired sim.Failed (sim.Ended (Plan.rename f) query.vars agenda trace.calls)
      ((first.planWithin levels isTop query).outcome trace)
      ((second.planWithin levels isTop query).outcome other) := by
  induction levels generalizing isTop query agenda trace other with
  | zero => exact .abandoned
  | succ levels ih =>
      rw [Compiler.planWithin_succ, Compiler.planWithin_succ]
      refine (sim.opened h).bind fun answer middle answer' beside hopened => ?_
      obtain ⟨rfl, hstart, hrelated, hanswer⟩ := hopened
      have hnumber := sim.drawn hrelated
      -- Both lift the answer with variables of the same numbers.
      rw [Run.outcome_bind_of_ok (Query.outcome_liftNext first.fresh answer' middle),
        Run.outcome_bind_of_ok (Query.outcome_liftNext second.fresh answer' beside), hnumber]
      have hlifted := sim.draw (middle.drawn + answer'.embeddedCount) hrelated
      have hfirst := Query.bindings_lift first.fresh middle.drawn answer' isTop
      have hsecond := Query.bindings_lift second.fresh middle.drawn answer' isTop
      cases hbindings : answer'.bindings isTop with
      | error error =>
          rw [Compiler.planLifted_of_error _ _ (hfirst.trans hbindings),
            Compiler.planLifted_of_error _ _ (hsecond.trans hbindings)]
          exact .failed ⟨_, hlifted⟩
      | ok bindings =>
          rw [Compiler.planLifted_of_ok _ _ (hfirst.trans hbindings),
            Compiler.planLifted_of_ok _ _ (hsecond.trans hbindings), Query.elements_lift,
            Query.elements_lift]
          refine (paired_elements (fun _ _ _ _ hquery => ih false hquery) middle.drawn hlifted).bind
            fun planned left planned' left' hplanned => ?_
          obtain ⟨hgrows, hleft, hrename⟩ := hplanned
          refine .ended ⟨hstart.trans hgrows, hleft, fun hfixes hsafe => ?_⟩
          obtain ⟨hearly, hlate⟩ := sim.safe hsafe hstart hgrows
          have hfixed := hanswer hfixes hearly
          have helements : Fixes f (Element.varsAll answer'.elements) := by
            rw [Element.varsAll_eq_flatMap]
            exact hfixed.mono answer'.flatMap_vars_elements_subset
          rw [hrename helements hlate]
          exact (Compiler.rename_node_lift sim.base sim.fresh middle.drawn hfixed hbindings
            planned).symm

end Simulation

end SparqlGenerate
