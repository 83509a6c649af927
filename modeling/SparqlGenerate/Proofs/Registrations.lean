import SparqlGenerate.Proofs.FirstFault
import SparqlGenerate.Proofs.PlanTree
import SparqlGenerate.Registry
import Mathlib.Data.List.Dedup
import Mathlib.Data.List.Induction

/-!
# What a registry holds

A registry is what a sequence of attempts to register queries has made of it. Some attempts succeed
and some fail, and several may be for one name, each with a compiler of its own. Under a name there
is the plan of the last attempt that succeeded for it, so the attempts that failed need not be
known.

Calls are looked up under the name of what they call. So it does not matter for a call in a plan
whether that plan was registered before the plan that it calls, after it, or is that plan itself.
-/

namespace SparqlGenerate

namespace Registry

/-! ## Plans put under names -/

/-- The names that have a plan. -/
def names (registry : Registry) : List Iri :=
  registry.entries.map Prod.fst

/-- The registry with each of the plans put under its name, one after the other. -/
def insertAll (registry : Registry) (plans : List (Iri × Plan)) : Registry :=
  plans.foldl (fun registry entry => registry.insert entry.1 entry.2) registry

theorem names_insert (registry : Registry) (name : Iri) (plan : Plan) :
    (registry.insert name plan).names = name :: registry.names.filter (· != name) := by
  simp only [names, insert, List.map_cons, List.filter_map]
  rfl

theorem insertAll_concat (registry : Registry) (plans : List (Iri × Plan)) (entry : Iri × Plan) :
    registry.insertAll (plans ++ [entry]) = (registry.insertAll plans).insert entry.1 entry.2 := by
  rw [insertAll, List.foldl_append]
  rfl

theorem insertAll_append (registry : Registry) (first second : List (Iri × Plan)) :
    registry.insertAll (first ++ second) = (registry.insertAll first).insertAll second :=
  List.foldl_append

/-- Under a name there is the last plan that was put there. -/
theorem get?_insertAll (plans : List (Iri × Plan)) (name : Iri) :
    (empty.insertAll plans).get? name = plans.reverse.lookup name := by
  induction plans using List.reverseRecOn with
  | nil => rfl
  | append_singleton plans entry ih =>
      obtain ⟨own, plan⟩ := entry
      rw [insertAll_concat, List.reverse_concat, List.lookup_cons]
      by_cases hname : name = own
      · subst hname
        simp
      · have hother : (name == own) = false := by simp [hname]
        rw [get?_insert_of_ne _ plan hname, ih, hother]

theorem mem_names_insertAll {plans : List (Iri × Plan)} {name : Iri} :
    name ∈ (empty.insertAll plans).names ↔ name ∈ plans.map Prod.fst := by
  induction plans using List.reverseRecOn with
  | nil => rfl
  | append_singleton plans entry ih =>
      rw [insertAll_concat, names_insert, List.mem_cons, List.mem_filter, ih, List.map_append,
        List.mem_append]
      by_cases hname : name = entry.1 <;> simp [hname]

/-- A name occurs once. -/
theorem nodup_names_insertAll (plans : List (Iri × Plan)) :
    (empty.insertAll plans).names.Nodup := by
  induction plans using List.reverseRecOn with
  | nil => exact List.nodup_nil
  | append_singleton plans entry ih =>
      rw [insertAll_concat, names_insert, List.nodup_cons]
      exact ⟨by simp, ih.filter _⟩

theorem size_insertAll (plans : List (Iri × Plan)) :
    (empty.insertAll plans).size = (plans.map Prod.fst).dedup.length := by
  have hsame : (empty.insertAll plans).names.Perm (plans.map Prod.fst).dedup :=
    (List.perm_ext_iff_of_nodup (nodup_names_insertAll plans) (List.nodup_dedup _)).mpr fun name =>
      by rw [mem_names_insertAll, List.mem_dedup]
  rw [← hsame.length_eq, names, List.length_map]
  rfl

end Registry

/-! ## Attempts -/

/-- An attempt to register the query, with the compiler and from the trace. -/
structure Attempt where
  compiler : Compiler
  query : Query
  trace : Trace

namespace Attempt

/-- The plan that the attempt makes, with the name that the query is given with. -/
def made? (attempt : Attempt) : Option (Iri × Plan) :=
  match attempt.query.name with
  | none => none
  | some name =>
    match (attempt.compiler.compileNested attempt.query).outcome attempt.trace with
    | some (.ok plan, _) => some (name, plan)
    | _ => none

/-- The attempt is turned down at once, or its compilation ends. -/
def Ends (attempt : Attempt) : Prop :=
  attempt.query.name = none ∨
    ∃ ended, (attempt.compiler.compileNested attempt.query).outcome attempt.trace = some ended

theorem eq_of_made? {attempt : Attempt} {name : Iri} {plan : Plan}
    (h : attempt.made? = some (name, plan)) :
    attempt.query.name = some name ∧ ∃ left,
      (attempt.compiler.compileNested attempt.query).outcome attempt.trace =
        some (.ok plan, left) := by
  unfold made? at h
  split at h
  next => cases h
  next own hname =>
    split at h
    next found left hrun =>
      cases h
      exact ⟨hname, left, hrun⟩
    next => cases h

/-- Without a parser each attempt ends. -/
theorem ends_of_none {attempt : Attempt} (hparser : attempt.compiler.parser = none) :
    attempt.Ends := by
  obtain ⟨result, left, hrun, -⟩ := Compiler.reports_planWithin hparser
    (attempt.compiler.levelsFor attempt.query) false (Nat.le_add_right _ _) attempt.trace
  exact Or.inr ⟨_, hrun⟩

end Attempt

/-- The registry after the attempt, which is the registry before it if the attempt fails. There is
none if the attempt does not end. -/
def Registry.after (registry : Registry) (attempt : Attempt) : Option Registry :=
  ((registry.register attempt.compiler attempt.query).outcome attempt.trace).map fun ended =>
    match ended.1 with
    | .ok next => next
    | .error _ => registry

namespace Registry

/-- An attempt that ends puts the plan that it makes into the registry, and does nothing else. -/
theorem after_eq {attempt : Attempt} (h : attempt.Ends) (registry : Registry) :
    registry.after attempt = some (registry.insertAll attempt.made?.toList) := by
  unfold after Attempt.made? register
  cases hname : attempt.query.name with
  | none => rfl
  | some name =>
      obtain ⟨⟨result, left⟩, hrun⟩ := h.resolve_left (by simp [hname])
      simp only [Run.outcome_bind, hrun]
      cases result <;> rfl

theorem ends_of_after {registry next : Registry} {attempt : Attempt}
    (h : registry.after attempt = some next) : attempt.Ends := by
  unfold after register at h
  split at h
  next hname => exact Or.inl hname
  next name hname =>
    rw [Run.outcome_bind] at h
    cases hrun : (attempt.compiler.compileNested attempt.query).outcome attempt.trace with
    | none =>
        rw [hrun] at h
        cases h
    | some ended => exact Or.inr ⟨ended, hrun⟩

/-- An attempt that returns a registry has made a plan, which is all that is new in it. -/
theorem exists_made_of_outcome_register {registry next : Registry} {attempt : Attempt}
    {left : Trace}
    (h : (registry.register attempt.compiler attempt.query).outcome attempt.trace =
      some (.ok next, left)) :
    ∃ name plan, attempt.made? = some (name, plan) ∧ attempt.query.name = some name ∧
      next = registry.insert name plan := by
  unfold register at h
  split at h
  next => cases h
  next name hname =>
    obtain ⟨plan, middle, hrun, h⟩ := Run.exists_of_outcome_bind h
    refine ⟨name, plan, ?_, hname, Run.eq_of_outcome_pure h⟩
    unfold Attempt.made?
    rw [hname, hrun]

/-- An attempt that returns an error has made no plan. -/
theorem made?_of_outcome_register {registry : Registry} {attempt : Attempt} {left : Trace}
    {error : CompileError}
    (h : (registry.register attempt.compiler attempt.query).outcome attempt.trace =
      some (.error error, left)) : attempt.made? = none := by
  cases hname : attempt.query.name with
  | none => simp only [Attempt.made?, hname]
  | some name =>
      simp only [register, hname] at h
      rw [Run.outcome_bind, Option.bind_eq_some_iff] at h
      obtain ⟨⟨result, middle⟩, hrun, h⟩ := h
      simp only [Attempt.made?, hname, hrun]
      cases result with
      | ok plan => cases h
      | error error => rfl

/-- The registry after the attempts, one after the other. -/
def afterAll (registry : Registry) (attempts : List Attempt) : Option Registry :=
  attempts.foldlM after registry

theorem afterAll_eq {attempts : List Attempt} (h : ∀ attempt ∈ attempts, attempt.Ends)
    (registry : Registry) :
    registry.afterAll attempts =
      some (registry.insertAll (attempts.filterMap Attempt.made?)) := by
  induction attempts generalizing registry with
  | nil => rfl
  | cons attempt rest ih =>
      obtain ⟨hattempt, hrest⟩ := List.forall_mem_cons.mp h
      rw [afterAll, List.foldlM_cons, after_eq hattempt]
      refine (ih hrest _).trans ?_
      rw [← insertAll_append]
      cases hmade : attempt.made? with
      | none => rw [List.filterMap_cons_none hmade]; rfl
      | some entry => rw [List.filterMap_cons_some hmade]; rfl

theorem ends_of_afterAll {attempts : List Attempt} {registry last : Registry}
    (h : registry.afterAll attempts = some last) : ∀ attempt ∈ attempts, attempt.Ends := by
  induction attempts generalizing registry with
  | nil => exact fun _ hmem => absurd hmem List.not_mem_nil
  | cons attempt rest ih =>
      rw [afterAll, List.foldlM_cons] at h
      obtain ⟨next, hnext, hrest⟩ := Option.bind_eq_some_iff.mp h
      exact List.forall_mem_cons.mpr ⟨ends_of_after hnext, ih hrest⟩

end Registry

/-! ## Plans that are made -/

namespace Compiler

/-- The parser, if there is one, reads a query again as a query of the same name. -/
def KeepsNames (compiler : Compiler) : Prop :=
  ∀ parser log query answer, compiler.parser = some parser →
    parser.answer log (compiler.rereadCall query) = .ok answer → answer.name = query.name

theorem KeepsNames.name_of_compiles {compiler : Compiler} (hkeeps : compiler.KeepsNames)
    {query source : Query} (h : compiler.Compiles query source) : source.name = query.name := by
  cases h with
  | same => rfl
  | lifted _ hanswer =>
      rw [Query.name_lift]
      unfold RereadsAs at hanswer
      split at hanswer
      next => rw [hanswer]
      next parser hparser =>
        obtain ⟨log, hanswer⟩ := hanswer
        exact hkeeps parser log query _ hparser hanswer

end Compiler

/-- A plan that is fit to be called: it is not top level, and none of its nodes has an embedded
expression left. -/
structure Plan.Callable (plan : Plan) : Prop where
  nested : plan.isTop = false
  lifted : ∀ node ∈ plan.nodes, node.source.embeddings = []

theorem Attempt.callable_of_made? {attempt : Attempt} {name : Iri} {plan : Plan}
    (h : attempt.made? = some (name, plan)) :
    plan.Callable ∧ (attempt.compiler.KeepsNames → plan.source.name = some name) := by
  obtain ⟨hname, left, hrun⟩ := eq_of_made? h
  have htree : attempt.compiler.MakesTree false attempt.query plan :=
    Compiler.makesTree_of_outcome_planWithin hrun
  refine ⟨⟨htree.root, fun node hnode => (htree.mirrors node hnode).lifted⟩, fun hkeeps => ?_⟩
  rw [hkeeps.name_of_compiles htree.source, hname]

/-! ## Registries -/

/-- What the registry holds once the attempts are over. -/
structure Registry.Holds (registry : Registry) (attempts : List Attempt) : Prop where
  /-- The plan of the last attempt that made one for the name. -/
  plans : ∀ name,
    registry.get? name = (attempts.filterMap Attempt.made?).reverse.lookup name
  size : registry.size = ((attempts.filterMap Attempt.made?).map Prod.fst).dedup.length
  callable : ∀ name plan, registry.get? name = some plan → plan.Callable
  named : (∀ attempt ∈ attempts, attempt.compiler.KeepsNames) →
    ∀ name plan, registry.get? name = some plan → plan.source.name = some name
  /-- What a call finds, in whichever plan it stands and whenever that was registered. -/
  calls : ∀ call, registry.resolve? call =
    match call.name with
    | .iri callee => (attempts.filterMap Attempt.made?).reverse.lookup callee
    | .var _ => none

namespace Registry

theorem eq_insertAll_of_afterAll {attempts : List Attempt} {registry : Registry}
    (h : empty.afterAll attempts = some registry) :
    registry = empty.insertAll (attempts.filterMap Attempt.made?) :=
  Option.some.inj (h.symm.trans (afterAll_eq (ends_of_afterAll h) empty))

/-- What is found under a name was made by one of the attempts. -/
theorem exists_made_of_get? {attempts : List Attempt} {name : Iri} {plan : Plan}
    (h : (empty.insertAll (attempts.filterMap Attempt.made?)).get? name = some plan) :
    ∃ attempt ∈ attempts, attempt.made? = some (name, plan) := by
  rw [get?_insertAll, List.lookup_eq_some_iff] at h
  obtain ⟨before, after, hplans, -⟩ := h
  have hmem : (name, plan) ∈ attempts.filterMap Attempt.made? := by
    rw [← List.mem_reverse, hplans]
    exact List.mem_append_right _ List.mem_cons_self
  exact List.mem_filterMap.mp hmem

theorem holds_of_afterAll {attempts : List Attempt} {registry : Registry}
    (h : empty.afterAll attempts = some registry) : registry.Holds attempts := by
  obtain rfl := eq_insertAll_of_afterAll h
  refine ⟨get?_insertAll _, size_insertAll _, fun name plan hplan => ?_,
    fun hkeeps name plan hplan => ?_, fun call => ?_⟩
  · obtain ⟨attempt, -, hmade⟩ := exists_made_of_get? hplan
    exact (Attempt.callable_of_made? hmade).1
  · obtain ⟨attempt, hattempt, hmade⟩ := exists_made_of_get? hplan
    exact (Attempt.callable_of_made? hmade).2 (hkeeps attempt hattempt)
  · unfold resolve?
    cases call.name with
    | iri callee => exact get?_insertAll _ callee
    | var => rfl

/-! ## The order of the attempts -/

/-- For each name the same plans are made, and in the same order. The plans of different names may
take turns in any way. -/
def SamePlans (attempts others : List Attempt) : Prop :=
  ∀ name, (attempts.filterMap Attempt.made?).filter (·.1 == name) =
    (others.filterMap Attempt.made?).filter (·.1 == name)

/-- Nothing but the entries of a name is looked at to find it. -/
theorem lookup_filter_self (name : Iri) (entries : List (Iri × Plan)) :
    (entries.filter (·.1 == name)).lookup name = entries.lookup name := by
  induction entries with
  | nil => rfl
  | cons entry rest ih =>
      obtain ⟨own, plan⟩ := entry
      by_cases hname : own = name
      · simp [hname]
      · have hother : (name == own) = false := by simpa using Ne.symm hname
        simpa [List.lookup_cons, hname, hother] using ih

theorem SamePlans.lookup_eq {attempts others : List Attempt} (h : SamePlans attempts others)
    (name : Iri) :
    (attempts.filterMap Attempt.made?).reverse.lookup name =
      (others.filterMap Attempt.made?).reverse.lookup name := by
  rw [← lookup_filter_self, List.filter_reverse, h name, ← List.filter_reverse,
    lookup_filter_self]

theorem mem_map_fst_iff {plans : List (Iri × Plan)} {name : Iri} :
    name ∈ plans.map Prod.fst ↔ plans.filter (·.1 == name) ≠ [] := by
  simp [List.filter_eq_nil_iff]

/-- The registries answer alike. -/
structure Agrees (registry last : Registry) : Prop where
  get? : ∀ name, last.get? name = registry.get? name
  resolve? : ∀ call, last.resolve? call = registry.resolve? call
  size : last.size = registry.size

/-- Attempts that make the same plans for each name end with registries that answer alike. -/
theorem SamePlans.registries_agree {attempts others : List Attempt}
    (h : SamePlans attempts others) {registry last : Registry}
    (hregistry : empty.afterAll attempts = some registry)
    (hlast : empty.afterAll others = some last) : registry.Agrees last := by
  have hget : ∀ name, last.get? name = registry.get? name := by
    intro name
    rw [(holds_of_afterAll hlast).plans, (holds_of_afterAll hregistry).plans, h.lookup_eq]
  refine ⟨hget, fun call => ?_, ?_⟩
  · unfold resolve?
    cases call.name with
    | iri callee => exact hget callee
    | var => rfl
  · rw [(holds_of_afterAll hlast).size, (holds_of_afterAll hregistry).size]
    refine ((List.perm_ext_iff_of_nodup (List.nodup_dedup _) (List.nodup_dedup _)).mpr
      fun name => ?_).length_eq
    rw [List.mem_dedup, List.mem_dedup, mem_map_fst_iff, mem_map_fst_iff, h name]

/-- What becomes of the attempts, each of them and all together. -/
structure KeepsLast (attempts : List Attempt) : Prop where
  ends : (∀ attempt ∈ attempts, attempt.compiler.parser = none ∨ attempt.Ends) →
    ∃ registry, empty.afterAll attempts = some registry
  holds : ∀ registry, empty.afterAll attempts = some registry → registry.Holds attempts
  succeeds : ∀ (registry : Registry) (attempt : Attempt) next left,
    (registry.register attempt.compiler attempt.query).outcome attempt.trace =
      some (.ok next, left) →
    registry.after attempt = some next ∧ ∃ name plan, attempt.made? = some (name, plan) ∧
      attempt.query.name = some name ∧ next = registry.insert name plan
  fails : ∀ (registry : Registry) (attempt : Attempt) error left,
    (registry.register attempt.compiler attempt.query).outcome attempt.trace =
      some (.error error, left) →
    registry.after attempt = some registry ∧ attempt.made? = none
  /-- The attempts for different names may be made in any order. -/
  reordered : ∀ others registry last, SamePlans attempts others →
    empty.afterAll attempts = some registry → empty.afterAll others = some last →
      registry.Agrees last

/-- After any attempts a registry holds, under each name, the plan of the last attempt that
succeeded for it, and no more names than these. An attempt that fails changes nothing. Calls find
what they call by name, so that the attempts for different names may be made in any order. -/
theorem registry_holds_last_plans (attempts : List Attempt) : KeepsLast attempts where
  ends hattempts := by
    refine ⟨_, afterAll_eq ?_ empty⟩
    intro attempt hattempt
    exact (hattempts attempt hattempt).elim Attempt.ends_of_none id
  holds _ := holds_of_afterAll
  succeeds registry attempt next left h := by
    refine ⟨?_, exists_made_of_outcome_register h⟩
    rw [after, h]
    rfl
  fails registry attempt error left h := by
    refine ⟨?_, made?_of_outcome_register h⟩
    rw [after, h]
    rfl
  reordered _ _ _ hsame := hsame.registries_agree

/-- A query of the first name, with a call of the second one. -/
def callingQuery (name callee : Iri) : Query :=
  { Query.generate [.query (.ofForm (.call (.iri callee) []))] with name := some name }

/-- Two queries that call each other, and a faulty attempt to replace the first one. -/
def mutualAttempts : List Attempt :=
  [⟨{}, callingQuery ⟨"a"⟩ ⟨"b"⟩, {}⟩, ⟨{}, callingQuery ⟨"b"⟩ ⟨"a"⟩, {}⟩,
    ⟨{}, { callingQuery ⟨"a"⟩ ⟨"a"⟩ with clauses := [.iterator (.var ⟨"x"⟩) []] }, {}⟩]

/-- The two plans are there whichever is registered first, and each finds the other one. -/
theorem mutual_calls_resolved :
    ∃ registry last first second, empty.afterAll mutualAttempts = some registry ∧
      empty.afterAll mutualAttempts.reverse = some last ∧ registry.size = 2 ∧ last.size = 2 ∧
      registry.get? ⟨"a"⟩ = some first ∧ registry.get? ⟨"b"⟩ = some second ∧
      last.resolve? ⟨none, .iri ⟨"a"⟩, []⟩ = some first ∧
      last.resolve? ⟨none, .iri ⟨"b"⟩, []⟩ = some second ∧
      first.source.name = some ⟨"a"⟩ ∧ first.Callable := by
  obtain ⟨registry, last, hregistry, hlast⟩ : ∃ registry last,
      empty.afterAll mutualAttempts = some registry ∧
        empty.afterAll mutualAttempts.reverse = some last := ⟨_, _, rfl, rfl⟩
  obtain ⟨first, second, hmade, hback⟩ : ∃ first second,
      mutualAttempts.filterMap Attempt.made? = [(⟨"a"⟩, first), (⟨"b"⟩, second)] ∧
        mutualAttempts.reverse.filterMap Attempt.made? = [(⟨"b"⟩, second), (⟨"a"⟩, first)] :=
    ⟨_, _, rfl, rfl⟩
  have hsame : SamePlans mutualAttempts mutualAttempts.reverse := by
    intro name
    rw [hmade, hback]
    by_cases hname : name = ⟨"a"⟩
    · subst hname
      rfl
    · simp [List.filter_cons, Ne.symm hname]
  have hkeeps : ∀ attempt ∈ mutualAttempts, attempt.compiler.KeepsNames := by
    simp [mutualAttempts, Compiler.KeepsNames]
  have hkept := registry_holds_last_plans mutualAttempts
  obtain ⟨hplans, hsize, hcallable, hnamed, -⟩ := hkept.holds registry hregistry
  obtain ⟨-, hresolve, hsizes⟩ := hkept.reordered _ registry last hsame hregistry hlast
  have hfirst : registry.get? ⟨"a"⟩ = some first := by
    rw [hplans, hmade]
    rfl
  have hsecond : registry.get? ⟨"b"⟩ = some second := by
    rw [hplans, hmade]
    rfl
  have htwo : registry.size = 2 := by
    rw [hsize, hmade]
    rfl
  exact ⟨registry, last, first, second, hregistry, hlast, htwo, hsizes.trans htwo, hfirst, hsecond,
    (hresolve _).trans hfirst, (hresolve _).trans hsecond, hnamed hkeeps _ _ hfirst,
    hcallable _ _ hfirst⟩

end Registry

end SparqlGenerate
