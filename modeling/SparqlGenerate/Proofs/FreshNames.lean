import SparqlGenerate.Proofs.ParserCalls
import SparqlGenerate.Proofs.Simulation

/-!
# Fresh names do not matter

Which variables a compilation draws has no influence on what it asks the parser, on how it ends, or
on the shape of its plan. The reason is that a lifted query is never written as text again, and that
its fresh variables stand only where nothing is checked any more.

That two plans are the same up to their fresh names takes names that are fresh for the query and
for the replies that the parser gives in this compilation. Replies that it might have given to
other calls do not matter: a parser that repeats what it is given would answer with any variable.
-/

namespace SparqlGenerate

/-! ## Variables of replies -/

namespace Compiler

/-- All variables of the replies that the parser gave between the logs have the property. -/
def AllReplyVars (compiler : Compiler) (P : Var → Prop) (start finish : List Call) : Prop :=
  ∀ call reply, compiler.Answered call (.ok reply) start finish → ∀ v ∈ reply.vars, P v

variable {compiler : Compiler} {P : Var → Prop}

theorem AllReplyVars.narrow {start before after finish : List Call}
    (h : compiler.AllReplyVars P start finish) (hstart : start <+: before)
    (hfinish : after <+: finish) : compiler.AllReplyVars P before after :=
  fun call reply hanswer => h call reply (hanswer.widen hstart hfinish)

theorem AllReplyVars.imp {Q : Var → Prop} {start finish : List Call}
    (h : compiler.AllReplyVars P start finish) (himp : ∀ v, P v → Q v) :
    compiler.AllReplyVars Q start finish :=
  fun call reply hanswer v hv => himp v (h call reply hanswer v hv)

/-- What is compiled in place of a query is the query or a reply. -/
theorem Opens.forall_vars {query answer : Query} {log left : List Call}
    (h : compiler.Opens query log (.ok answer) left) (hquery : ∀ v ∈ query.vars, P v)
    (hreplies : compiler.AllReplyVars P log left) : ∀ v ∈ answer.vars, P v := by
  cases h with
  | plain | unread => exact hquery
  | answered _ _ hparser hanswer => exact hreplies _ answer (answered_append hparser hanswer)

end Compiler

/-! ## Variables in faults -/

/-- The variables of the part of a query that a fault is about. -/
def Fault.vars : Fault → List Var
  | .iteratorNotCall value | .notLifted value => value.vars
  | .sourceNotName term | .acceptNotName term | .predicateNotName term => term.vars
  | .iteratorWithoutVars | .noParser | .notCall | .notGenerate | .notNamed
  | .roundsExhausted _ _ | .notReduced _ _ => []

/-- A term that is not a name is not a variable either. -/
theorem Term.vars_eq_nil {term : Term} (h : term.toVarOrIri? = none) : term.vars = [] := by
  cases term with
  | iri | var => cases h
  | blank | literal => rfl

theorem Clause.HasFault.vars_subset {clause : Clause} {fault : Fault} (h : clause.HasFault fault) :
    fault.vars ⊆ clause.vars := by
  cases h with
  | noVars => exact List.nil_subset _
  | notCall => exact List.subset_append_left _ _
  | document hname | accept hname =>
      rw [Fault.vars, Term.vars_eq_nil hname]
      exact List.nil_subset _

theorem Query.vars_subset_of_mem_clauseFaults {query : Query} {fault : Fault}
    (h : fault ∈ query.clauseFaults) : fault.vars ⊆ query.vars := by
  obtain ⟨clause, hclause, hfault⟩ := Query.exists_hasFault h
  intro v hv
  have hmem : v ∈ query.clauses.flatMap Clause.vars :=
    List.mem_flatMap.mpr ⟨clause, hclause, hfault.vars_subset hv⟩
  obtain ⟨form, base, dataset, name, signature, clauses, pattern⟩ := query
  exact List.mem_append_left _ (List.mem_append_right _ hmem)

theorem TemplateTriple.vars_eq_nil_of_mem_faultsAll {triples : List TemplateTriple} {fault : Fault}
    (h : fault ∈ faultsAll triples) : fault.vars = [] := by
  obtain ⟨term, rfl, hname⟩ := eq_of_mem_faultsAll h
  exact Term.vars_eq_nil hname

namespace Compiler

variable {compiler : Compiler} {P : Var → Prop}

/-- The error is a fault all of whose variables have the property, or what the parser failed with
between the logs. -/
def ErrorMentions (compiler : Compiler) (P : Var → Prop) (start finish : List Call)
    (error : CompileError) : Prop :=
  (∃ fault, error = .fault fault ∧ ∀ v ∈ fault.vars, P v) ∨
    ∃ call failure, compiler.Answered call (.error failure) start finish ∧
      error = failure.toError call.text

theorem ErrorMentions.widen {start before after finish : List Call} {error : CompileError}
    (h : compiler.ErrorMentions P before after error) (hstart : start <+: before)
    (hfinish : after <+: finish) : compiler.ErrorMentions P start finish error := by
  refine h.imp_right ?_
  rintro ⟨call, failure, hanswer, herror⟩
  exact ⟨call, failure, hanswer.widen hstart hfinish, herror⟩

/-- A walk comes across the variables of its agenda and of the replies, and across no others. -/
theorem Walks.forall_vars {agenda : List Element} {log left : List Call} {visited : List Query}
    {ending : Option CompileError} (h : compiler.Walks agenda log visited ending left)
    (hagenda : ∀ element ∈ agenda, ∀ v ∈ element.vars, P v)
    (hreplies : compiler.AllReplyVars P log left) :
    (∀ node ∈ visited, ∀ v ∈ node.vars, P v) ∧
      ∀ error, ending = some error → compiler.ErrorMentions P log left error := by
  induction h with
  | done => exact ⟨nofun, nofun⟩
  | triples _ _ ih => exact ih (List.forall_mem_of_forall_mem_cons hagenda) hreplies
  | faultyTriples hfaults =>
      refine ⟨nofun, ?_⟩
      rintro _ ⟨⟩
      have hnone := TemplateTriple.vars_eq_nil_of_mem_faultsAll (hfaults ▸ List.mem_cons_self)
      exact Or.inl ⟨_, rfl, by simp [hnone]⟩
  | @query query answer agenda log middle left visited ending hopens _ hrest ih =>
      obtain ⟨hquery, hagenda⟩ := List.forall_mem_cons.mp hagenda
      have hmiddle : log <+: middle := hopens.calls_eq ▸ List.prefix_append log _
      have hanswer : ∀ v ∈ answer.vars, P v := hopens.forall_vars hquery
        (hreplies.narrow (List.prefix_refl log) hrest.isPrefix)
      have hnext : ∀ element ∈ answer.elements ++ agenda, ∀ v ∈ element.vars, P v := by
        refine List.forall_mem_append.mpr ⟨fun element helement v hv => ?_, hagenda⟩
        exact hanswer v (answer.flatMap_vars_elements_subset
          (List.mem_flatMap.mpr ⟨element, helement, hv⟩))
      obtain ⟨hvisited, hending⟩ := ih hnext (hreplies.narrow hmiddle (List.prefix_refl left))
      refine ⟨List.forall_mem_cons.mpr ⟨hquery, hvisited⟩, fun error herror => ?_⟩
      exact (hending error herror).widen hmiddle (List.prefix_refl left)
  | @faultyClauses query answer agenda log left fault further hopens hfaults =>
      have hquery := hagenda _ List.mem_cons_self
      refine ⟨List.forall_mem_singleton.mpr hquery, ?_⟩
      rintro _ ⟨⟩
      have hsubset : fault.vars ⊆ answer.vars :=
        Query.vars_subset_of_mem_clauseFaults (hfaults ▸ List.mem_cons_self)
      exact Or.inl ⟨fault, rfl, fun v hv => hopens.forall_vars hquery hreplies v (hsubset hv)⟩
  | unopened hopens =>
      refine ⟨List.forall_mem_singleton.mpr (hagenda _ List.mem_cons_self), ?_⟩
      rintro _ ⟨⟩
      cases hopens with
      | exhausted => exact Or.inl ⟨_, rfl, by simp [Fault.vars]⟩
      | refused _ _ hparser hanswer =>
          exact Or.inr ⟨_, _, answered_append hparser hanswer, by rw [text_rereadCall]⟩

/-- Each call made along a walk is about a query that was visited. -/
theorem Walks.exists_of_madeBetween {agenda : List Element} {log left earlier : List Call}
    {visited : List Query} {ending : Option CompileError}
    (h : compiler.Walks agenda log visited ending left) {call : Call}
    (hmade : call.MadeBetween log left earlier) :
    ∃ node ∈ visited, call = compiler.rereadCall node := by
  obtain ⟨⟨passed, rfl⟩, hfinish⟩ := hmade
  rw [h.calls_eq, List.append_assoc, List.prefix_append_right_inj] at hfinish
  have hmem := hfinish.subset (List.mem_append_right passed List.mem_cons_self)
  obtain ⟨node, hnode, rfl⟩ := List.mem_map.mp hmem
  exact ⟨node, (List.mem_filter.mp hnode).1, rfl⟩

end Compiler

/-! ## Requests -/

/-- What a compiler may be asked for. -/
inductive Request where
  /-- The plan of a query that is run on its own. -/
  | whole (query : Query)
  /-- The plan of a query that is part of another one, or is called by one. -/
  | nested (query : Query)
  /-- The plan of the query that the parser reads in the text. -/
  | text (text : String)

/-- The variables that the request comes with. Those of a text are known once it is parsed. -/
def Request.vars : Request → List Var
  | .whole query | .nested query => query.vars
  | .text _ => []

namespace Compiler

def plan (compiler : Compiler) : Request → Run Plan
  | .whole query => compiler.compile query
  | .nested query => compiler.compileNested query
  | .text text => compiler.compileText text

/-! ## What the outside learns -/

/-- Nothing but variables with the property is mentioned in the calls made between the logs, other
than to parse the text that was given, nor in the error that a request ends with. -/
structure MentionsOnly (compiler : Compiler) (P : Var → Prop) (request : Request)
    (start finish : List Call) (ending : Option CompileError) : Prop where
  calls : ∀ call earlier, call.MadeBetween start finish earlier →
    (∃ text, request = .text text ∧ call = .query text compiler.base) ∨
      ∃ node, call = compiler.rereadCall node ∧ ∀ v ∈ node.vars, P v
  error : ∀ error, ending = some error → compiler.ErrorMentions P start finish error

variable {compiler : Compiler} {P : Var → Prop}

theorem mentionsOnly_of_walks {query : Query} {log left : List Call} {visited : List Query}
    {ending : Option CompileError} (h : compiler.Walks [.query query] log visited ending left)
    (hquery : ∀ v ∈ query.vars, P v) (hreplies : compiler.AllReplyVars P log left)
    (request : Request) : compiler.MentionsOnly P request log left ending := by
  obtain ⟨hvisited, herror⟩ := h.forall_vars (List.forall_mem_singleton.mpr hquery) hreplies
  refine ⟨fun call earlier hmade => ?_, herror⟩
  obtain ⟨node, hnode, hcall⟩ := h.exists_of_madeBetween hmade
  exact Or.inr ⟨node, hcall, hvisited node hnode⟩

theorem mentionsOnly_of_outcome_compileText {text : String} {trace left : Trace}
    {result : Except CompileError Plan}
    (h : (compiler.compileText text).outcome trace = some (result, left))
    (hreplies : compiler.AllReplyVars P trace.calls left.calls) :
    compiler.MentionsOnly P (.text text) trace.calls left.calls (errorIn result) := by
  rcases Option.eq_none_or_eq_some compiler.parser with hparser | ⟨parser, hparser⟩
  · rw [compileText_of_none hparser] at h
    cases h
    refine ⟨fun call earlier hmade => absurd hmade Call.not_madeBetween_self, ?_⟩
    rintro _ ⟨⟩
    exact Or.inl ⟨_, rfl, nofun⟩
  · rw [compileText_of_some hparser, Run.outcome_bind, Parser.outcome_ask] at h
    have hcall := List.prefix_append trace.calls [.query text compiler.base]
    cases hanswer : parser.answer trace.calls (.query text compiler.base) with
    | error failure =>
        rw [hanswer] at h
        cases h
        refine ⟨fun call earlier hmade => ?_, ?_⟩
        · rcases hmade.eq_or_after (List.prefix_refl _) with ⟨-, rfl⟩ | hafter
          · exact Or.inl ⟨text, rfl, rfl⟩
          · exact absurd hafter Call.not_madeBetween_self
        · rintro _ ⟨⟩
          exact Or.inr ⟨_, failure, answered_append hparser hanswer, rfl⟩
    | ok query =>
        rw [hanswer] at h
        obtain ⟨visited, hwalk, -⟩ := compiler.follows_planWithin _ true query _ _ _ h
        have hread := (answered_append hparser hanswer).widen (List.prefix_refl _) hwalk.isPrefix
        have hafter := mentionsOnly_of_walks hwalk (hreplies _ query hread)
          (hreplies.narrow hcall (List.prefix_refl _)) (.text text)
        refine ⟨fun call earlier hmade => ?_, fun error herror => ?_⟩
        · rcases hmade.eq_or_after hwalk.isPrefix with ⟨-, rfl⟩ | hlater
          · exact Or.inl ⟨text, rfl, rfl⟩
          · exact hafter.calls call earlier hlater
        · exact (hafter.error error herror).widen hcall (List.prefix_refl _)

/-- Nothing is mentioned but the variables of the request and of the replies. -/
theorem mentionsOnly_of_outcome_plan {request : Request} {trace left : Trace}
    {result : Except CompileError Plan}
    (h : (compiler.plan request).outcome trace = some (result, left))
    (hrequest : ∀ v ∈ request.vars, P v)
    (hreplies : compiler.AllReplyVars P trace.calls left.calls) :
    compiler.MentionsOnly P request trace.calls left.calls (errorIn result) := by
  cases request with
  | text text => exact mentionsOnly_of_outcome_compileText h hreplies
  | whole query =>
      obtain ⟨visited, hwalk, -⟩ := compiler.follows_planWithin _ true query _ _ _ h
      exact mentionsOnly_of_walks hwalk hrequest hreplies _
  | nested query =>
      obtain ⟨visited, hwalk, -⟩ := compiler.follows_planWithin _ false query _ _ _ h
      exact mentionsOnly_of_walks hwalk hrequest hreplies _

/-! ## Two supplies -/

variable {first second : Supply} {f : Var → Var}

/-- Queries are opened without any look at the fresh variables. -/
def freshSimulation (compiler : Compiler) (hsupply : ∀ number, f (first number) = second number) :
    Simulation { compiler with fresh := first } { compiler with fresh := second } f where
  Related _ trace other := trace = other
  Safe := compiler.AllReplyVars fun v => f v = v
  base := rfl
  fresh := hsupply
  drawn h := congrArg Trace.drawn h.symm
  draw number h := by rw [h]
  triples h := h
  safe h hstart hfinish := ⟨h.narrow (List.prefix_refl _) hfinish,
    h.narrow hstart (List.prefix_refl _)⟩
  opened {query agenda trace other} h := by
    subst h
    have hsame : opened { compiler with fresh := second } query =
      opened { compiler with fresh := first } query := rfl
    rw [hsame]
    cases hrun : (opened { compiler with fresh := first } query).outcome trace with
    | none => exact .abandoned
    | some ended =>
        obtain ⟨result, left⟩ := ended
        obtain ⟨hopens, -⟩ := opens_of_outcome_opened hrun
        cases result with
        | error error => exact .failed ⟨[], rfl⟩
        | ok answer =>
            have hgrows : trace.calls <+: left.calls :=
              hopens.calls_eq ▸ List.prefix_append trace.calls _
            refine .ended ⟨rfl, hgrows, rfl, fun hfixes hsafe => ?_⟩
            exact hopens.forall_vars hfixes hsafe

theorem paired_compile (compiler : Compiler)
    (hsupply : ∀ number, f (first number) = second number) (levels : Nat) (isTop : Bool)
    (query : Query) (trace : Trace) :
    Paired (compiler.freshSimulation hsupply).Failed
      ((compiler.freshSimulation hsupply).Ended (Plan.rename f) query.vars [] trace.calls)
      ((planWithin { compiler with fresh := first } levels isTop query).outcome trace)
      ((planWithin { compiler with fresh := second } levels isTop query).outcome trace) :=
  Simulation.paired_planWithin _ levels isTop rfl

theorem paired_compileText (compiler : Compiler)
    (hsupply : ∀ number, f (first number) = second number) (text : String) (trace : Trace) :
    Paired (compiler.freshSimulation hsupply).Failed
      ((compiler.freshSimulation hsupply).Ended (Plan.rename f) [] [] trace.calls)
      ((compileText { compiler with fresh := first } text).outcome trace)
      ((compileText { compiler with fresh := second } text).outcome trace) := by
  rcases Option.eq_none_or_eq_some compiler.parser with hparser | ⟨parser, hparser⟩
  · have hfirst : { compiler with fresh := first }.parser = none := hparser
    have hsecond : { compiler with fresh := second }.parser = none := hparser
    rw [compileText_of_none hfirst, compileText_of_none hsecond]
    exact .failed ⟨[], rfl⟩
  · have hfirst : { compiler with fresh := first }.parser = some parser := hparser
    have hsecond : { compiler with fresh := second }.parser = some parser := hparser
    rw [compileText_of_some hfirst, compileText_of_some hsecond, Run.outcome_bind,
      Run.outcome_bind, Parser.outcome_ask]
    cases hanswer : parser.answer trace.calls (.query text compiler.base) with
    | error failure => exact .failed ⟨[], rfl⟩
    | ok query =>
        refine (paired_compile compiler hsupply _ true query _).mono
          fun plan left plan' other hended => ?_
        obtain ⟨hgrows, hrelated, hrename⟩ := hended
        have hcall := List.prefix_append trace.calls [.query text compiler.base]
        refine ⟨hcall.trans hgrows, hrelated, fun _ hsafe => ?_⟩
        have hread := (answered_append hparser hanswer).widen (List.prefix_refl _) hgrows
        exact hrename (hsafe _ query hread) (hsafe.narrow hcall (List.prefix_refl _))

/-- Under two supplies, a request leads to the same calls, and to results that are the same up to
the fresh variables. -/
theorem paired_plan (compiler : Compiler) (hsupply : ∀ number, f (first number) = second number)
    (request : Request) (trace : Trace) :
    Paired (compiler.freshSimulation hsupply).Failed
      ((compiler.freshSimulation hsupply).Ended (Plan.rename f) request.vars [] trace.calls)
      ((plan { compiler with fresh := first } request).outcome trace)
      ((plan { compiler with fresh := second } request).outcome trace) := by
  cases request with
  | whole query => exact paired_compile compiler hsupply _ true query trace
  | nested query => exact paired_compile compiler hsupply _ false query trace
  | text text => exact paired_compileText compiler hsupply text trace

end Compiler

namespace Supply

/-- The variable is not drawn from the supply. -/
def Lacks (fresh : Supply) (v : Var) : Prop :=
  ∀ number, fresh number ≠ v

/-- The renaming that takes the variables of the first supply to those of the same numbers of the
second one, and no others. -/
noncomputable def mapTo (first second : Supply) : Var → Var :=
  Function.extend first second id

variable {first : Supply}

theorem mapTo_apply (h : Function.Injective first) (second : Supply) (number : Nat) :
    first.mapTo second (first number) = second number :=
  h.extend_apply second id number

theorem mapTo_of_lacks {v : Var} (h : first.Lacks v) (second : Supply) :
    first.mapTo second v = v := by
  refine Function.extend_apply' second id v ?_
  rintro ⟨number, hnumber⟩
  exact h number hnumber

end Supply

namespace Compiler

variable {compiler : Compiler} {first : Supply}

/-- A request leads to the same end under the second supply, with its variables in the place of
those of the first one. -/
theorem outcome_plan_rename (hfirst : Function.Injective first) (second : Supply)
    {request : Request} (hrequest : ∀ v ∈ request.vars, first.Lacks v) {trace : Trace}
    (hreplies : ∀ result left,
      (plan { compiler with fresh := first } request).outcome trace = some (result, left) →
        compiler.AllReplyVars first.Lacks trace.calls left.calls) :
    (plan { compiler with fresh := second } request).outcome trace =
      ((plan { compiler with fresh := first } request).outcome trace).map
        fun (result, left) => (result.map (Plan.rename (first.mapTo second)), left) := by
  have hpaired := compiler.paired_plan (Supply.mapTo_apply hfirst second) request trace
  generalize (plan { compiler with fresh := first } request).outcome trace = reached
    at hpaired hreplies ⊢
  generalize (plan { compiler with fresh := second } request).outcome trace = arrived
    at hpaired ⊢
  cases hpaired with
  | abandoned => rfl
  | failed hfailed =>
      obtain ⟨-, rfl⟩ := hfailed
      rfl
  | ended hended =>
      obtain ⟨-, rfl, hrename⟩ := hended
      have hfixes : Fixes (first.mapTo second) request.vars := fun v hv =>
        Supply.mapTo_of_lacks (hrequest v hv) second
      have hsafe : compiler.AllReplyVars (fun v => first.mapTo second v = v) trace.calls _ :=
        fun call reply hanswer v hv => Supply.mapTo_of_lacks
          (hreplies _ _ rfl call reply hanswer v hv) second
      rw [hrename hfixes hsafe]
      rfl

/-- The request ends in the same way with either supply, but for the names of its variables. -/
structure IgnoresNames (compiler : Compiler) (first second : Supply) (request : Request)
    (trace : Trace) : Prop where
  forth : (plan { compiler with fresh := second } request).outcome trace =
    ((plan { compiler with fresh := first } request).outcome trace).map
      fun (result, left) => (result.map (Plan.rename (first.mapTo second)), left)
  back : (plan { compiler with fresh := first } request).outcome trace =
    ((plan { compiler with fresh := second } request).outcome trace).map
      fun (result, left) => (result.map (Plan.rename (second.mapTo first)), left)
  exchanged : ∀ number, first.mapTo second (first number) = second number ∧
    second.mapTo first (second number) = first number
  mentions : ∀ result left,
    (plan { compiler with fresh := first } request).outcome trace = some (result, left) →
      MentionsOnly { compiler with fresh := first } first.Lacks request trace.calls left.calls
        (errorIn result)

/-- Two supplies of variables that are fresh for a request, and for the replies given on the way,
lead to the same calls, the same error, and the same plan up to the variables of the supplies. What
the parser is asked and what the error is about mention no fresh variable. -/
theorem compilation_ignores_fresh_names (compiler : Compiler) {first second : Supply}
    (hfirst : Function.Injective first) (hsecond : Function.Injective second) (request : Request)
    (hrequest : ∀ v ∈ request.vars, first.Lacks v ∧ second.Lacks v) (trace : Trace)
    (hreplies : ∀ result left,
      (plan { compiler with fresh := first } request).outcome trace = some (result, left) →
        compiler.AllReplyVars (fun v => first.Lacks v ∧ second.Lacks v) trace.calls left.calls) :
    compiler.IgnoresNames first second request trace := by
  have hforth := outcome_plan_rename hfirst second (fun v hv => (hrequest v hv).1)
    fun result left h => (hreplies result left h).imp fun _ hlacks => hlacks.1
  have hback := outcome_plan_rename hsecond first (fun v hv => (hrequest v hv).2)
    fun result left h => by
      -- The calls are the same under the second supply, so the replies are.
      rw [hforth, Option.map_eq_some_iff] at h
      obtain ⟨⟨result, left⟩, hrun, hsame⟩ := h
      cases hsame
      exact (hreplies result left hrun).imp fun _ hlacks => hlacks.2
  refine ⟨hforth, hback, fun number => ?_, fun result left hrun => ?_⟩
  · exact ⟨Supply.mapTo_apply hfirst second number, Supply.mapTo_apply hsecond first number⟩
  · exact mentionsOnly_of_outcome_plan hrun (fun v hv => (hrequest v hv).1)
      ((hreplies result left hrun).imp fun _ hlacks => hlacks.1)

end Compiler

/-- The variables named by the label and a tally of their numbers. -/
def Supply.tally (label : String) : Supply :=
  fun number => ⟨label ++ String.ofList (List.replicate number '_')⟩

theorem Supply.tally_injective (label : String) : Function.Injective (tally label) := by
  intro number other h
  have hlength := congrArg (fun v : Var => v.name.length) h
  simpa [tally] using hlength

theorem Supply.tally_lacks {label : String} {v : Var} (h : v.name.length < label.length) :
    (tally label).Lacks v := by
  rintro number rfl
  simp only [tally, String.length_append] at h
  omega

namespace Compiler

/-- The compiler whose parser answers once, with a query that has two embedded expressions. -/
def namingCompiler : Compiler where
  parser := some (.ofReplies [.query namingQuery] (.foreign "no reply is left"))

/-- The plan with other names is the plan with these names exchanged. -/
theorem compilation_ignores_labels : ∃ plan left,
    (Compiler.plan { namingCompiler with fresh := .tally "fresh" } (.whole askedWhole)).outcome
      {} = some (.ok plan, left) ∧
    (Compiler.plan { namingCompiler with fresh := .tally "other" } (.whole askedWhole)).outcome
      {} = some (.ok (plan.rename ((Supply.tally "fresh").mapTo (.tally "other"))), left) := by
  obtain ⟨plan, left, hrun⟩ : ∃ plan left,
      (Compiler.plan { namingCompiler with fresh := .tally "fresh" } (.whole askedWhole)).outcome
        {} = some (.ok plan, left) := ⟨_, _, rfl⟩
  -- The names that occur are single letters.
  have hlacks : ∀ v : Var, v.name.length < 5 →
      (Supply.tally "fresh").Lacks v ∧ (Supply.tally "other").Lacks v :=
    fun v hv => ⟨Supply.tally_lacks hv, Supply.tally_lacks hv⟩
  have hasked : ∀ v ∈ askedWhole.vars, v.name.length < 5 := by decide
  have hnaming : ∀ v ∈ namingQuery.vars, v.name.length < 5 := by decide
  have hreplies : ∀ start finish,
      namingCompiler.AllReplyVars (fun v => v.name.length < 5) start finish := by
    rintro start finish call reply ⟨parser, earlier, hparser, -, hanswer⟩
    cases hparser
    cases earlier with
    | nil =>
        cases hanswer
        exact hnaming
    | cons => cases hanswer
  have hboth := compilation_ignores_fresh_names namingCompiler (Supply.tally_injective "fresh")
    (Supply.tally_injective "other") (.whole askedWhole) (fun v hv => hlacks v (hasked v hv)) {}
    fun result left _ => (hreplies _ _).imp hlacks
  refine ⟨plan, left, hrun, ?_⟩
  rw [hboth.forth, hrun]
  rfl

end Compiler

end SparqlGenerate
