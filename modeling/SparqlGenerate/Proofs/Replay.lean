import SparqlGenerate.Proofs.FreshNames

/-!
# Compilations from other traces

A compilation depends on the trace that it starts from in two ways. The number of the variables
drawn before says which ones are drawn next, and the parser may remember the calls made before. If
it does not, the trace has no influence but on names: started from another trace, a compilation
makes the same calls, and ends with the same plan up to the variables that it draws.
-/

namespace SparqlGenerate

/-! ## Supplies that are in use -/

namespace Supply

/-- The supply without its first variables. -/
def drop (fresh : Supply) (start : Nat) : Supply :=
  fun number => fresh (start + number)

variable {fresh : Supply}

theorem drop_injective (h : Function.Injective fresh) (start : Nat) :
    Function.Injective (fresh.drop start) :=
  fun _ _ hsame => Nat.add_left_cancel (h hsame)

/-- What is not drawn from some number on is not drawn later either. -/
theorem Lacks.of_le {start later : Nat} {v : Var} (h : (fresh.drop start).Lacks v)
    (hle : start ≤ later) : (fresh.drop later).Lacks v := by
  intro number
  obtain ⟨further, rfl⟩ := Nat.exists_eq_add_of_le hle
  have hother := h (further + number)
  rwa [drop, ← Nat.add_assoc] at hother

end Supply

theorem TemplateTerm.lift_drop (fresh : Supply) (start number : Nat) (term : TemplateTerm) :
    term.lift (fresh.drop start) number = term.lift fresh (start + number) := by
  cases term <;> rfl

theorem TemplateTriple.lift_drop (fresh : Supply) (start number : Nat) (triple : TemplateTriple) :
    triple.lift (fresh.drop start) number = triple.lift fresh (start + number) := by
  simp only [lift, TemplateTerm.lift_drop, Nat.add_assoc]

theorem TemplateTriple.liftAll_drop (fresh : Supply) (start number : Nat)
    (triples : List TemplateTriple) :
    liftAll (fresh.drop start) number triples = liftAll fresh (start + number) triples := by
  induction triples generalizing number with
  | nil => rfl
  | cons triple rest ih => rw [liftAll, liftAll, lift_drop, ih, Nat.add_assoc]

theorem Element.lift_drop (fresh : Supply) (start number : Nat) (element : Element) :
    element.lift (fresh.drop start) number = element.lift fresh (start + number) := by
  cases element with
  | triples triples =>
      exact congrArg Element.triples (TemplateTriple.liftAll_drop fresh start number triples)
  | query nested => rfl

theorem Element.liftAll_drop (fresh : Supply) (start number : Nat) (elements : List Element) :
    liftAll (fresh.drop start) number elements = liftAll fresh (start + number) elements := by
  induction elements generalizing number with
  | nil => rfl
  | cons element rest ih => rw [liftAll, liftAll, lift_drop, ih, Nat.add_assoc]

theorem Supply.assign_drop (fresh : Supply) (start number : Nat) (values : List Expr) :
    (fresh.drop start).assign number values = fresh.assign (start + number) values := by
  induction values generalizing number with
  | nil => rfl
  | cons value rest ih => rw [assign, assign, ih, Nat.add_assoc, drop]

/-- The variables of a supply in use are those of later numbers. -/
theorem Query.lift_drop (fresh : Supply) (start number : Nat) (query : Query) :
    query.lift (fresh.drop start) number = query.lift fresh (start + number) := by
  unfold lift
  split
  · rw [Element.liftAll_drop, Supply.assign_drop]
  all_goals rfl

/-! ## Runs that are moved to other traces -/

namespace Run

variable {α β : Type} {move : Trace → Trace}

/-- What the second run does from a trace, the first one does from the trace that it is moved to. -/
def Moves (move : Trace → Trace) (first second : Run α) : Prop :=
  ∀ trace, first.outcome (move trace) =
    (second.outcome trace).map fun (result, left) => (result, move left)

theorem moves_ofExcept (move : Trace → Trace) (check : Except CompileError α) :
    Moves move (ofExcept check) (ofExcept check) :=
  fun _ => rfl

theorem moves_pure (move : Trace → Trace) (a : α) : Moves move (pure a : Run α) (pure a) :=
  fun _ => rfl

theorem Moves.bind {first second : Run α} {next further : α → Run β} (h : Moves move first second)
    (hnext : ∀ a, Moves move (next a) (further a)) :
    Moves move (first >>= next) (second >>= further) := by
  intro trace
  rw [outcome_bind, outcome_bind, h trace]
  cases second.outcome trace with
  | none => rfl
  | some ended =>
      obtain ⟨result, left⟩ := ended
      cases result with
      | error error => rfl
      | ok a => exact hnext a left

theorem moves_mapM {first second : α → Run β} {members : List α}
    (h : ∀ a ∈ members, Moves move (first a) (second a)) :
    Moves move (members.mapM first) (members.mapM second) := by
  induction members with
  | nil => exact moves_pure move []
  | cons a rest ih =>
      obtain ⟨ha, hrest⟩ := List.forall_mem_cons.mp h
      rw [List.mapM_cons, List.mapM_cons]
      exact ha.bind fun b => (ih hrest).bind fun bs => moves_pure move (b :: bs)

end Run

namespace Compiler

variable {move : Trace → Trace}

theorem moves_elementWith {nested further : Query → Run Plan} {element : Element}
    (h : ∀ query, element = .query query → (nested query).Moves move (further query)) :
    (elementWith nested element).Moves move (elementWith further element) := by
  cases element with
  | triples triples => exact (Run.moves_ofExcept move _).bind fun _ => Run.moves_pure move _
  | query query => exact (h query rfl).bind fun _ => Run.moves_pure move _

/-- The plan of a lifted query is moved if the plans of the queries nested in it are. -/
theorem moves_planLifted {first second : Compiler} (hbase : first.base = second.base)
    {nested further : Query → Run Plan} {source : Query}
    (h : ∀ query, .query query ∈ source.elements → (nested query).Moves move (further query))
    (isTop : Bool) :
    (first.planLifted nested isTop source).Moves move
      (second.planLifted further isTop source) := by
  have houtput : first.outputOf source = second.outputOf source := by
    unfold outputOf baseOf
    rw [hbase]
  unfold planLifted
  rw [houtput]
  refine (Run.moves_ofExcept move _).bind fun bindings => ?_
  refine (Run.moves_mapM fun element helement => moves_elementWith ?_).bind fun planned =>
    Run.moves_pure move _
  rintro query rfl
  exact h query helement

end Compiler

/-! ## Compilations started later -/

/-- The trace, if so many more variables had been drawn before. -/
def Trace.later (start : Nat) (trace : Trace) : Trace :=
  { trace with drawn := start + trace.drawn }

namespace Compiler

/-- The compiler without the first variables of its supply. -/
def dropping (compiler : Compiler) (start : Nat) : Compiler :=
  { compiler with fresh := compiler.fresh.drop start }

/-- A query is opened without a look at what was drawn. -/
theorem moves_opened_later (compiler : Compiler) (start : Nat) (query : Query) :
    (compiler.opened query).Moves (Trace.later start) (compiler.opened query) := by
  unfold opened reread
  split
  · exact Run.moves_pure _ query
  · split
    · exact fun _ => rfl
    · split
      · exact Run.moves_pure _ query
      · exact fun _ => rfl

theorem moves_liftNext_later (fresh : Supply) (start : Nat) (query : Query) :
    (query.liftNext fresh).Moves (Trace.later start) (query.liftNext (fresh.drop start)) := by
  intro trace
  simp only [Query.outcome_liftNext, Trace.later, Query.lift_drop, Option.map_some, Nat.add_assoc]

/-- A compilation that is started later draws the later variables. -/
theorem moves_planWithin_later (compiler : Compiler) (start levels : Nat) (isTop : Bool)
    (query : Query) :
    (compiler.planWithin levels isTop query).Moves (Trace.later start)
      ((compiler.dropping start).planWithin levels isTop query) := by
  induction levels generalizing isTop query with
  | zero => exact fun _ => rfl
  | succ levels ih =>
      have hopened : (compiler.dropping start).opened query = compiler.opened query := rfl
      have hbase : compiler.base = (compiler.dropping start).base := rfl
      rw [planWithin_succ, planWithin_succ, hopened]
      refine (compiler.moves_opened_later start query).bind fun answer => ?_
      refine (moves_liftNext_later compiler.fresh start answer).bind fun source => ?_
      exact moves_planLifted hbase (fun nested _ => ih false nested) isTop

/-! ## Parsers without memory -/

/-- The parser, if there is one, answers a call without regard to the calls made before. -/
def Memoryless (compiler : Compiler) : Prop :=
  ∀ parser log other call, compiler.parser = some parser →
    parser.answer log call = parser.answer other call

variable {compiler : Compiler}

/-- What a compilation finds at a query it finds there after any other calls. -/
theorem Opens.replay (hmemoryless : compiler.Memoryless) {query : Query} {log left : List Call}
    {result : Except CompileError Query} (h : compiler.Opens query log result left)
    (other : List Call) :
    ∃ made, left = log ++ made ∧ compiler.Opens query other result (other ++ made) := by
  cases h with
  | plain hcount => exact ⟨[], by simp, by simpa using .plain hcount⟩
  | exhausted hcount hrounds => exact ⟨[], by simp, by simpa using .exhausted hcount hrounds⟩
  | unread hcount hrounds hparser =>
      exact ⟨[], by simp, by simpa using .unread hcount hrounds hparser⟩
  | answered hcount hrounds hparser hanswer =>
      rw [hmemoryless _ log other _ hparser] at hanswer
      exact ⟨_, rfl, .answered hcount hrounds hparser hanswer⟩
  | refused hcount hrounds hparser hanswer =>
      rw [hmemoryless _ log other _ hparser] at hanswer
      exact ⟨_, rfl, .refused hcount hrounds hparser hanswer⟩

/-- The replies to the same calls are the same, whatever was called before. -/
theorem AllReplyVars.replay (hmemoryless : compiler.Memoryless) {P : Var → Prop}
    {log made : List Call} (h : compiler.AllReplyVars P log (log ++ made)) (other : List Call) :
    compiler.AllReplyVars P other (other ++ made) := by
  rintro call reply ⟨parser, earlier, hparser, ⟨⟨passed, rfl⟩, hfinish⟩, hanswer⟩
  rw [List.append_assoc, List.prefix_append_right_inj] at hfinish
  refine h call reply ⟨parser, log ++ passed, hparser, ⟨List.prefix_append _ _, ?_⟩, ?_⟩
  · rwa [List.append_assoc, List.prefix_append_right_inj]
  · rw [← hanswer]
    exact hmemoryless parser _ _ call hparser

variable {first second : Supply} {f : Var → Var}

/-- Two runs after different calls, with a parser that remembers neither. -/
def replaySimulation (hmemoryless : compiler.Memoryless)
    (hsupply : ∀ number, f (first number) = second number) (log other : List Call) :
    Simulation { compiler with fresh := first } { compiler with fresh := second } f where
  Related _ trace beside := beside.drawn = trace.drawn ∧
    ∃ made, trace.calls = log ++ made ∧ beside.calls = other ++ made
  Safe := compiler.AllReplyVars fun v => f v = v
  base := rfl
  fresh := hsupply
  drawn h := h.1
  draw number h := ⟨rfl, h.2⟩
  triples h := h
  safe h hstart hfinish := ⟨h.narrow (List.prefix_refl _) hfinish,
    h.narrow hstart (List.prefix_refl _)⟩
  opened {query agenda trace beside} h := by
    obtain ⟨hdrawn, made, htrace, hbeside⟩ := h
    have hfirst : opened { compiler with fresh := first } query = compiler.opened query := rfl
    have hsecond : opened { compiler with fresh := second } query = compiler.opened query := rfl
    rw [hfirst, hsecond]
    obtain ⟨result, left, hopens⟩ := compiler.exists_opens query trace.calls
    obtain ⟨more, rfl, hagain⟩ := hopens.replay hmemoryless beside.calls
    rw [outcome_opened_of_opens hopens, outcome_opened_of_opens hagain]
    have hlogs : ∃ made, trace.calls ++ more = log ++ made ∧
        beside.calls ++ more = other ++ made :=
      ⟨made ++ more, by rw [htrace, List.append_assoc], by rw [hbeside, List.append_assoc]⟩
    cases result with
    | error error => exact .failed ⟨[], hdrawn, hlogs⟩
    | ok answer =>
        refine .ended ⟨rfl, List.prefix_append _ _, ⟨hdrawn, hlogs⟩, fun hfixes hsafe => ?_⟩
        exact hopens.forall_vars hfixes hsafe

/-! ## Replays -/

/-- The renaming that takes the variables drawn from the one trace on to those drawn from the other
one on. -/
noncomputable def replayed (compiler : Compiler) (trace other : Trace) : Var → Var :=
  (compiler.fresh.drop trace.drawn).mapTo (compiler.fresh.drop other.drawn)

theorem replayed_apply (hfresh : Function.Injective compiler.fresh) (trace other : Trace)
    (number : Nat) :
    compiler.replayed trace other (compiler.fresh (trace.drawn + number)) =
      compiler.fresh (other.drawn + number) :=
  Supply.mapTo_apply (Supply.drop_injective hfresh trace.drawn) _ number

theorem fixes_replayed {trace : Trace} {vars : List Var}
    (h : ∀ v ∈ vars, (compiler.fresh.drop trace.drawn).Lacks v) (other : Trace) :
    Fixes (compiler.replayed trace other) vars :=
  fun v hv => Supply.mapTo_of_lacks (h v hv) _

/-- A compilation that has a plan has one from any other trace. It makes the same calls there and
draws as many variables, and the plan is the same but for these, if they are new. -/
theorem exists_replays (hmemoryless : compiler.Memoryless)
    (hfresh : Function.Injective compiler.fresh) {levels : Nat} {isTop : Bool} {query : Query}
    {trace left : Trace} {plan : Plan}
    (h : (compiler.planWithin levels isTop query).outcome trace = some (.ok plan, left)) :
    ∃ count made, left = ⟨trace.drawn + count, trace.calls ++ made⟩ ∧ ∀ other, ∃ again,
      (compiler.planWithin levels isTop query).outcome other =
        some (.ok again, ⟨other.drawn + count, other.calls ++ made⟩) ∧
      ((∀ v ∈ query.vars, (compiler.fresh.drop trace.drawn).Lacks v) →
        compiler.AllReplyVars (compiler.fresh.drop trace.drawn).Lacks trace.calls left.calls →
        again = plan.rename (compiler.replayed trace other)) := by
  obtain ⟨visited, hwalk⟩ := exists_walks_of_outcome h
  obtain ⟨made, hmade⟩ := hwalk.isPrefix
  -- Both runs are moved to where nothing is drawn yet, with what is left of the supply.
  have hhere : (compiler.planWithin levels isTop query).outcome trace = _ :=
    compiler.moves_planWithin_later trace.drawn levels isTop query { trace with drawn := 0 }
  rw [h] at hhere
  obtain ⟨⟨result, reached⟩, hrun, hsame⟩ := Option.map_eq_some_iff.mp hhere.symm
  cases hsame
  refine ⟨reached.drawn, made, by rw [hmade]; rfl, fun other => ?_⟩
  have hthere : (compiler.planWithin levels isTop query).outcome other = _ :=
    compiler.moves_planWithin_later other.drawn levels isTop query { other with drawn := 0 }
  have hrelated : (replaySimulation hmemoryless (replayed_apply hfresh trace other)
      trace.calls other.calls).Related [.query query] { trace with drawn := 0 }
      { other with drawn := 0 } := ⟨rfl, [], by simp⟩
  have hpaired : Paired _ _ (((compiler.dropping trace.drawn).planWithin levels isTop query).outcome
      { trace with drawn := 0 }) (((compiler.dropping other.drawn).planWithin levels isTop
        query).outcome { other with drawn := 0 }) :=
    Simulation.paired_planWithin _ levels isTop hrelated
  rw [hrun] at hpaired
  generalize ((compiler.dropping other.drawn).planWithin levels isTop query).outcome
    { other with drawn := 0 } = arrived at hpaired hthere
  cases hpaired with
  | @ended _ again _ beside hended =>
      obtain ⟨-, ⟨hdrawn, others, hcalls, hothers⟩, hrename⟩ := hended
      obtain rfl : made = others := List.append_cancel_left (hmade.trans hcalls)
      refine ⟨again, ?_, fun hquery hreplies => hrename (fixes_replayed hquery other) ?_⟩
      · simp only [hthere, Option.map_some, Trace.later, hdrawn, hothers]
      · exact hreplies.imp fun v hv => Supply.mapTo_of_lacks hv _

end Compiler

end SparqlGenerate
