import SparqlGenerate.Proofs.ParserCalls
import SparqlGenerate.Registry

/-!
# The bound on the rounds

One round leaves no embedded expression, so a bound of one is as good as any other. With a bound of
zero a compilation stops at the first query that would need a round, and calls no parser on the way.

The errors that report a mistake of the compiler itself are left with this one cause, unless a
parser fails with such an error.
-/

namespace SparqlGenerate

/-! ## Internal errors -/

/-- The fault is reported as a mistake of the compiler itself. -/
def Fault.IsInternal (fault : Fault) : Prop :=
  ∃ detail, fault.report = .internal detail

/-- The error is reported as a mistake of the compiler itself. -/
def CompileError.IsInternal : CompileError → Prop
  | .fault cause => cause.IsInternal
  | .parse _ _ => False
  | .reported report => ∃ detail, report = .internal detail

/-- The parser's own words are not taken for an internal error. -/
theorem Failure.eq_own_of_isInternal {failure : Failure} {text : String}
    (h : (failure.toError text).IsInternal) : failure = .own (failure.toError text) := by
  cases failure with
  | foreign reason => cases h
  | own error => rfl

theorem Query.not_isInternal_of_mem_clauseFaults {query : Query} {fault : Fault}
    (h : fault ∈ query.clauseFaults) : ¬ fault.IsInternal := by
  obtain ⟨clause, -, hfault⟩ := Query.exists_hasFault h
  cases hfault <;> simp [Fault.IsInternal, Fault.report]

theorem TemplateTriple.not_isInternal_of_mem_faultsAll {triples : List TemplateTriple}
    {fault : Fault} (h : fault ∈ faultsAll triples) : ¬ fault.IsInternal := by
  obtain ⟨term, rfl, -⟩ := eq_of_mem_faultsAll h
  simp [Fault.IsInternal, Fault.report]

namespace Compiler

variable {compiler : Compiler}

/-! ## The walk without rounds -/

/-- Without rounds no query is replaced, and no call is made. -/
theorem Opens.eq_of_maxRounds_eq_zero (hrounds : compiler.maxRounds = 0) {query : Query}
    {log left : List Call} {result : Except CompileError Query}
    (h : compiler.Opens query log result left) : left = log ∧
      result = if query.embeddedCount = 0 then .ok query
        else .error (.fault (.roundsExhausted query.embeddedCount 0)) := by
  cases h with
  | plain hcount => exact ⟨rfl, (if_pos hcount).symm⟩
  | exhausted hcount => exact ⟨rfl, (if_neg hcount).symm⟩
  | unread _ hallowed => exact absurd hrounds hallowed
  | answered _ hallowed => exact absurd hrounds hallowed
  | refused _ hallowed => exact absurd hrounds hallowed

/-- The first of the visited queries that has an embedded expression is the last one visited, and
there the ending is that its expressions are left. If there is none, the ending is not internal. -/
def StopsAtEmbedding (visited : List Query) (ending : Option CompileError) : Prop :=
  match visited.find? Query.hasEmbeddings with
  | some node => visited.getLast? = some node ∧
      ending = some (.fault (.roundsExhausted node.embeddedCount 0))
  | none => ∀ error, ending = some error → ¬ error.IsInternal

theorem StopsAtEmbedding.cons {visited : List Query} {ending : Option CompileError}
    (h : StopsAtEmbedding visited ending) {query : Query} (hcount : query.embeddedCount = 0) :
    StopsAtEmbedding (query :: visited) ending := by
  unfold StopsAtEmbedding at h ⊢
  have hquery : ¬ query.hasEmbeddings = true := by simp [Query.hasEmbeddings, hcount]
  rw [List.find?_cons_of_neg hquery]
  cases hfind : visited.find? Query.hasEmbeddings with
  | none =>
      rw [hfind] at h
      exact h
  | some node =>
      rw [hfind] at h
      obtain ⟨hlast, hending⟩ := h
      exact ⟨by rw [List.getLast?_cons, hlast]; rfl, hending⟩

/-- Without rounds a walk stops at the first query with an embedded expression. -/
theorem Walks.stopsAtEmbedding (hrounds : compiler.maxRounds = 0) {agenda : List Element}
    {log left : List Call} {visited : List Query} {ending : Option CompileError}
    (h : compiler.Walks agenda log visited ending left) : StopsAtEmbedding visited ending := by
  induction h with
  | done => rintro _ ⟨⟩
  | triples _ _ ih => exact ih
  | faultyTriples hfaults =>
      rintro _ ⟨⟩
      exact TemplateTriple.not_isInternal_of_mem_faultsAll (hfaults ▸ List.mem_cons_self)
  | query hopens _ _ ih =>
      obtain ⟨-, hresult⟩ := hopens.eq_of_maxRounds_eq_zero hrounds
      split at hresult
      next hcount => exact ih.cons hcount
      next => cases hresult
  | @faultyClauses _ _ _ _ _ fault _ hopens hfaults =>
      obtain ⟨-, hresult⟩ := hopens.eq_of_maxRounds_eq_zero hrounds
      split at hresult
      next hcount =>
        have hclauses : ¬ CompileError.IsInternal (.fault fault) :=
          Query.not_isInternal_of_mem_clauseFaults (hfaults ▸ List.mem_cons_self)
        have hending : StopsAtEmbedding [] (some (.fault fault)) := by
          rintro _ ⟨⟩
          exact hclauses
        exact hending.cons hcount
      next => cases hresult
  | @unopened query _ _ _ _ hopens =>
      obtain ⟨-, hresult⟩ := hopens.eq_of_maxRounds_eq_zero hrounds
      split at hresult
      next => cases hresult
      next hcount =>
        obtain rfl := Except.error.inj hresult
        have hquery : query.hasEmbeddings = true := Query.hasEmbeddings_iff.mpr hcount
        simp [StopsAtEmbedding, List.find?_cons_of_pos hquery]

/-! ## Where internal errors come from -/

/-- The error is that no round is allowed, or the parser failed with it between the logs. -/
def HasOrigin (compiler : Compiler) (error : CompileError) (start finish : List Call) : Prop :=
  (compiler.maxRounds = 0 ∧ ∃ count, count ≠ 0 ∧ error = .fault (.roundsExhausted count 0)) ∨
    ∃ call, compiler.Answered call (.error (.own error)) start finish

theorem HasOrigin.of_later {error : CompileError} {start middle finish : List Call}
    (h : compiler.HasOrigin error middle finish) (hinitial : start <+: middle) :
    compiler.HasOrigin error start finish :=
  h.imp_right fun ⟨call, hanswer⟩ => ⟨call, hanswer.widen hinitial (List.prefix_refl finish)⟩

/-- A parser's failure that is an internal error is one that it reported as its own. -/
theorem hasOrigin_of_answer {parser : Parser} (hparser : compiler.parser = some parser)
    {log : List Call} {call : Call} {failure : Failure}
    (hanswer : parser.answer log call = .error failure)
    (hinternal : (failure.toError call.text).IsInternal) :
    compiler.HasOrigin (failure.toError call.text) log (log ++ [call]) := by
  rw [Failure.eq_own_of_isInternal hinternal] at hanswer
  exact .inr ⟨call, answered_append hparser hanswer⟩

theorem Walks.hasOrigin_of_isInternal {agenda : List Element} {log left : List Call}
    {visited : List Query} {ending : Option CompileError}
    (h : compiler.Walks agenda log visited ending left) {error : CompileError}
    (hending : ending = some error) (hinternal : error.IsInternal) :
    compiler.HasOrigin error log left := by
  induction h with
  | done => cases hending
  | triples _ _ ih => exact ih hending
  | faultyTriples hfaults =>
      cases hending
      have hmem := hfaults ▸ List.mem_cons_self
      exact absurd hinternal (TemplateTriple.not_isInternal_of_mem_faultsAll hmem)
  | @query query _ _ log middle _ _ _ hopens _ _ ih =>
      have hinitial : log <+: middle := hopens.calls_eq ▸ List.prefix_append log _
      exact (ih hending).of_later hinitial
  | faultyClauses _ hfaults =>
      cases hending
      have hmem := hfaults ▸ List.mem_cons_self
      exact absurd hinternal (Query.not_isInternal_of_mem_clauseFaults hmem)
  | unopened hopens =>
      cases hending
      cases hopens with
      | exhausted hcount hrounds => exact .inl ⟨hrounds, _, hcount, rfl⟩
      | refused hcount hrounds hparser hanswer =>
          have horigin := hasOrigin_of_answer hparser hanswer
          rw [text_rereadCall] at horigin
          exact horigin hinternal

/-! ## Compilers that open queries alike -/

/-- A compilation depends on its compiler only in how queries are opened, in the fresh variables
and in the base. -/
theorem planWithin_congr {first second : Compiler}
    (hopened : ∀ query, first.opened query = second.opened query)
    (hfresh : first.fresh = second.fresh) (hbase : first.base = second.base) (levels : Nat)
    (isTop : Bool) (query : Query) :
    first.planWithin levels isTop query = second.planWithin levels isTop query := by
  induction levels generalizing isTop query with
  | zero => rfl
  | succ levels ih =>
      have hlifted : first.planLifted = second.planLifted := by
        funext nested isTop source
        simp only [planLifted, outputOf, baseOf, hbase]
      have hnested : first.planWithin levels false = second.planWithin levels false :=
        funext (ih false)
      rw [planWithin_succ, planWithin_succ, hopened, hfresh, hlifted, hnested]

theorem compileText_congr {first second : Compiler}
    (hcompile : ∀ query, first.compile query = second.compile query)
    (hparser : first.parser = second.parser) (hbase : first.base = second.base) (text : String) :
    first.compileText text = second.compileText text := by
  unfold compileText
  rw [hparser, hbase, funext hcompile]

theorem register_congr {first second : Compiler}
    (hnested : ∀ query, first.compileNested query = second.compileNested query)
    (registry : Registry) (query : Query) :
    registry.register first query = registry.register second query := by
  unfold Registry.register
  rw [hnested]

/-- Where a round is allowed, it does not matter how many are. -/
theorem opened_rounds (compiler : Compiler) (rounds further : Nat) (query : Query) :
    opened { compiler with maxRounds := rounds + 1 } query =
      opened { compiler with maxRounds := further + 1 } query := by
  unfold opened
  rw [if_neg (Nat.succ_ne_zero rounds), if_neg (Nat.succ_ne_zero further)]
  rfl

theorem planWithin_rounds (compiler : Compiler) (rounds further levels : Nat) (isTop : Bool)
    (query : Query) :
    planWithin { compiler with maxRounds := rounds + 1 } levels isTop query =
      planWithin { compiler with maxRounds := further + 1 } levels isTop query :=
  planWithin_congr (compiler.opened_rounds rounds further) rfl rfl levels isTop query

/-- Without rounds it does not matter whether there is a parser. -/
theorem opened_of_maxRounds_eq_zero (hrounds : compiler.maxRounds = 0) (query : Query) :
    compiler.opened query = opened { compiler with parser := none } query := by
  unfold opened
  rw [if_pos hrounds, if_pos hrounds]

/-- A compilation of the query that visits the nodes and comes to the result makes no call, and
stops at the first node that would need a round. -/
structure StopsUncalled (compiler : Compiler) (query : Query) (trace left : Trace)
    (visited : List Query) (result : Except CompileError Plan) : Prop where
  calls : left.calls = trace.calls
  initial : visited <+: query.nodes
  walk : compiler.Walks [.query query] trace.calls visited (errorIn result) left.calls
  stops : StopsAtEmbedding visited (errorIn result)

/-- Without rounds a compilation always ends, and makes no call. -/
theorem exists_stopsUncalled_of_maxRounds_eq_zero (hrounds : compiler.maxRounds = 0) (isTop : Bool)
    (query : Query) (trace : Trace) :
    ∃ visited result left,
      (compiler.planWithin (compiler.levelsFor query) isTop query).outcome trace =
        some (result, left) ∧ compiler.StopsUncalled query trace left visited result := by
  have hlevels : query.depth ≤ compiler.levelsFor query := Nat.le_add_right _ _
  have hsame := planWithin_congr (opened_of_maxRounds_eq_zero hrounds) rfl rfl
    (compiler.levelsFor query) isTop query
  have hnone : { compiler with parser := none }.parser = none := rfl
  obtain ⟨result, left, hrun, -⟩ := reports_planWithin hnone _ isTop hlevels trace
  rw [← hsame] at hrun
  obtain ⟨visited, hwalk, -⟩ := compiler.follows_planWithin _ isTop query trace result left hrun
  refine ⟨visited, result, left, hrun, ?_, ?_, hwalk, hwalk.stopsAtEmbedding hrounds⟩
  · rw [hwalk.calls_eq]
    simp [asks, hrounds]
  · have hkeep : ∀ query log answer left,
        compiler.Opens query log (.ok answer) left → answer = query := by
      intro query log answer left hopens
      obtain ⟨-, hanswer⟩ := hopens.eq_of_maxRounds_eq_zero hrounds
      split at hanswer
      · exact Except.ok.inj hanswer
      · cases hanswer
    have hinitial := (hwalk.prefix_nodes hkeep).1
    simpa [Element.nodes] using hinitial

/-! ## Compilations -/

theorem embeddedCount_of_outcome_normalizeWithin {rounds : Nat} {query source : Query}
    {trace left : Trace}
    (h : (compiler.normalizeWithin rounds query).outcome trace = some (.ok source, left)) :
    source.embeddedCount = 0 := by
  by_cases hcount : query.embeddedCount = 0
  · rw [normalizeWithin_of_embeddedCount_eq_zero compiler rounds hcount] at h
    rw [Run.eq_of_outcome_pure h, hcount]
  · cases rounds with
    | zero =>
        rw [normalizeWithin, if_neg hcount] at h
        cases h
    | succ rounds =>
        rw [normalizeWithin_succ, if_neg hcount] at h
        obtain ⟨answer, middle, -, hlift⟩ := Run.exists_of_outcome_bind h
        rw [Query.eq_lift_of_outcome_liftNext hlift, Query.embeddedCount_lift]

theorem hasOrigin_of_outcome_planWithin {levels : Nat} {isTop : Bool} {query : Query}
    {trace left : Trace} {error : CompileError}
    (h : (compiler.planWithin levels isTop query).outcome trace = some (.error error, left))
    (hinternal : error.IsInternal) : compiler.HasOrigin error trace.calls left.calls := by
  obtain ⟨visited, hwalk, -⟩ := compiler.follows_planWithin levels isTop query trace _ left h
  exact hwalk.hasOrigin_of_isInternal rfl hinternal

theorem hasOrigin_of_outcome_compileText {text : String} {trace left : Trace}
    {error : CompileError}
    (h : (compiler.compileText text).outcome trace = some (.error error, left))
    (hinternal : error.IsInternal) : compiler.HasOrigin error trace.calls left.calls := by
  cases hparser : compiler.parser with
  | none =>
      rw [compileText_of_none hparser] at h
      cases h
      simp [CompileError.IsInternal, Fault.IsInternal, Fault.report] at hinternal
  | some parser =>
      rw [compileText_of_some hparser, Run.outcome_bind, Parser.outcome_ask] at h
      cases hanswer : parser.answer trace.calls (.query text compiler.base) with
      | error failure =>
          rw [hanswer] at h
          cases h
          exact hasOrigin_of_answer hparser hanswer hinternal
      | ok query =>
          rw [hanswer] at h
          have horigin := hasOrigin_of_outcome_planWithin h hinternal
          exact horigin.of_later (List.prefix_append _ _)

theorem hasOrigin_of_outcome_register {registry : Registry} {query : Query} {trace left : Trace}
    {error : CompileError}
    (h : (registry.register compiler query).outcome trace = some (.error error, left))
    (hinternal : error.IsInternal) : compiler.HasOrigin error trace.calls left.calls := by
  unfold Registry.register at h
  split at h
  next =>
    cases h
    simp [CompileError.IsInternal, Fault.IsInternal, Fault.report] at hinternal
  next name _ =>
    rw [Run.outcome_bind, Option.bind_eq_some_iff] at h
    obtain ⟨⟨result, middle⟩, hrun, h⟩ := h
    cases result with
    | ok plan => cases h
    | error error =>
        cases h
        exact hasOrigin_of_outcome_planWithin hrun hinternal

/-- Both compilers do the same, whatever is compiled. -/
structure CompilesAlike (first second : Compiler) (registry : Registry) (query : Query)
    (text : String) : Prop where
  compile : first.compile query = second.compile query
  compileNested : first.compileNested query = second.compileNested query
  compileText : first.compileText text = second.compileText text
  register : registry.register first query = registry.register second query

/-- What the bound on the rounds comes to. -/
structure NeedsOneRound (compiler : Compiler) (registry : Registry) (query : Query)
    (text : String) : Prop where
  one_round : ∀ rounds, compiler.normalizeWithin (rounds + 1) query =
    if query.embeddedCount = 0 then pure query
    else compiler.reread query >>= Query.liftNext compiler.fresh
  none_left : ∀ rounds trace source left,
    (compiler.normalizeWithin rounds query).outcome trace = some (.ok source, left) →
      source.embeddedCount = 0
  bounds_alike : ∀ rounds further,
    CompilesAlike { compiler with maxRounds := rounds + 1 }
      { compiler with maxRounds := further + 1 } registry query text
  without_rounds : ∀ run ∈ [compile { compiler with maxRounds := 0 } query,
      compileNested { compiler with maxRounds := 0 } query],
    ∀ trace, ∃ visited result left, run.outcome trace = some (result, left) ∧
      StopsUncalled { compiler with maxRounds := 0 } query trace left visited result
  report : ∀ count, (Fault.roundsExhausted count 0).report = .internal
    (toString count ++ " embedded expressions are left after 0 normalization rounds")
  /-- An internal error has this one cause, unless it is the parser's. -/
  origin : ∀ trace error left,
    ((compiler.compile query).outcome trace = some (.error error, left) ∨
      (compiler.compileNested query).outcome trace = some (.error error, left) ∨
      (compiler.compileText text).outcome trace = some (.error error, left) ∨
      (registry.register compiler query).outcome trace = some (.error error, left)) →
    error.IsInternal → compiler.HasOrigin error trace.calls left.calls

theorem compilesAlike_of_rounds (compiler : Compiler) (registry : Registry) (query : Query)
    (text : String) (rounds further : Nat) :
    CompilesAlike { compiler with maxRounds := rounds + 1 }
      { compiler with maxRounds := further + 1 } registry query text := by
  have hplan := compiler.planWithin_rounds rounds further
  have hcompile : ∀ query, compile { compiler with maxRounds := rounds + 1 } query =
      compile { compiler with maxRounds := further + 1 } query :=
    fun query => hplan (compiler.levelsFor query) true query
  have hnested : ∀ query, compileNested { compiler with maxRounds := rounds + 1 } query =
      compileNested { compiler with maxRounds := further + 1 } query :=
    fun query => hplan (compiler.levelsFor query) false query
  exact ⟨hcompile query, hnested query, compileText_congr hcompile rfl rfl text,
    register_congr hnested registry query⟩

/-- The loop that rids a query of its embedded expressions goes through one round at most and
leaves none, so all bounds but zero are alike. With a bound of zero a compilation makes no call of
the parser and fails at the first query that would need a round, if it comes to one. A compilation
has no other internal error, unless the parser reports one. -/
theorem one_round_suffices (compiler : Compiler) (registry : Registry) (query : Query)
    (text : String) : compiler.NeedsOneRound registry query text where
  one_round rounds := compiler.normalizeWithin_succ rounds query
  none_left _ _ _ _ := embeddedCount_of_outcome_normalizeWithin
  bounds_alike := compiler.compilesAlike_of_rounds registry query text
  without_rounds run hrun trace := by
    obtain ⟨isTop, rfl⟩ : ∃ isTop, run = planWithin { compiler with maxRounds := 0 }
        (levelsFor { compiler with maxRounds := 0 } query) isTop query := by
      rcases List.mem_pair.mp hrun with rfl | rfl
      · exact ⟨true, rfl⟩
      · exact ⟨false, rfl⟩
    exact exists_stopsUncalled_of_maxRounds_eq_zero rfl isTop query trace
  report count := by
    have hzero : Nat.repr 0 = "0" := rfl
    simp [Fault.report, String.append_assoc, hzero]
  origin trace error left herror hinternal := by
    rcases herror with hwhole | hnested | htext | hregistered
    · exact hasOrigin_of_outcome_planWithin hwhole hinternal
    · exact hasOrigin_of_outcome_planWithin hnested hinternal
    · exact hasOrigin_of_outcome_compileText htext hinternal
    · exact hasOrigin_of_outcome_register hregistered hinternal

end Compiler

end SparqlGenerate
