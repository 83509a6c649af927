import SparqlGenerate.Proofs.FollowedWalk

/-!
# The calls of a compilation

The log of a compilation is read off its walk: there is one call for each visited query with an
embedded expression, in the order of the visits, and no other call. What the call asks is the text
of that query as it was before it was lifted. A call that fails is the last one, and its failure is
the error of the compilation.

The parser may answer anything, so the walk is not known before the answers are.
-/

namespace SparqlGenerate

/-- Embedded expressions stand in templates only. -/
theorem Query.exists_form_eq_generate {query : Query} (h : query.hasEmbeddings = true) :
    ∃ elements, query.form = .generate elements := by
  cases hform : query.form with
  | generate elements => exact ⟨elements, rfl⟩
  | select | template | call =>
      simp [hasEmbeddings, embeddedCount, embeddings, elements?, hform] at h

namespace Compiler

variable {compiler : Compiler}

/-- Is the parser asked about the query when a compilation comes to it? -/
def asks (compiler : Compiler) (query : Query) : Bool :=
  query.hasEmbeddings && compiler.maxRounds != 0 && compiler.parser.isSome

theorem asks_eq_hasEmbeddings (hrounds : 1 ≤ compiler.maxRounds)
    (hparser : compiler.parser.isSome = true) : compiler.asks = Query.hasEmbeddings := by
  funext query
  have hallowed : compiler.maxRounds ≠ 0 := Nat.one_le_iff_ne_zero.mp hrounds
  simp [asks, hallowed, hparser]

/-- A query with an embedded expression is read again as a part of a query if it has parameters but
no name, and as a whole query otherwise. -/
theorem rereadCall_eq {query : Query} (h : query.hasEmbeddings = true) :
    compiler.rereadCall query =
      if query.name = none ∧ query.signature ≠ none then .subQuery query.text query
      else .query query.text (query.base <|> compiler.base) := by
  obtain ⟨elements, hform⟩ := query.exists_form_eq_generate h
  cases hname : query.name <;> cases hsignature : query.signature <;>
    simp [rereadCall, baseOf, hform, hname, hsignature]

/-! ## The log of a walk -/

theorem Opens.calls_eq {query : Query} {log left : List Call} {result : Except CompileError Query}
    (h : compiler.Opens query log result left) :
    left = log ++ ([query].filter compiler.asks).map compiler.rereadCall := by
  cases h with
  | plain hcount => simp [asks, Query.hasEmbeddings, hcount]
  | exhausted hcount hrounds => simp [asks, hrounds]
  | unread hcount hrounds hparser => simp [asks, hparser]
  | answered hcount hrounds hparser => simp [asks, Query.hasEmbeddings, hcount, hrounds, hparser]
  | refused hcount hrounds hparser => simp [asks, Query.hasEmbeddings, hcount, hrounds, hparser]

/-- The calls of a walk are those about the visited queries that the parser is asked about. -/
theorem Walks.calls_eq {agenda : List Element} {log left : List Call} {visited : List Query}
    {ending : Option CompileError} (h : compiler.Walks agenda log visited ending left) :
    left = log ++ (visited.filter compiler.asks).map compiler.rereadCall := by
  induction h with
  | done => simp
  | triples _ _ ih => exact ih
  | faultyTriples => simp
  | @query query answer agenda log middle left visited ending hopens _ _ ih =>
      have happend : (query :: visited).filter compiler.asks =
          [query].filter compiler.asks ++ visited.filter compiler.asks :=
        List.filter_append [query] visited
      rw [ih, hopens.calls_eq, happend, List.map_append, List.append_assoc]
  | faultyClauses hopens => exact hopens.calls_eq
  | unopened hopens => exact hopens.calls_eq

/-- Logs only grow along a walk. -/
theorem Walks.isPrefix {agenda : List Element} {log left : List Call} {visited : List Query}
    {ending : Option CompileError} (h : compiler.Walks agenda log visited ending left) :
    log <+: left :=
  h.calls_eq ▸ List.prefix_append log _

end Compiler

/-! ## Answers to calls -/

/-- The call was made after the earlier calls, which lead from the one log towards the other. -/
def Call.MadeBetween (call : Call) (start finish earlier : List Call) : Prop :=
  start <+: earlier ∧ earlier ++ [call] <+: finish

theorem Call.not_madeBetween_self {call : Call} {log earlier : List Call} :
    ¬ call.MadeBetween log log earlier := by
  rintro ⟨hstart, hfinish⟩
  have hfirst := hstart.length_le
  have hlast := hfinish.length_le
  rw [List.length_append, List.length_singleton] at hlast
  omega

/-- Past the first call, a call is that one or is made after it. -/
theorem Call.MadeBetween.eq_or_after {call first : Call} {log finish earlier : List Call}
    (h : call.MadeBetween log finish earlier) (hfirst : log ++ [first] <+: finish) :
    (earlier = log ∧ call = first) ∨ call.MadeBetween (log ++ [first]) finish earlier := by
  obtain ⟨⟨passed, rfl⟩, hfinish⟩ := h
  cases passed with
  | nil =>
      rw [List.append_nil] at hfinish
      have hsame := List.prefix_of_prefix_length_le hfinish hfirst (by simp)
      simp only [List.prefix_append_right_inj, List.cons_prefix_cons] at hsame
      exact Or.inl ⟨List.append_nil log, hsame.1⟩
  | cons other rest =>
      have hbefore : log ++ other :: rest <+: finish := (List.prefix_append _ _).trans hfinish
      exact Or.inr ⟨List.prefix_of_prefix_length_le hfirst hbefore (by simp), hfinish⟩

namespace Compiler

/-- The parser gave the answer to the call, which was made between the logs. -/
def Answered (compiler : Compiler) (call : Call) (answer : Except Failure Query)
    (start finish : List Call) : Prop :=
  ∃ parser earlier, compiler.parser = some parser ∧ call.MadeBetween start finish earlier ∧
    parser.answer earlier call = answer

variable {compiler : Compiler}

/-- What is answered between two logs is answered between any that lie further apart. -/
theorem Answered.widen {call : Call} {answer : Except Failure Query}
    {start before after finish : List Call} (h : compiler.Answered call answer before after)
    (hstart : start <+: before) (hfinish : after <+: finish) :
    compiler.Answered call answer start finish := by
  obtain ⟨parser, earlier, hparser, ⟨hbefore, hafter⟩, hanswer⟩ := h
  exact ⟨parser, earlier, hparser, ⟨hstart.trans hbefore, hafter.trans hfinish⟩, hanswer⟩

theorem answered_append {parser : Parser} (hparser : compiler.parser = some parser)
    {log : List Call} {call : Call} {answer : Except Failure Query}
    (hanswer : parser.answer log call = answer) :
    compiler.Answered call answer log (log ++ [call]) :=
  ⟨parser, log, hparser, ⟨List.prefix_refl _, List.prefix_refl _⟩, hanswer⟩

/-- When a compilation comes to a query it makes no call, or one whose answer it takes. -/
theorem Opens.calls_cases {parser : Parser} (hparser : compiler.parser = some parser)
    {query : Query} {log left : List Call} {result : Except CompileError Query}
    (h : compiler.Opens query log result left) :
    left = log ∨ ∃ call, left = log ++ [call] ∧
      result = (parser.answer log call).mapError fun failure => failure.toError call.text := by
  cases h with
  | plain | exhausted | unread => exact Or.inl rfl
  | answered hcount hrounds hfound hanswer =>
      obtain rfl := Option.some.inj (hparser.symm.trans hfound)
      exact Or.inr ⟨_, rfl, by rw [hanswer]; rfl⟩
  | refused hcount hrounds hfound hanswer =>
      obtain rfl := Option.some.inj (hparser.symm.trans hfound)
      exact Or.inr ⟨_, rfl, by rw [hanswer, text_rereadCall]; rfl⟩

/-- A failing call is the only one made at a query, and its failure is the error found there. -/
theorem Opens.last_of_failure {parser : Parser} (hparser : compiler.parser = some parser)
    {query : Query} {log left earlier : List Call} {result : Except CompileError Query}
    (h : compiler.Opens query log result left) {call : Call}
    (hmade : call.MadeBetween log left earlier) {failure : Failure}
    (hanswer : parser.answer earlier call = .error failure) :
    left = earlier ++ [call] ∧ result = .error (failure.toError call.text) := by
  rcases h.calls_cases hparser with rfl | ⟨first, rfl, hresult⟩
  · exact absurd hmade Call.not_madeBetween_self
  · rcases hmade.eq_or_after (List.prefix_refl _) with ⟨rfl, rfl⟩ | hafter
    · rw [hanswer] at hresult
      exact ⟨rfl, hresult⟩
    · exact absurd hafter Call.not_madeBetween_self

/-- A failing call is the last one of a walk, which ends with the failure. -/
theorem Walks.last_of_failure {parser : Parser} (hparser : compiler.parser = some parser)
    {agenda : List Element} {log left earlier : List Call} {visited : List Query}
    {ending : Option CompileError} (h : compiler.Walks agenda log visited ending left)
    {call : Call} (hmade : call.MadeBetween log left earlier) {failure : Failure}
    (hanswer : parser.answer earlier call = .error failure) :
    left = earlier ++ [call] ∧ ending = some (failure.toError call.text) := by
  induction h with
  | done | faultyTriples => exact absurd hmade Call.not_madeBetween_self
  | triples _ _ ih => exact ih hmade
  | @query query answer agenda log middle left visited ending hopens hfaults hrest ih =>
      rcases hopens.calls_cases hparser with rfl | ⟨first, rfl, hfirst⟩
      · exact ih hmade
      · rcases hmade.eq_or_after hrest.isPrefix with ⟨rfl, rfl⟩ | hafter
        · rw [hanswer] at hfirst
          cases hfirst
        · exact ih hafter
  | faultyClauses hopens =>
      cases (hopens.last_of_failure hparser hmade hanswer).2
  | unopened hopens =>
      obtain ⟨hleft, hresult⟩ := hopens.last_of_failure hparser hmade hanswer
      exact ⟨hleft, congrArg some (Except.error.inj hresult)⟩

/-! ## Compilations -/

/-- A compilation of the query calls the parser along a walk, with a node of the plan for each query
visited, and comes to the result. -/
structure CallsAlong (compiler : Compiler) (parser : Parser) (query : Query) (trace left : Trace)
    (result : Except CompileError Plan) (visited : List Query) : Prop where
  /-- The query has this walk and no other. -/
  walks_iff : ∀ others ending log,
    compiler.Walks [.query query] trace.calls others ending log ↔
      others = visited ∧ ending = errorIn result ∧ log = left.calls
  nodes : ∀ plan, result = .ok plan → compiler.MadeFrom plan.nodes visited
  calls : left.calls = trace.calls ++ (visited.filter Query.hasEmbeddings).map fun node =>
    if node.name = none ∧ node.signature ≠ none then .subQuery node.text node
    else .query node.text (node.base <|> compiler.base)
  /-- Only queries of the `GENERATE` form are asked about. -/
  forms : ∀ node ∈ visited, node.hasEmbeddings = true →
    ∃ elements, node.form = .generate elements
  bases : ∀ callee call, compiler.callPlan callee = .ok call →
    call.base = (callee.base <|> compiler.base)
  last : ∀ call earlier failure, call.MadeBetween trace.calls left.calls earlier →
    parser.answer earlier call = .error failure →
      left.calls = earlier ++ [call] ∧ result = .error (failure.toError call.text)

/-- The calls of a compilation are made along the walk of its query, which is the only one there
is: one call for each visited query with an embedded expression, and none for the others. The plan
has a node for each query that was visited. A call that fails is the last one. -/
theorem calls_made_along_walk (compiler : Compiler) {parser : Parser}
    (hparser : compiler.parser = some parser) (hrounds : 1 ≤ compiler.maxRounds) {query : Query}
    {trace left : Trace} {result : Except CompileError Plan}
    (h : (compiler.compile query).outcome trace = some (result, left) ∨
      (compiler.compileNested query).outcome trace = some (result, left)) :
    ∃ visited, compiler.CallsAlong parser query trace left result visited := by
  have hmadeFrom : compiler.Follows (compiler.compile query) [.query query]
      fun plan => compiler.MadeFrom plan.nodes :=
    compiler.follows_planWithin _ true query
  have hmadeNested : compiler.Follows (compiler.compileNested query) [.query query]
      fun plan => compiler.MadeFrom plan.nodes :=
    compiler.follows_planWithin _ false query
  obtain ⟨visited, hwalk, hplan⟩ : ∃ visited,
      compiler.Walks [.query query] trace.calls visited (errorIn result) left.calls ∧
        ∀ plan, result = .ok plan → compiler.MadeFrom plan.nodes visited :=
    h.elim (hmadeFrom trace result left) (hmadeNested trace result left)
  refine ⟨visited, ?_, hplan, ?_, ?_, ?_, ?_⟩
  · intro others ending log
    constructor
    · exact hwalk.unique
    · rintro ⟨rfl, rfl, rfl⟩
      exact hwalk
  · rw [hwalk.calls_eq, asks_eq_hasEmbeddings hrounds (by simp [hparser])]
    refine congrArg (trace.calls ++ ·) (List.map_congr_left fun node hnode => ?_)
    exact rereadCall_eq (List.of_mem_filter hnode)
  · exact fun node _ hembeddings => node.exists_form_eq_generate hembeddings
  · intro callee call hcall
    unfold callPlan at hcall
    split at hcall
    · cases hcall
      rfl
    · cases hcall
  · intro call earlier failure hmade hanswer
    obtain ⟨hleft, hending⟩ := hwalk.last_of_failure hparser hmade hanswer
    refine ⟨hleft, ?_⟩
    cases result with
    | ok plan => cases hending
    | error error => exact congrArg Except.error (Option.some.inj hending)

/-- A query with an embedded expression and without any name or parameters. -/
def askedWhole : Query :=
  .generate [.triples [⟨.term (.var ⟨"s"⟩), .embedded (.var ⟨"p"⟩), .term (.var ⟨"o"⟩)⟩]]

/-- The same query as a part of a query, with a signature that lists no parameter. -/
def askedPart : Query :=
  { askedWhole with signature := some [] }

/-- The compiler whose parser answers with a query that holds the part, and then with a failure. -/
def refusedCompiler : Compiler where
  parser := some (.ofReplies [.query (.generate [.query askedPart]), .failure (.foreign "refused")]
    (.foreign "no reply is left"))

/-- The part is asked about as such, and once that fails there is no further call. -/
theorem calls_made_until_refusal :
    refusedCompiler.parser.isSome = true ∧ 1 ≤ refusedCompiler.maxRounds ∧
      ∃ error left, (refusedCompiler.compile askedWhole).outcome {} = some (.error error, left) ∧
        left.calls = [.query askedWhole.text none, .subQuery askedPart.text askedPart] ∧
        error = .parse askedPart.text "refused" := by
  have hrun : (refusedCompiler.compile askedWhole).outcome {} =
      some (.error (.parse askedPart.text "refused"),
        { calls := [.query askedWhole.text none, .subQuery askedPart.text askedPart] }) := rfl
  obtain ⟨visited, hcalls⟩ :=
    calls_made_along_walk refusedCompiler rfl (by decide) (Or.inl hrun)
  have hfinal := hcalls.last (.subQuery askedPart.text askedPart) [.query askedWhole.text none]
    (.foreign "refused") ⟨List.nil_prefix, List.prefix_refl _⟩ rfl
  exact ⟨rfl, by decide, _, _, hrun, hfinal.1, Except.error.inj hfinal.2⟩

end Compiler

end SparqlGenerate
