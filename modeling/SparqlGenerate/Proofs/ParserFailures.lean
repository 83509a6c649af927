import SparqlGenerate.Proofs.FreshNames
import SparqlGenerate.Proofs.Rounds

/-!
# Failures of the parser

A compilation takes the first failure of its parser for its own error, and does nothing further.
The parser's own words are wrapped once, together with the text that it failed on, however deep in
the tree the query of that text is nested. What a parser reports as an error of the compiler is not
wrapped at all. As long as the parser does not fail, a compilation has no errors but those that the
compiler finds itself.
-/

namespace SparqlGenerate

/-- What is done with a compiler: a plan is made, or it is also put into a registry. -/
inductive Errand where
  | plan (request : Request)
  | register (registry : Registry) (query : Query)

namespace Parser

/-- The parser fails in its own words only. -/
def IsForeign (parser : Parser) : Prop :=
  ∀ log call failure, parser.answer log call = .error failure → ∃ reason, failure = .foreign reason

/-- The parser fails with errors of the compiler only. -/
def IsOwn (parser : Parser) : Prop :=
  ∀ log call failure, parser.answer log call = .error failure → ∃ error, failure = .own error

/-- The parser answers all calls that are made between the logs. -/
def AnswersAll (parser : Parser) (start finish : List Call) : Prop :=
  ∀ call earlier, call.MadeBetween start finish earlier →
    ∃ answer, parser.answer earlier call = .ok answer

theorem AnswersAll.narrow {parser : Parser} {start middle finish : List Call}
    (h : parser.AnswersAll start finish) (hstart : start <+: middle) :
    parser.AnswersAll middle finish :=
  fun call earlier hmade => h call earlier ⟨hstart.trans hmade.1, hmade.2⟩

theorem answersAll_or_exists_failure (parser : Parser) (start finish : List Call) :
    parser.AnswersAll start finish ∨ ∃ call earlier failure,
      call.MadeBetween start finish earlier ∧ parser.answer earlier call = .error failure := by
  refine or_iff_not_imp_right.mpr fun hnone call earlier hmade => ?_
  cases hanswer : parser.answer earlier call with
  | ok answer => exact ⟨answer, rfl⟩
  | error failure => exact absurd ⟨call, earlier, failure, hmade, hanswer⟩ hnone

/-- An answered call is not the failing one. -/
theorem AnswersAll.ne_error {parser : Parser} {start finish : List Call} {call : Call}
    (h : parser.AnswersAll start finish) (hstart : start ++ [call] <+: finish) {failure : Failure} :
    parser.answer start call ≠ .error failure := by
  obtain ⟨answer, hanswer⟩ := h call start ⟨List.prefix_refl start, hstart⟩
  rw [hanswer]
  exact nofun

/-- Prepared replies fail with the failures that are prepared and with the refusal. -/
theorem mem_failures_of_answer {replies : List Reply} {refusal failure : Failure}
    {log : List Call} {call : Call}
    (h : (ofReplies replies refusal).answer log call = .error failure) :
    failure = refusal ∨ .failure failure ∈ replies := by
  simp only [ofReplies] at h
  split at h
  next => exact Or.inl (Except.error.inj h).symm
  next reply hreply =>
    cases reply with
    | query query => cases h
    | failure other =>
        obtain rfl := Except.error.inj h
        exact Or.inr (List.mem_of_getElem? hreply)
    | echo =>
        cases call with
        | query text base => exact Or.inl (Except.error.inj h).symm
        | subQuery text parent => cases h

end Parser

namespace Compiler

/-- The errand ends with the error, if any, and leaves the second trace. -/
def EndsOn (compiler : Compiler) : Errand → Trace → Option CompileError → Trace → Prop
  | .plan request, trace, ending, left =>
    ∃ result, (compiler.plan request).outcome trace = some (result, left) ∧
      ending = errorIn result
  | .register registry query, trace, ending, left =>
    ∃ result, (registry.register compiler query).outcome trace = some (result, left) ∧
      ending = errorIn result

/-- The call is about the last one of the visited queries. -/
def AsksAboutLast (compiler : Compiler) (visited : List Query) (call : Call) : Prop :=
  ∃ passed node, visited = passed ++ [node] ∧ node.hasEmbeddings = true ∧
    call = compiler.rereadCall node

variable {compiler : Compiler} {parser : Parser}

/-! ## Walks -/

theorem AsksAboutLast.cons {visited : List Query} {call : Call}
    (h : compiler.AsksAboutLast visited call) (query : Query) :
    compiler.AsksAboutLast (query :: visited) call := by
  obtain ⟨passed, node, rfl, hnode⟩ := h
  exact ⟨query :: passed, node, rfl, hnode⟩

/-- A failing call of a walk is about the query that was visited last. -/
theorem Walks.asksAboutLast (hparser : compiler.parser = some parser) {agenda : List Element}
    {log left earlier : List Call} {visited : List Query} {ending : Option CompileError}
    (h : compiler.Walks agenda log visited ending left) {call : Call} {failure : Failure}
    (hmade : call.MadeBetween log left earlier)
    (hanswer : parser.answer earlier call = .error failure) :
    compiler.AsksAboutLast visited call := by
  induction h with
  | done | faultyTriples => exact absurd hmade Call.not_madeBetween_self
  | triples _ _ ih => exact ih hmade
  | @query query answer agenda log middle left visited ending hopens hfaults hrest ih =>
      rcases hopens.calls_cases hparser with rfl | ⟨first, rfl, hfirst⟩
      · exact (ih hmade).cons query
      · rcases hmade.eq_or_after hrest.isPrefix with ⟨rfl, rfl⟩ | hafter
        · rw [hanswer] at hfirst
          cases hfirst
        · exact (ih hafter).cons query
  | faultyClauses hopens => cases (hopens.last_of_failure hparser hmade hanswer).2
  | @unopened query agenda log left error hopens =>
      cases hopens with
      | exhausted => exact absurd hmade Call.not_madeBetween_self
      | refused hcount =>
          refine ⟨[], query, rfl, Query.hasEmbeddings_iff.mpr hcount, ?_⟩
          rcases hmade.eq_or_after (List.prefix_refl _) with ⟨-, hcall⟩ | hafter
          · exact hcall
          · exact absurd hafter Call.not_madeBetween_self

/-- A walk along which the parser does not fail ends with a fault, if with an error at all. -/
theorem Walks.ending_of_answersAll (hparser : compiler.parser = some parser)
    {agenda : List Element} {log left : List Call} {visited : List Query}
    {ending : Option CompileError} (h : compiler.Walks agenda log visited ending left)
    (hanswers : parser.AnswersAll log left) :
    ending = none ∨ ∃ fault, ending = some (.fault fault) := by
  induction h with
  | done => exact Or.inl rfl
  | triples _ _ ih => exact ih hanswers
  | faultyTriples | faultyClauses => exact Or.inr ⟨_, rfl⟩
  | query hopens _ _ ih =>
      exact ih (hanswers.narrow (hopens.calls_eq ▸ List.prefix_append _ _))
  | unopened hopens =>
      cases hopens with
      | exhausted => exact Or.inr ⟨_, rfl⟩
      | refused hcount hrounds hfound hanswer =>
          obtain rfl := Option.some.inj (hparser.symm.trans hfound)
          exact absurd hanswer (hanswers.ne_error (List.prefix_refl _))

/-! ## Errands -/

/-- The course of an errand with the parser. A text is read first, and its query walked through
after that. A query without a name is not registered, and not walked through either. -/
inductive Course (compiler : Compiler) (parser : Parser) :
    Errand → List Call → List Query → Option CompileError → List Call → Prop
  | whole {query : Query} {log left : List Call} {visited : List Query}
      {ending : Option CompileError}
      (hwalk : compiler.Walks [.query query] log visited ending left) :
      Course compiler parser (.plan (.whole query)) log visited ending left
  | nested {query : Query} {log left : List Call} {visited : List Query}
      {ending : Option CompileError}
      (hwalk : compiler.Walks [.query query] log visited ending left) :
      Course compiler parser (.plan (.nested query)) log visited ending left
  | unread {text : String} {log : List Call} {failure : Failure}
      (hanswer : parser.answer log (.query text compiler.base) = .error failure) :
      Course compiler parser (.plan (.text text)) log [] (some (failure.toError text))
        (log ++ [.query text compiler.base])
  | read {text : String} {query : Query} {log left : List Call} {visited : List Query}
      {ending : Option CompileError}
      (hanswer : parser.answer log (.query text compiler.base) = .ok query)
      (hwalk : compiler.Walks [.query query] (log ++ [.query text compiler.base]) visited ending
        left) :
      Course compiler parser (.plan (.text text)) log visited ending left
  | unnamed {registry : Registry} {query : Query} {log : List Call} (hname : query.name = none) :
      Course compiler parser (.register registry query) log [] (some (.fault .notNamed)) log
  | named {registry : Registry} {query : Query} {name : Iri} {log left : List Call}
      {visited : List Query} {ending : Option CompileError} (hname : query.name = some name)
      (hwalk : compiler.Walks [.query query] log visited ending left) :
      Course compiler parser (.register registry query) log visited ending left

theorem exists_course_of_outcome_compileText (hparser : compiler.parser = some parser)
    {text : String} {trace left : Trace} {result : Except CompileError Plan}
    (h : (compiler.compileText text).outcome trace = some (result, left)) :
    ∃ visited, compiler.Course parser (.plan (.text text)) trace.calls visited (errorIn result)
      left.calls := by
  rw [compileText_of_some hparser, Run.outcome_bind, Parser.outcome_ask] at h
  cases hanswer : parser.answer trace.calls (.query text compiler.base) with
  | error failure =>
      rw [hanswer] at h
      cases h
      exact ⟨[], .unread hanswer⟩
  | ok query =>
      rw [hanswer] at h
      obtain ⟨visited, hwalk⟩ := exists_walks_of_outcome h
      exact ⟨visited, .read hanswer hwalk⟩

theorem exists_course_of_outcome_register {registry : Registry} {query : Query}
    {trace left : Trace} {result : Except CompileError Registry}
    (h : (registry.register compiler query).outcome trace = some (result, left)) :
    ∃ visited, compiler.Course parser (.register registry query) trace.calls visited
      (errorIn result) left.calls := by
  unfold Registry.register at h
  split at h
  next hname =>
    cases h
    exact ⟨[], .unnamed hname⟩
  next name hname =>
    rw [Run.outcome_bind, Option.bind_eq_some_iff] at h
    obtain ⟨⟨planned, middle⟩, hrun, h⟩ := h
    obtain ⟨visited, hwalk⟩ := exists_walks_of_outcome hrun
    cases planned with
    | ok plan | error error =>
        cases h
        exact ⟨visited, .named hname hwalk⟩

/-- However an errand ends, it has taken its course. -/
theorem exists_course (hparser : compiler.parser = some parser) {errand : Errand}
    {trace left : Trace} {ending : Option CompileError}
    (h : compiler.EndsOn errand trace ending left) :
    ∃ visited, compiler.Course parser errand trace.calls visited ending left.calls := by
  cases errand with
  | register registry query =>
      obtain ⟨result, hrun, rfl⟩ := h
      exact exists_course_of_outcome_register hrun
  | plan request =>
      obtain ⟨result, hrun, rfl⟩ := h
      cases request with
      | whole query =>
          obtain ⟨visited, hwalk⟩ := exists_walks_of_outcome hrun
          exact ⟨visited, .whole hwalk⟩
      | nested query =>
          obtain ⟨visited, hwalk⟩ := exists_walks_of_outcome hrun
          exact ⟨visited, .nested hwalk⟩
      | text text => exact exists_course_of_outcome_compileText hparser hrun

/-- A failing call is the last one of an errand, which ends with the failure. The call is about the
text of the errand or about the query that was visited last. -/
theorem Course.last_of_failure (hparser : compiler.parser = some parser) {errand : Errand}
    {log left earlier : List Call} {visited : List Query} {ending : Option CompileError}
    (h : compiler.Course parser errand log visited ending left) {call : Call} {failure : Failure}
    (hmade : call.MadeBetween log left earlier)
    (hanswer : parser.answer earlier call = .error failure) :
    left = earlier ++ [call] ∧ ending = some (failure.toError call.text) ∧
      ((errand = .plan (.text call.text) ∧ visited = []) ∨
        compiler.AsksAboutLast visited call) := by
  have hlast {agenda : List Element} {start : List Call}
      (hwalk : compiler.Walks agenda start visited ending left)
      (hmade : call.MadeBetween start left earlier) :=
    And.intro (hwalk.last_of_failure hparser hmade hanswer)
      (hwalk.asksAboutLast hparser hmade hanswer)
  cases h with
  | whole hwalk | nested hwalk | named _ hwalk =>
      obtain ⟨⟨hleft, hending⟩, hasked⟩ := hlast hwalk hmade
      exact ⟨hleft, hending, Or.inr hasked⟩
  | unread hrefused =>
      rcases hmade.eq_or_after (List.prefix_refl _) with ⟨rfl, rfl⟩ | hafter
      · rw [hrefused] at hanswer
        cases hanswer
        exact ⟨rfl, rfl, Or.inl ⟨rfl, rfl⟩⟩
      · exact absurd hafter Call.not_madeBetween_self
  | read hread hwalk =>
      rcases hmade.eq_or_after hwalk.isPrefix with ⟨rfl, rfl⟩ | hafter
      · rw [hread] at hanswer
        cases hanswer
      · obtain ⟨⟨hleft, hending⟩, hasked⟩ := hlast hwalk hafter
        exact ⟨hleft, hending, Or.inr hasked⟩
  | unnamed => exact absurd hmade Call.not_madeBetween_self

/-- An errand on which the parser does not fail ends with a fault, if with an error at all. -/
theorem Course.ending_of_answersAll (hparser : compiler.parser = some parser) {errand : Errand}
    {log left : List Call} {visited : List Query} {ending : Option CompileError}
    (h : compiler.Course parser errand log visited ending left)
    (hanswers : parser.AnswersAll log left) :
    ending = none ∨ ∃ fault, ending = some (.fault fault) := by
  cases h with
  | whole hwalk | nested hwalk | named _ hwalk =>
      exact hwalk.ending_of_answersAll hparser hanswers
  | unread hanswer => exact absurd hanswer (hanswers.ne_error (List.prefix_refl _))
  | read _ hwalk =>
      exact hwalk.ending_of_answersAll hparser (hanswers.narrow (List.prefix_append _ _))
  | unnamed => exact Or.inr ⟨_, rfl⟩

/-- With a parser that fails in its own words only, an error of parsing stands for a failed call. -/
theorem Course.parse_iff (hparser : compiler.parser = some parser) (hforeign : parser.IsForeign)
    {errand : Errand} {log left : List Call} {visited : List Query} {ending : Option CompileError}
    (h : compiler.Course parser errand log visited ending left) {text reason : String} :
    ending = some (.parse text reason) ↔
      ∃ call earlier, call.MadeBetween log left earlier ∧
        parser.answer earlier call = .error (.foreign reason) ∧ call.text = text := by
  constructor
  · intro hending
    rcases parser.answersAll_or_exists_failure log left with
      hanswers | ⟨call, earlier, failure, hmade, hanswer⟩
    · rcases h.ending_of_answersAll hparser hanswers with hgood | ⟨fault, hfault⟩
      · cases hending.symm.trans hgood
      · cases hending.symm.trans hfault
    · obtain ⟨other, rfl⟩ := hforeign earlier call failure hanswer
      obtain ⟨-, hother, -⟩ := h.last_of_failure hparser hmade hanswer
      cases hending.symm.trans hother
      exact ⟨call, earlier, hmade, hanswer, rfl⟩
  · rintro ⟨call, earlier, hmade, hanswer, rfl⟩
    exact (h.last_of_failure hparser hmade hanswer).2.1

/-- What the failures of the parser on a course come to. -/
structure FailuresSurface (compiler : Compiler) (parser : Parser) (errand : Errand)
    (log left : List Call) (visited : List Query) (ending : Option CompileError) : Prop where
  course : compiler.Course parser errand log visited ending left
  last : ∀ call earlier failure, call.MadeBetween log left earlier →
    parser.answer earlier call = .error failure →
      left = earlier ++ [call] ∧ ending = some (failure.toError call.text) ∧
        ((errand = .plan (.text call.text) ∧ visited = []) ∨
          ∃ passed node, visited = passed ++ [node] ∧ node.hasEmbeddings = true ∧
            call = compiler.rereadCall node ∧ call.text = node.text)
  parse_iff : parser.IsForeign → ∀ text reason, ending = some (.parse text reason) ↔
    ∃ call earlier, call.MadeBetween log left earlier ∧
      parser.answer earlier call = .error (.foreign reason) ∧ call.text = text
  own : parser.IsOwn → ∀ call earlier failure, call.MadeBetween log left earlier →
    parser.answer earlier call = .error failure →
      ∃ error, failure = .own error ∧ ending = some error
  answered : parser.AnswersAll log left → ending = none ∨ ∃ fault, ending = some (.fault fault)

theorem Course.failuresSurface (hparser : compiler.parser = some parser) {errand : Errand}
    {log left : List Call} {visited : List Query} {ending : Option CompileError}
    (h : compiler.Course parser errand log visited ending left) :
    compiler.FailuresSurface parser errand log left visited ending where
  course := h
  last call earlier failure hmade hanswer := by
    obtain ⟨hleft, hending, hasked⟩ := h.last_of_failure hparser hmade hanswer
    refine ⟨hleft, hending, hasked.imp_right ?_⟩
    rintro ⟨passed, node, hvisited, hnode, rfl⟩
    exact ⟨passed, node, hvisited, hnode, rfl, text_rereadCall compiler node⟩
  parse_iff hforeign _ _ := h.parse_iff hparser hforeign
  own hown call earlier failure hmade hanswer := by
    obtain ⟨error, rfl⟩ := hown earlier call failure hanswer
    exact ⟨error, rfl, (h.last_of_failure hparser hmade hanswer).2.1⟩
  answered := h.ending_of_answersAll hparser

/-- A failing call of the parser is the last one of an errand, and its failure is the error: with
the text that the call was about if the failure is in the parser's own words, and as it is if it is
an error of the compiler. If the parser fails in its own words only, an errand ends with an error of
parsing just if a call fails. If no call fails, the only errors are faults that the compiler
finds. -/
theorem parser_failures_surface (hparser : compiler.parser = some parser) {errand : Errand}
    {trace left : Trace} {ending : Option CompileError}
    (h : compiler.EndsOn errand trace ending left) :
    ∃ visited, compiler.FailuresSurface parser errand trace.calls left.calls visited ending := by
  obtain ⟨visited, hcourse⟩ := exists_course hparser h
  exact ⟨visited, hcourse.failuresSurface hparser⟩

/-- The failure that a part of the query meets with is the error for the whole, with the text of
the part. -/
theorem failure_surfaces_from_part :
    ∃ parser left, refusedCompiler.parser = some parser ∧ parser.IsForeign ∧
      refusedCompiler.EndsOn (.plan (.whole askedWhole)) {}
        (some (.parse askedPart.text "refused")) left ∧
      ∃ call earlier, call.MadeBetween [] left.calls earlier ∧
        parser.answer earlier call = .error (.foreign "refused") ∧
        call.text = askedPart.text := by
  have hends : refusedCompiler.EndsOn (.plan (.whole askedWhole)) {}
      (some (.parse askedPart.text "refused"))
      { calls := [.query askedWhole.text none, .subQuery askedPart.text askedPart] } :=
    ⟨_, rfl, rfl⟩
  have hforeign : Parser.IsForeign (.ofReplies
      [.query (.generate [.query askedPart]), .failure (.foreign "refused")]
      (.foreign "no reply is left")) := by
    intro log call failure hanswer
    rcases Parser.mem_failures_of_answer hanswer with rfl | hreply
    · exact ⟨_, rfl⟩
    · exact ⟨_, by simpa using hreply⟩
  obtain ⟨visited, hsurface⟩ := parser_failures_surface rfl hends
  have hcall := (hsurface.parse_iff hforeign askedPart.text "refused").mp rfl
  exact ⟨_, _, rfl, hforeign, hends, hcall⟩

end Compiler

end SparqlGenerate
