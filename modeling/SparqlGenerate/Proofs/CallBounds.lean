import Mathlib.Algebra.GroupWithZero.Nat
import Mathlib.Tactic.TFAE
import SparqlGenerate.Proofs.EnoughLevels
import SparqlGenerate.Proofs.TextualPath

/-!
# How many calls a compilation makes

A query is read again at most once, but what it is read as may hold further queries, and each of
these may be read again in turn. So the calls of a compilation are paid for by the queries that are
given and by those that the replies bring along. A parser that goes on bringing queries is called
without end, and the number of rounds that a query may take has no say in this.

What a compilation needs to end is a credit: a number for each log that covers what the later
replies bring beyond what they take the place of.
-/

namespace SparqlGenerate

/-! ## Queries that may be read again -/

/-- The number of queries with embedded expressions in the elements, at any depth. -/
def Element.pendingCount (agenda : List Element) : Nat :=
  (agenda.flatMap nodes).countP Query.hasEmbeddings

/-- The number of queries with embedded expressions that are nested in the query. -/
def Query.nestedCount (query : Query) : Nat :=
  Element.pendingCount query.elements

theorem Element.pendingCount_append (first second : List Element) :
    pendingCount (first ++ second) = pendingCount first + pendingCount second := by
  rw [pendingCount, List.flatMap_append, List.countP_append]
  rfl

theorem Element.pendingCount_query (query : Query) (agenda : List Element) :
    pendingCount (.query query :: agenda) =
      query.nestedCount + pendingCount agenda + if query.hasEmbeddings then 1 else 0 := by
  rw [pendingCount, Query.flatMap_nodes_cons, List.countP_cons]
  exact congrArg (· + _) (pendingCount_append query.elements agenda)

theorem Element.pendingCount_singleton (query : Query) :
    pendingCount [.query query] = query.nodes.countP Query.hasEmbeddings := by
  rw [pendingCount, List.flatMap_singleton]
  rfl

/-- The number of elements and queries in the elements, at any depth. -/
def Element.bulk (agenda : List Element) : Nat :=
  agenda.length + ((agenda.flatMap nodes).map fun node => node.elements.length + 1).sum

theorem Element.bulk_lt_triples (triples : List TemplateTriple) (agenda : List Element) :
    bulk agenda < bulk (.triples triples :: agenda) := by
  simp [bulk, nodes]

theorem Element.bulk_lt_query (query : Query) (agenda : List Element) :
    bulk (query.elements ++ agenda) < bulk (.query query :: agenda) := by
  rw [bulk, bulk, Query.flatMap_nodes_cons, List.map_cons, List.sum_cons, List.length_append,
    List.length_cons]
  omega

/-- The number of queries to be read again that an answer brings. The reply itself is not read
again, whatever is embedded in it. -/
def nestedCountIn : Except Failure Query → Nat
  | .ok reply => reply.nestedCount
  | .error _ => 0

/-- The number of queries to be read again that a prepared reply brings. One that echoes brings
nothing new. -/
def Reply.nestedCount : Reply → Nat
  | .query reply => reply.nestedCount
  | .echo | .failure _ => 0

/-- The number of queries to be read again that the answers to the calls bring, when these are made
after the calls of the first log. -/
def Parser.supplied (parser : Parser) : List Call → List Call → Nat
  | _, [] => 0
  | before, call :: rest =>
    nestedCountIn (parser.answer before call) + parser.supplied (before ++ [call]) rest

namespace Compiler

variable {compiler : Compiler} {parser : Parser}

/-- With a parser a query is compiled as it is if nothing is embedded in it, and read again if
something is. -/
theorem Opens.cases_of_ok (hparser : compiler.parser = some parser) {query answer : Query}
    {log left : List Call} (h : compiler.Opens query log (.ok answer) left) :
    (query.hasEmbeddings = false ∧ answer = query ∧ left = log) ∨
      (query.hasEmbeddings = true ∧ left = log ++ [compiler.rereadCall query] ∧
        parser.answer log (compiler.rereadCall query) = .ok answer) := by
  cases h with
  | plain hcount => exact Or.inl ⟨by simp [Query.hasEmbeddings, hcount], rfl, rfl⟩
  | unread hcount hrounds hnone => cases hparser.symm.trans hnone
  | answered hcount hrounds hfound hanswer =>
      obtain rfl := Option.some.inj (hparser.symm.trans hfound)
      exact Or.inr ⟨Query.hasEmbeddings_iff.mpr hcount, rfl, hanswer⟩

/-- A query without embedded expressions is compiled as it is. -/
theorem Opens.of_plain {query : Query} (hplain : query.hasEmbeddings = false) {log : List Call} :
    compiler.Opens query log (.ok query) log :=
  .plain (by simpa [Query.hasEmbeddings] using hplain)

theorem Opens.eq_of_plain {query : Query} {log left : List Call}
    {result : Except CompileError Query} (h : compiler.Opens query log result left)
    (hplain : query.hasEmbeddings = false) : result = .ok query ∧ left = log :=
  (Opens.of_plain hplain).unique h

theorem Walks.mem_visited {query : Query} {agenda : List Element} {log left : List Call}
    {visited : List Query} {ending : Option CompileError}
    (h : compiler.Walks (.query query :: agenda) log visited ending left) : query ∈ visited := by
  cases h <;> exact List.mem_cons_self

/-! ## Calls that are made -/

/-- At a query one call is made at most, and none if nothing is embedded in it. -/
theorem Opens.exists_made {query : Query} {log left : List Call}
    {result : Except CompileError Query} (h : compiler.Opens query log result left) :
    ∃ made, left = log ++ made ∧ made.length ≤ if query.hasEmbeddings then 1 else 0 := by
  refine ⟨_, h.calls_eq, ?_⟩
  rw [List.length_map]
  cases hembeddings : query.hasEmbeddings with
  | false => simp [asks, hembeddings]
  | true => exact List.length_filter_le _ _

/-- A compilation makes one call at most for each query that is pending or that a reply brings. -/
theorem Walks.exists_made (hparser : compiler.parser = some parser) {agenda : List Element}
    {log left : List Call} {visited : List Query} {ending : Option CompileError}
    (h : compiler.Walks agenda log visited ending left) :
    ∃ made, left = log ++ made ∧
      made.length ≤ Element.pendingCount agenda + parser.supplied log made := by
  induction h with
  | done | faultyTriples => exact ⟨[], (List.append_nil _).symm, Nat.zero_le _⟩
  | triples _ _ ih => exact ih
  | @query query answer agenda log middle left visited ending hopens _ _ ih =>
      obtain ⟨made, rfl, hlength⟩ := ih
      have hpending := Element.pendingCount_append answer.elements agenda
      rw [← Query.nestedCount] at hpending
      rw [Element.pendingCount_query]
      rcases hopens.cases_of_ok hparser with ⟨-, rfl, rfl⟩ | ⟨hembeddings, rfl, hanswer⟩
      · exact ⟨made, rfl, by omega⟩
      · refine ⟨compiler.rereadCall query :: made, by simp, ?_⟩
        rw [List.length_cons, Parser.supplied, hanswer, nestedCountIn, if_pos hembeddings]
        omega
  | faultyClauses hopens | unopened hopens =>
      obtain ⟨made, hleft, hlength⟩ := hopens.exists_made
      refine ⟨made, hleft, ?_⟩
      rw [Element.pendingCount_query]
      omega

/-! ## Compilations that end -/

/-- The credit covers what a reply brings beyond what is nested in the query it takes the place of,
and the credit that is left after that. -/
def Covers (compiler : Compiler) (parser : Parser) (credit : List Call → Nat) : Prop :=
  ∀ log query answer, parser.answer log (compiler.rereadCall query) = .ok answer →
    answer.nestedCount + credit (log ++ [compiler.rereadCall query]) ≤
      query.nestedCount + credit log

/-- Past a query nothing is spent if it is compiled as it is. A call is paid for by the query, and
the credit pays for what the reply brings. -/
theorem Opens.spends (hparser : compiler.parser = some parser) {credit : List Call → Nat}
    (hcovers : compiler.Covers parser credit) {query answer : Query} {log middle : List Call}
    (h : compiler.Opens query log (.ok answer) middle) (agenda : List Element) :
    (answer = query ∧ middle = log ∧
      Element.pendingCount (query.elements ++ agenda) =
        Element.pendingCount (.query query :: agenda)) ∨
      (middle.length = log.length + 1 ∧
        Element.pendingCount (answer.elements ++ agenda) + credit middle <
          Element.pendingCount (.query query :: agenda) + credit log) := by
  rw [Element.pendingCount_query, Element.pendingCount_append, Element.pendingCount_append,
    ← Query.nestedCount, ← Query.nestedCount]
  rcases h.cases_of_ok hparser with ⟨hplain, rfl, rfl⟩ | ⟨hembeddings, rfl, hanswer⟩
  · exact Or.inl ⟨rfl, rfl, by simp [hplain]⟩
  · have hpaid := hcovers log query answer hanswer
    refine Or.inr ⟨List.length_append, ?_⟩
    rw [if_pos hembeddings]
    omega

/-- Where the credit covers the replies there is a walk, along which no more calls are made than
there are pending queries and credit. -/
theorem exists_walks_of_covers (hparser : compiler.parser = some parser) {credit : List Call → Nat}
    (hcovers : compiler.Covers parser credit) : ∀ (agenda : List Element) (log : List Call),
    ∃ visited ending left, compiler.Walks agenda log visited ending left ∧
      left.length ≤ log.length + Element.pendingCount agenda + credit log
  | [], log => ⟨[], none, log, .done, by omega⟩
  | .triples triples :: agenda, log => by
      cases hfaults : TemplateTriple.faultsAll triples with
      | cons fault further => exact ⟨_, _, _, .faultyTriples hfaults, by omega⟩
      | nil =>
          obtain ⟨visited, ending, left, hwalk, hlength⟩ :=
            exists_walks_of_covers hparser hcovers agenda log
          exact ⟨visited, ending, left, .triples hfaults hwalk, hlength⟩
  | .query query :: agenda, log => by
      obtain ⟨result, middle, hopens⟩ := compiler.exists_opens query log
      have hlast : middle.length ≤ log.length + Element.pendingCount (.query query :: agenda)
          + credit log := by
        obtain ⟨made, rfl, hmade⟩ := hopens.exists_made
        rw [List.length_append, Element.pendingCount_query]
        omega
      cases result with
      | error error => exact ⟨_, _, _, .unopened hopens, hlast⟩
      | ok answer =>
          cases hfaults : answer.clauseFaults with
          | cons fault further => exact ⟨_, _, _, .faultyClauses hopens hfaults, hlast⟩
          | nil =>
              obtain ⟨visited, ending, left, hwalk, hlength⟩ :=
                exists_walks_of_covers hparser hcovers (answer.elements ++ agenda) middle
              refine ⟨query :: visited, ending, left, .query hopens hfaults hwalk, ?_⟩
              rcases hopens.spends hparser hcovers agenda with ⟨rfl, rfl, hsame⟩ | ⟨hcall, hless⟩
              · omega
              · omega
-- A query that is compiled as it is leaves the budget alone, but is taken apart.
termination_by agenda log => (Element.pendingCount agenda + credit log, Element.bulk agenda)
decreasing_by
  · exact Prod.Lex.right _ (Element.bulk_lt_triples triples agenda)
  · rcases hopens.spends hparser hcovers agenda with ⟨rfl, rfl, hsame⟩ | ⟨-, hless⟩
    · rw [hsame]
      exact Prod.Lex.right _ (Element.bulk_lt_query _ agenda)
    · exact Prod.Lex.left _ _ hless

/-- The compiler with the parser in the place of its own. -/
def withParser (compiler : Compiler) (parser : Parser) : Compiler :=
  { compiler with parser := some parser }

/-- Where the credit covers the replies a compilation ends, and makes no more calls than are paid
for. -/
theorem ends_of_covers {credit : List Call → Nat} (hcovers : compiler.Covers parser credit)
    (query : Query) (trace : Trace) :
    (compiler.withParser parser).Ends query trace ∧
      ∀ result left,
        ((compiler.withParser parser).compile query).outcome trace = some (result, left) →
          left.calls.length ≤ trace.calls.length + query.nodes.countP Query.hasEmbeddings
            + credit trace.calls := by
  obtain ⟨visited, ending, left, hwalk, hlength⟩ :=
    (compiler.withParser parser).exists_walks_of_covers rfl hcovers [.query query] trace.calls
  refine ⟨ends_iff_exists_walks.mpr ⟨visited, ending, left, hwalk⟩, fun result last h => ?_⟩
  obtain ⟨others, hothers⟩ := exists_walks_of_outcome h
  obtain ⟨-, -, rfl⟩ := hwalk.unique hothers
  rwa [Element.pendingCount_singleton] at hlength

/-- An answer by a reply holds no more than the reply brings and the query held before. -/
theorem nestedCount_le_of_answer {refusal : Failure} {reply : Reply} {query answer : Query}
    (h : reply.answer refusal (compiler.rereadCall query) = .ok answer) :
    answer.nestedCount ≤ query.nestedCount + reply.nestedCount := by
  cases reply with
  | query reply =>
      cases h
      exact Nat.le_add_left _ _
  | failure failure => cases h
  | echo =>
      -- Only a query that is read again as a part of a query is echoed, and that as it is.
      unfold rereadCall at h
      split at h <;> cases h
      all_goals exact Nat.le_refl _

/-- Prepared replies bring no more than is nested in them. -/
theorem covers_ofReplies (compiler : Compiler) (replies : List Reply) (refusal : Failure) :
    compiler.Covers (.ofReplies replies refusal) fun log =>
      ((replies.drop log.length).map Reply.nestedCount).sum := by
  intro log query answer hanswer
  simp only [Parser.ofReplies] at hanswer
  simp only [List.length_append, List.length_singleton]
  split at hanswer
  next => cases hanswer
  next reply hreply =>
    obtain ⟨hlength, rfl⟩ := List.getElem?_eq_some_iff.mp hreply
    have hbrought : answer.nestedCount ≤ query.nestedCount + replies[log.length].nestedCount :=
      nestedCount_le_of_answer hanswer
    rw [List.drop_eq_getElem_cons hlength, List.map_cons, List.sum_cons]
    omega

/-! ## Compilations without a bound -/

/-- A compilation without a parser comes to a query with an embedded expression. -/
def ReachesEmbedding (compiler : Compiler) (query : Query) : Prop :=
  ∃ visited ending left,
    (compiler.structural compiler.fresh).Walks [.query query] [] visited ending left ∧
      ∃ node ∈ visited, node.hasEmbeddings = true

/-- Whatever the parser, a compilation of the query makes no more calls than that. -/
def CallsAtMost (compiler : Compiler) (query : Query) (bound : Nat) : Prop :=
  ∀ parser trace result left,
    ((compiler.withParser parser).compile query).outcome trace = some (result, left) →
      left.calls.length ≤ trace.calls.length + bound

/-- A walk that visits no query with an embedded expression depends on nothing that compilers
differ in, and makes no calls. -/
theorem Walks.of_plain {first : Compiler} {agenda : List Element} {log left : List Call}
    {visited : List Query} {ending : Option CompileError}
    (h : first.Walks agenda log visited ending left)
    (hplain : ∀ node ∈ visited, node.hasEmbeddings = false) (second : Compiler)
    (start : List Call) : second.Walks agenda start visited ending start := by
  induction h with
  | done => exact .done
  | triples hfaults _ ih => exact .triples hfaults (ih hplain)
  | faultyTriples hfaults => exact .faultyTriples hfaults
  | query hopens hfaults _ ih =>
      obtain ⟨hquery, hvisited⟩ := List.forall_mem_cons.mp hplain
      obtain ⟨hresult, -⟩ := hopens.eq_of_plain hquery
      cases hresult
      exact .query (.of_plain hquery) hfaults (ih hvisited)
  | faultyClauses hopens hfaults =>
      have hquery := List.forall_mem_singleton.mp hplain
      obtain ⟨hresult, -⟩ := hopens.eq_of_plain hquery
      cases hresult
      exact .faultyClauses (.of_plain hquery) hfaults
  | unopened hopens =>
      cases (hopens.eq_of_plain (hplain _ List.mem_cons_self)).1

/-- A query that holds a query with an embedded expression. -/
def nestingQuery : Query :=
  .generate [.query askedWhole]

end Compiler

/-- Up to that many calls, the parser reads each text as a query that holds another one to be read
again. -/
def Parser.Nests (parser : Parser) (many : Nat) : Prop :=
  ∀ log call, log.length < many → parser.answer log call = .ok Compiler.nestingQuery

namespace Compiler

variable {compiler : Compiler} {parser : Parser} {many : Nat}

/-- Such a parser reads a query again as one that holds another one, unless its replies are used
up. -/
theorem Opens.nests_or_lt (hparser : compiler.parser = some parser)
    (hrounds : compiler.maxRounds ≠ 0) (hnests : parser.Nests many) {query : Query}
    {log left : List Call} {result : Except CompileError Query}
    (h : compiler.Opens query log result left) (hquery : query.hasEmbeddings = true) :
    result = .ok nestingQuery ∨ many < left.length := by
  by_cases hlog : log.length < many
  · have hanswer := hnests log (compiler.rereadCall query) hlog
    have hnested := Opens.answered (Query.hasEmbeddings_iff.mp hquery) hrounds hparser hanswer
    exact Or.inl (hnested.unique h).1
  · have hasks : compiler.asks query = true := by simp [asks, hquery, hrounds, hparser]
    refine Or.inr ?_
    rw [h.calls_eq, List.filter_singleton, hasks, List.length_append]
    exact Nat.lt_succ_of_le (Nat.le_of_not_lt hlog)

/-- A walk that comes to a query with an embedded expression does not end before such a parser has
used up its replies. -/
theorem Walks.lt_length_of_nests (hparser : compiler.parser = some parser)
    (hrounds : compiler.maxRounds ≠ 0) (hnests : parser.Nests many) {agenda : List Element}
    {log left : List Call} {visited : List Query} {ending : Option CompileError}
    (h : compiler.Walks agenda log visited ending left)
    (hreached : ∃ node ∈ visited, node.hasEmbeddings = true) : many < left.length := by
  induction h with
  | done | faultyTriples => simp at hreached
  | triples _ _ ih => exact ih hreached
  | @query query answer agenda log middle left visited ending hopens _ hrest ih =>
      cases hquery : query.hasEmbeddings with
      | false =>
          rw [List.exists_mem_cons_iff, hquery] at hreached
          exact ih (hreached.resolve_left nofun)
      | true =>
          rcases hopens.nests_or_lt hparser hrounds hnests hquery with hnested | hlong
          · -- The query that the reply holds is visited next.
            obtain rfl := Except.ok.inj hnested
            exact ih ⟨askedWhole, hrest.mem_visited, rfl⟩
          · exact Nat.lt_of_lt_of_le hlong hrest.isPrefix.length_le
  | faultyClauses hopens hfaults =>
      obtain ⟨_, hnode, hquery⟩ := hreached
      obtain rfl := List.mem_singleton.mp hnode
      rcases hopens.nests_or_lt hparser hrounds hnests hquery with hnested | hlong
      · cases hnested
        cases hfaults
      · exact hlong
  | unopened hopens =>
      obtain ⟨_, hnode, hquery⟩ := hreached
      obtain rfl := List.mem_singleton.mp hnode
      exact (hopens.nests_or_lt hparser hrounds hnests hquery).resolve_left nofun

/-- Without a parser there is a walk of each query. -/
theorem exists_structural_walks (compiler : Compiler) (query : Query) :
    ∃ visited ending left,
      (compiler.structural compiler.fresh).Walks [.query query] [] visited ending left := by
  have hparser : (compiler.structural compiler.fresh).parser = none := rfl
  obtain ⟨result, left, hrun, -⟩ :=
    reports_planWithin hparser query.depth true (Nat.le_refl query.depth) {}
  obtain ⟨visited, hwalk⟩ := exists_walks_of_outcome hrun
  exact ⟨visited, _, _, hwalk⟩

/-- Without rounds, or where no query with an embedded expression is reached, no call is made,
whatever the parser. -/
theorem exists_walks_without_calls {query : Query}
    (h : compiler.maxRounds = 0 ∨ ¬ compiler.ReachesEmbedding query) (parser : Parser)
    (log : List Call) :
    ∃ visited ending, (compiler.withParser parser).Walks [.query query] log visited ending log := by
  rcases h with hrounds | hplain
  · have hnone : (compiler.withParser parser).maxRounds = 0 := hrounds
    obtain ⟨visited, result, left, -, hstops⟩ :=
      exists_stopsUncalled_of_maxRounds_eq_zero hnone true query { calls := log }
    exact ⟨visited, _, hstops.calls ▸ hstops.walk⟩
  · obtain ⟨visited, ending, left, hwalk⟩ := compiler.exists_structural_walks query
    have hnone : ∀ node ∈ visited, node.hasEmbeddings = false := by
      intro node hnode
      by_contra hembeddings
      exact hplain
        ⟨visited, ending, left, hwalk, node, hnode, Bool.not_eq_false _ ▸ hembeddings⟩
    exact ⟨visited, ending, hwalk.of_plain hnone _ log⟩

/-- Where a compilation without a parser comes to a query with an embedded expression, so does one
with a parser, though this one may be another. -/
theorem ReachesEmbedding.of_walks {query : Query} (hreaches : compiler.ReachesEmbedding query)
    {log left : List Call} {visited : List Query} {ending : Option CompileError}
    (h : (compiler.withParser parser).Walks [.query query] log visited ending left) :
    ∃ node ∈ visited, node.hasEmbeddings = true := by
  by_contra hnone
  obtain ⟨others, _, last, hother, node, hnode, hembeddings⟩ := hreaches
  have hplain : ∀ node ∈ visited, node.hasEmbeddings = false := fun node hnode =>
    Bool.eq_false_iff.mpr fun hembeddings => hnone ⟨node, hnode, hembeddings⟩
  obtain ⟨rfl, -, -⟩ := hother.unique (h.of_plain hplain _ [])
  exact hnone ⟨node, hnode, hembeddings⟩

/-- The parser that reads each text as a query that holds another one to be read again. -/
def endlessParser : Parser where
  answer _ _ := .ok nestingQuery
  levels := 0

theorem not_ends_of_reachesEmbedding (hrounds : compiler.maxRounds ≠ 0) {query : Query}
    (hreaches : compiler.ReachesEmbedding query) (trace : Trace) :
    ¬ (compiler.withParser endlessParser).Ends query trace := by
  intro hends
  obtain ⟨visited, ending, left, hwalk⟩ := ends_iff_exists_walks.mp hends
  have hparser : (compiler.withParser endlessParser).parser = some endlessParser := rfl
  have hallowed : (compiler.withParser endlessParser).maxRounds ≠ 0 := hrounds
  have hnests : endlessParser.Nests left.length := fun _ _ _ => rfl
  exact Nat.lt_irrefl _
    (hwalk.lt_length_of_nests hparser hallowed hnests (hreaches.of_walks hwalk))

/-- The parser that does so for as many calls, and then refuses. -/
def nestingParser (many levels : Nat) : Parser where
  answer := (Parser.ofReplies (List.replicate many (.query nestingQuery))
    (.foreign "no reply is left")).answer
  levels := levels

theorem nests_nestingParser (many levels : Nat) : (nestingParser many levels).Nests many := by
  intro log call hlog
  simp [nestingParser, Parser.ofReplies, List.getElem?_replicate, hlog, Reply.answer]

theorem not_callsAtMost_of_reachesEmbedding (hrounds : compiler.maxRounds ≠ 0) {query : Query}
    (hreaches : compiler.ReachesEmbedding query) (bound : Nat) :
    ¬ compiler.CallsAtMost query bound := by
  intro hbound
  have hcovers := compiler.covers_ofReplies (List.replicate bound (.query nestingQuery))
    (.foreign "no reply is left")
  obtain ⟨⟨levels, hends⟩, -⟩ := ends_of_covers hcovers query {}
  obtain ⟨⟨result, left⟩, hrun⟩ := hends levels (Nat.le_refl levels)
  have hmost := hbound (nestingParser bound levels) {} result left hrun
  obtain ⟨visited, hwalk⟩ := exists_walks_of_outcome hrun
  have hparser : (compiler.withParser (nestingParser bound levels)).parser =
      some (nestingParser bound levels) := rfl
  have hallowed : (compiler.withParser (nestingParser bound levels)).maxRounds ≠ 0 := hrounds
  have hmore := hwalk.lt_length_of_nests hparser hallowed (nests_nestingParser bound levels)
    (hreaches.of_walks hwalk)
  simp only [List.length_nil] at hmost
  omega

theorem reachesEmbedding_askedWhole (hrounds : compiler.maxRounds ≠ 0) :
    compiler.ReachesEmbedding askedWhole :=
  ⟨[askedWhole], none, [], .query (.unread nofun hrounds rfl) rfl (.triples rfl .done),
    askedWhole, List.mem_cons_self, rfl⟩

/-- One round is allowed and one query is given, but no number bounds the calls, and with a parser
that always answers there need be no end. -/
theorem calls_unbounded_of_askedWhole :
    (¬ ∃ bound, CallsAtMost { maxRounds := 1 } askedWhole bound) ∧
      ∃ parser : Parser, (∀ log call, ∃ answer, parser.answer log call = .ok answer) ∧
        ∀ trace, ¬ (withParser { maxRounds := 1 } parser).Ends askedWhole trace := by
  have hreaches : ReachesEmbedding { maxRounds := 1 } askedWhole :=
    reachesEmbedding_askedWhole Nat.one_ne_zero
  refine ⟨?_, endlessParser, fun _ _ => ⟨nestingQuery, rfl⟩, ?_⟩
  · rintro ⟨bound, hbound⟩
    exact not_callsAtMost_of_reachesEmbedding Nat.one_ne_zero hreaches bound hbound
  · exact not_ends_of_reachesEmbedding Nat.one_ne_zero hreaches

/-! ## The bounds -/

/-- No more calls are made than there are queries to be read again, in the query and in the replies
to these calls. -/
theorem exists_made_of_outcome (hparser : compiler.parser = some parser) {levels : Nat}
    {isTop : Bool} {query : Query} {trace left : Trace} {result : Except CompileError Plan}
    (h : (compiler.planWithin levels isTop query).outcome trace = some (result, left)) :
    ∃ made, left.calls = trace.calls ++ made ∧
      made.length ≤ query.nodes.countP Query.hasEmbeddings + parser.supplied trace.calls made := by
  obtain ⟨visited, hwalk⟩ := exists_walks_of_outcome h
  rw [← Element.pendingCount_singleton]
  exact hwalk.exists_made hparser

theorem ends_without_calls {query : Query}
    (h : compiler.maxRounds = 0 ∨ ¬ compiler.ReachesEmbedding query) (parser : Parser)
    (trace : Trace) : (compiler.withParser parser).Ends query trace := by
  obtain ⟨visited, ending, hwalk⟩ := exists_walks_without_calls h parser trace.calls
  exact ends_iff_exists_walks.mpr ⟨visited, ending, trace.calls, hwalk⟩

theorem callsAtMost_zero {query : Query}
    (h : compiler.maxRounds = 0 ∨ ¬ compiler.ReachesEmbedding query) :
    compiler.CallsAtMost query 0 := by
  intro parser trace result left hrun
  obtain ⟨visited, ending, hwalk⟩ := exists_walks_without_calls h parser trace.calls
  obtain ⟨others, hothers⟩ := exists_walks_of_outcome hrun
  obtain ⟨-, -, hcalls⟩ := hwalk.unique hothers
  exact Nat.le_of_eq (congrArg List.length hcalls)

/-- There are no calls at all as soon as there is a bound for all parsers, or an end with each. -/
theorem bounded_tfae (compiler : Compiler) (query : Query) :
    List.TFAE [∃ bound, compiler.CallsAtMost query bound, compiler.CallsAtMost query 0,
      ∀ parser trace, (compiler.withParser parser).Ends query trace,
      compiler.maxRounds = 0 ∨ ¬ compiler.ReachesEmbedding query] := by
  tfae_have 2 → 1 := fun h => ⟨0, h⟩
  tfae_have 1 → 4 := by
    rintro ⟨bound, hbound⟩
    by_contra hneither
    obtain ⟨hrounds, hreaches⟩ := not_or.mp hneither
    exact not_callsAtMost_of_reachesEmbedding hrounds (not_not.mp hreaches) bound hbound
  tfae_have 3 → 4 := by
    intro hends
    by_contra hneither
    obtain ⟨hrounds, hreaches⟩ := not_or.mp hneither
    exact not_ends_of_reachesEmbedding hrounds (not_not.mp hreaches) {} (hends _ _)
  tfae_have 4 → 3 := ends_without_calls
  tfae_have 4 → 2 := callsAtMost_zero
  tfae_finish

/-- What bounds the calls of a compilation, and when it ends. -/
structure PaidByReplies (compiler : Compiler) (query : Query) : Prop where
  paid : ∀ parser trace result left, compiler.parser = some parser →
    ((compiler.compile query).outcome trace = some (result, left) ∨
      (compiler.compileNested query).outcome trace = some (result, left)) →
    ∃ made, left.calls = trace.calls ++ made ∧
      made.length ≤
        query.nodes.countP Query.hasEmbeddings + parser.supplied trace.calls made
  covered : ∀ parser credit, compiler.Covers parser credit → ∀ trace,
    (compiler.withParser parser).Ends query trace ∧
    ∀ result left,
      ((compiler.withParser parser).compile query).outcome trace = some (result, left) →
        left.calls.length ≤ trace.calls.length + query.nodes.countP Query.hasEmbeddings
          + credit trace.calls
  prepared : ∀ replies refusal trace,
    (compiler.withParser (.ofReplies replies refusal)).Ends query trace
  bounded_iff : List.TFAE [∃ bound, compiler.CallsAtMost query bound, compiler.CallsAtMost query 0,
    ∀ parser trace, (compiler.withParser parser).Ends query trace,
    compiler.maxRounds = 0 ∨ ¬ compiler.ReachesEmbedding query]

/-- The calls of a compilation are paid for by the queries with embedded expressions that it is
given and that the replies bring. It ends if there is a credit that covers the replies, as there is
for any list of prepared replies. There is a bound for all parsers only where no call is made at
all: without rounds, or if no query with an embedded expression is reached. Just then a compilation
ends whatever its parser answers. -/
theorem calls_paid_by_replies (compiler : Compiler) (query : Query) :
    compiler.PaidByReplies query where
  paid parser trace result left hparser h := by
    rcases h with hrun | hrun
    · exact exists_made_of_outcome hparser hrun
    · exact exists_made_of_outcome hparser hrun
  covered _ _ hcovers trace := ends_of_covers hcovers query trace
  prepared replies refusal trace :=
    (ends_of_covers (compiler.covers_ofReplies replies refusal) query trace).1
  bounded_iff := bounded_tfae compiler query

/-- Three replies to the query: two of them hold another query to be read again, the last one is
the query itself. -/
def nestedReplies : Parser :=
  .ofReplies [.query nestingQuery, .query nestingQuery, .query askedWhole]
    (.foreign "no reply is left")

/-- One round allows for three calls: one is paid for by the query, and two by the replies. -/
theorem three_calls_paid_by_replies :
    ∃ plan left,
      ((withParser { maxRounds := 1 } nestedReplies).compile askedWhole).outcome {} =
        some (.ok plan, left) ∧
      left.calls.length = 3 ∧ left.calls.length ≤ 1 + 2 ∧
      CallsAtMost { maxRounds := 0 } askedWhole 0 := by
  obtain ⟨plan, left, hrun, hcalls⟩ : ∃ plan left,
      ((withParser { maxRounds := 1 } nestedReplies).compile askedWhole).outcome {} =
        some (.ok plan, left) ∧ left.calls.length = 3 :=
    ⟨_, _, rfl, rfl⟩
  have hallowed := calls_paid_by_replies { maxRounds := 1 } askedWhole
  obtain ⟨-, hmost⟩ := hallowed.covered nestedReplies _ (covers_ofReplies _ _ _) {}
  have hforbidden := calls_paid_by_replies { maxRounds := 0 } askedWhole
  exact ⟨plan, left, hrun, hcalls, hmost _ _ hrun,
    (hforbidden.bounded_iff.out 1 3).mpr (Or.inl rfl)⟩

end Compiler

end SparqlGenerate
