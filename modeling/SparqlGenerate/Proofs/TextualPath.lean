import SparqlGenerate.Proofs.FreshNames

/-!
# The textual path

A parser that reads each text as the query that it is the text of makes no difference. Such a
parser is given here by its replies alone: the queries of a tree that have embedded expressions, in
the order of the tree. A compilation of the tree takes the replies in this order, so each call is
answered by the query that it is about, until there is an error or no reply is left.
-/

namespace SparqlGenerate

/-! ## Pending replies -/

/-- The parser whose replies are the nodes of the tree that have embedded expressions. -/
def Parser.rereading (query : Query) (refusal : Failure) : Parser :=
  .ofReplies ((query.nodes.filter Query.hasEmbeddings).map .query) refusal

/-- The replies that are left after the calls of the log are the nodes to be walked through that
have embedded expressions. -/
def Pending (replies : List Reply) (agenda : List Element) (log : List Call) : Prop :=
  replies.drop log.length = ((agenda.flatMap Element.nodes).filter Query.hasEmbeddings).map .query

namespace Pending

variable {replies : List Reply} {query : Query} {agenda : List Element} {log : List Call}

theorem triples {triples : List TemplateTriple}
    (h : Pending replies (.triples triples :: agenda) log) : Pending replies agenda log :=
  h

theorem query_of_plain (h : Pending replies (.query query :: agenda) log)
    (hplain : query.hasEmbeddings = false) : Pending replies (query.elements ++ agenda) log := by
  unfold Pending at h ⊢
  rwa [Query.flatMap_nodes_cons, List.filter_cons_of_neg (by simp [hplain])] at h

/-- The next reply is the query that is asked about, and the replies after it are for what comes
after that query. -/
theorem query_of_embeddings (h : Pending replies (.query query :: agenda) log)
    (hembeddings : query.hasEmbeddings = true) (call : Call) :
    replies[log.length]? = some (.query query) ∧
      Pending replies (query.elements ++ agenda) (log ++ [call]) := by
  unfold Pending at h ⊢
  rw [Query.flatMap_nodes_cons, List.filter_cons_of_pos hembeddings, List.map_cons] at h
  constructor
  · rw [← List.head?_drop, h, List.head?_cons]
  · rw [List.length_append, List.length_singleton, ← List.tail_drop, h, List.tail_cons]

end Pending

namespace Compiler

variable {compiler : Compiler}

/-! ## With the parser and without -/

/-- The compiler with the parser that reads the nodes of the tree again. -/
def textual (compiler : Compiler) (query : Query) (refusal : Failure) (fresh : Supply) : Compiler :=
  { compiler with parser := some (.rereading query refusal), fresh := fresh }

/-- The compiler without a parser. -/
def structural (compiler : Compiler) (fresh : Supply) : Compiler :=
  { compiler with parser := none, fresh := fresh }

/-- The nodes of the tree that have embedded expressions are yet to be read. -/
def PendingNodes (query : Query) : List Element → List Call → Prop :=
  Pending ((query.nodes.filter Query.hasEmbeddings).map .query)

theorem pendingNodes_nil (query : Query) : PendingNodes query [.query query] [] := by
  simp [PendingNodes, Pending, Element.nodes]

variable {query root : Query} {refusal : Failure} {first second : Supply} {f : Var → Var}

/-- Where the replies are pending, a query is opened as itself. -/
theorem exists_textual_opens (hrounds : compiler.maxRounds ≠ 0) {agenda : List Element}
    {log : List Call} (h : PendingNodes root (.query query :: agenda) log) :
    ∃ left, (compiler.textual root refusal first).Opens query log (.ok query) left ∧
      PendingNodes root (query.elements ++ agenda) left := by
  by_cases hcount : query.embeddedCount = 0
  · have hplain : query.hasEmbeddings = false := by simp [Query.hasEmbeddings, hcount]
    exact ⟨log, .plain hcount, h.query_of_plain hplain⟩
  · have hembeddings := Query.hasEmbeddings_iff.mpr hcount
    obtain ⟨hreply, hnext⟩ := h.query_of_embeddings hembeddings (compiler.rereadCall query)
    have hanswer : (Parser.rereading root refusal).answer log (compiler.rereadCall query) =
        .ok query := by
      simp only [Parser.rereading, Parser.ofReplies, hreply]
      rfl
    exact ⟨_, .answered hcount hrounds rfl hanswer, hnext⟩

/-- Without a parser, a query is opened as itself. -/
theorem structural_opens (hrounds : compiler.maxRounds ≠ 0) (query : Query) (log : List Call) :
    (compiler.structural second).Opens query log (.ok query) log := by
  by_cases hcount : query.embeddedCount = 0
  · exact .plain hcount
  · exact .unread hcount hrounds rfl

/-- What is walked through without a parser is walked through with the replies pending. -/
theorem Walks.textual (hrounds : compiler.maxRounds ≠ 0) {agenda : List Element}
    {log left : List Call} {visited : List Query} {ending : Option CompileError}
    (h : (compiler.structural second).Walks agenda log visited ending left) {before : List Call}
    (hpending : PendingNodes root agenda before) :
    ∃ after, (compiler.textual root refusal first).Walks agenda before visited ending after := by
  induction h generalizing before with
  | done => exact ⟨before, .done⟩
  | triples hfaults _ ih =>
      obtain ⟨after, hwalk⟩ := ih hpending.triples
      exact ⟨after, .triples hfaults hwalk⟩
  | faultyTriples hfaults => exact ⟨before, .faultyTriples hfaults⟩
  | query hopens hfaults _ ih =>
      obtain rfl := Except.ok.inj (hopens.unique (structural_opens hrounds _ _)).1
      obtain ⟨middle, htext, hnext⟩ := exists_textual_opens hrounds hpending
      obtain ⟨after, hwalk⟩ := ih hnext
      exact ⟨after, .query htext hfaults hwalk⟩
  | faultyClauses hopens hfaults =>
      obtain rfl := Except.ok.inj (hopens.unique (structural_opens hrounds _ _)).1
      obtain ⟨middle, htext, -⟩ := exists_textual_opens hrounds hpending
      exact ⟨middle, .faultyClauses htext hfaults⟩
  | unopened hopens => cases (hopens.unique (structural_opens hrounds _ _)).1

/-- With the replies pending, a compilation goes the way of the one without a parser. -/
def pendingSimulation (hrounds : compiler.maxRounds ≠ 0) (root : Query) (refusal : Failure)
    (hsupply : ∀ number, f (first number) = second number) :
    Simulation (compiler.textual root refusal first) (compiler.structural second) f where
  Related agenda trace other := other.drawn = trace.drawn ∧ PendingNodes root agenda trace.calls
  Safe _ _ := True
  base := rfl
  fresh := hsupply
  drawn h := h.1
  draw _ h := ⟨rfl, h.2⟩
  triples h := ⟨h.1, h.2.triples⟩
  safe _ _ _ := ⟨trivial, trivial⟩
  opened {query agenda trace other} h := by
    obtain ⟨hdrawn, hpending⟩ := h
    obtain ⟨left, hopens, hnext⟩ := exists_textual_opens hrounds hpending
    rw [outcome_opened_of_opens hopens,
      outcome_opened_of_opens (structural_opens hrounds query other.calls)]
    have hgrows : trace.calls <+: left := hopens.calls_eq ▸ List.prefix_append trace.calls _
    exact .ended ⟨rfl, hgrows, ⟨hdrawn, hnext⟩, fun hfixes _ => hfixes⟩

/-- Both compilations end, and one of them as the other. -/
theorem exists_outcomes (hrounds : compiler.maxRounds ≠ 0) (query : Query) (refusal : Failure)
    (hfirst : Function.Injective first) (second : Supply) (hfresh : ∀ v ∈ query.vars, first.Lacks v)
    {trace : Trace} (hcalls : trace.calls = []) : ∃ result left beside,
      ((compiler.textual query refusal first).compile query).outcome trace = some (result, left) ∧
      ((compiler.structural second).compile query).outcome trace =
        some (result.map (Plan.rename (first.mapTo second)), beside) := by
  have hnone : (compiler.structural second).parser = none := rfl
  have hdepth := levelsFor_eq_depth hnone query
  obtain ⟨result, beside, hplain, -⟩ :=
    reports_planWithin hnone _ true (Nat.le_of_eq hdepth.symm) trace
  -- The replies bring further levels with them, which the other compilation does not need.
  have hlevels : (compiler.structural second).levelsFor query ≤
      (compiler.textual query refusal first).levelsFor query := by
    rw [hdepth]
    exact Nat.le_add_right _ _
  have hfurther := endsAs_planWithin _ hlevels true query trace _ hplain
  have hrelated : (pendingSimulation hrounds query refusal
      (Supply.mapTo_apply hfirst second)).Related [.query query] trace trace :=
    ⟨rfl, hcalls ▸ pendingNodes_nil query⟩
  have hpaired := Simulation.paired_planWithin _
    ((compiler.textual query refusal first).levelsFor query) true hrelated
  rw [hfurther] at hpaired
  generalize hrun : ((compiler.textual query refusal first).planWithin _ true query).outcome trace =
    reached at hpaired
  cases hpaired with
  | failed => exact ⟨_, _, beside, hrun, hplain⟩
  | ended hended =>
      obtain ⟨-, -, hrename⟩ := hended
      have hfixes : Fixes (first.mapTo second) query.vars := fun v hv =>
        Supply.mapTo_of_lacks (hfresh v hv) second
      rw [hrename hfixes trivial] at hplain
      exact ⟨_, _, beside, hrun, hplain⟩

/-- With the replies and without a parser, compilations of the query come to the same result. Both
visit these nodes, and the parser is called for those with embedded expressions. -/
structure AgreesWithText (compiler : Compiler) (query : Query) (refusal : Failure)
    (first second : Supply) (trace left beside : Trace) (visited : List Query)
    (result : Except CompileError Plan) : Prop where
  textual : ((compiler.textual query refusal first).compile query).outcome trace =
    some (result, left)
  structural : ((compiler.structural second).compile query).outcome trace =
    some (result.map (Plan.rename (first.mapTo second)), beside)
  walk : (compiler.structural second).Walks [.query query] [] visited (errorIn result) []
  initial : visited <+: query.nodes
  calls : left.calls = (visited.filter Query.hasEmbeddings).map compiler.rereadCall
  texts : left.calls.map Call.text = (visited.filter Query.hasEmbeddings).map Query.text
  /-- With a plan, no reply is left. -/
  exhausted : ∀ plan, result = .ok plan → visited = query.nodes ∧
    left.calls.length = ((query.nodes.filter Query.hasEmbeddings).map Reply.query).length

/-- With the parser whose replies are the nodes of the tree that have embedded expressions, a tree
is compiled to the plan it has without a parser, up to the fresh variables, or fails with the same
error. The calls are about these nodes, in order, up to the last one that is reached; if there is a
plan, all of them are reached and no reply is left. -/
theorem textual_path_agrees (compiler : Compiler) (hrounds : 1 ≤ compiler.maxRounds)
    (query : Query) (refusal : Failure) {first : Supply} (hfirst : Function.Injective first)
    (hfresh : ∀ v ∈ query.vars, first.Lacks v) (second : Supply) {trace : Trace}
    (hcalls : trace.calls = []) :
    ∃ result left beside visited,
      compiler.AgreesWithText query refusal first second trace left beside visited result := by
  have hallowed := Nat.one_le_iff_ne_zero.mp hrounds
  obtain ⟨result, left, beside, htextual, hstructural⟩ :=
    exists_outcomes hallowed query refusal hfirst second hfresh hcalls
  obtain ⟨visited, hwalk, -⟩ :=
    (compiler.structural second).follows_planWithin _ true query _ _ _ hstructural
  rw [errorIn_map, hcalls] at hwalk
  -- Without a parser there is no call to log, and no query is replaced.
  have hnone : beside.calls = [] := by
    rw [hwalk.calls_eq]
    simp [asks, structural]
  rw [hnone] at hwalk
  have hkeep : ∀ query log answer left,
      (compiler.structural second).Opens query log (.ok answer) left → answer = query :=
    fun query log answer left hopens =>
      (Except.ok.inj (hopens.unique (structural_opens hallowed query log)).1).symm
  obtain ⟨hinitial, hall⟩ := hwalk.prefix_nodes hkeep
  rw [List.flatMap_singleton, Element.nodes] at hinitial hall
  obtain ⟨after, hpending⟩ := hwalk.textual hallowed (pendingNodes_nil query)
  obtain ⟨others, hothers, -⟩ :=
    (compiler.textual query refusal first).follows_planWithin _ true query _ _ _ htextual
  rw [hcalls] at hothers
  obtain ⟨rfl, -, rfl⟩ := hothers.unique hpending
  have hasks : (compiler.textual query refusal first).asks = Query.hasEmbeddings :=
    asks_eq_hasEmbeddings hrounds rfl
  have hlog : left.calls = (visited.filter Query.hasEmbeddings).map compiler.rereadCall := by
    rw [hothers.calls_eq, hasks]
    rfl
  refine ⟨result, left, beside, visited, htextual, hstructural, hwalk, hinitial, hlog, ?_, ?_⟩
  · rw [hlog, List.map_map]
    exact List.map_congr_left fun node _ => compiler.text_rereadCall node
  · rintro plan rfl
    obtain rfl := hall rfl
    exact ⟨rfl, by rw [hlog, List.length_map, List.length_map]⟩

/-- A tree with an illegal query between two queries that have to be read again. -/
def interruptedTree : Query :=
  .generate
    [.triples [⟨.term (.var ⟨"s"⟩), .embedded (.var ⟨"p"⟩), .term (.var ⟨"o"⟩)⟩],
      .query askedPart,
      .query { Query.generate [] with clauses := [.iterator (.var ⟨"x"⟩) []] },
      .query askedPart]

/-- With the parser and without, the second of these queries is not reached. -/
theorem textual_path_stops_between : ∃ left beside,
    ((textual {} interruptedTree (.foreign "no reply is left") (.tally "fresh")).compile
      interruptedTree).outcome {} = some (.error (.fault .iteratorWithoutVars), left) ∧
    ((structural {} (.tally "other")).compile interruptedTree).outcome {} =
      some (.error (.fault .iteratorWithoutVars), beside) ∧
    left.calls.map Call.text = [interruptedTree.text, askedPart.text] := by
  have hletters : ∀ v ∈ interruptedTree.vars, v.name.length < 5 := by decide
  have hfresh : ∀ v ∈ interruptedTree.vars, (Supply.tally "fresh").Lacks v :=
    fun v hv => Supply.tally_lacks (hletters v hv)
  have hcalls : ({} : Trace).calls = [] := rfl
  obtain ⟨result, left, beside, visited, ⟨htextual, hstructural, -⟩⟩ :=
    textual_path_agrees {} (by decide) interruptedTree (.foreign "no reply is left")
      (Supply.tally_injective "fresh") hfresh (.tally "other") hcalls
  obtain ⟨rfl, hlog⟩ : result = .error (.fault .iteratorWithoutVars) ∧
      left.calls.map Call.text = [interruptedTree.text, askedPart.text] := by
    cases htextual
    exact ⟨rfl, rfl⟩
  exact ⟨left, beside, htextual, hstructural, hlog⟩

end Compiler

end SparqlGenerate
