import SparqlGenerate.Compiler
import SparqlGenerate.Proofs.Runs

/-!
# Normalization takes one round

One round of reading and lifting leaves no embedded expression, so the loop of the normalization
is a single conditional step, whatever the parser answers. All that is proved about compilations
uses this step, and not the loop.
-/

namespace SparqlGenerate

namespace Query

/-! ## What lifting changes -/

@[simp]
theorem embeddedCount_lift (fresh : Supply) (number : Nat) (query : Query) :
    (query.lift fresh number).embeddedCount = 0 := by
  simp [embeddedCount]

theorem embeddedCount_eq_zero_iff {query : Query} :
    query.embeddedCount = 0 ↔ query.embeddings = [] := by
  simp [embeddedCount]

@[simp]
theorem base_lift (fresh : Supply) (number : Nat) (query : Query) :
    (query.lift fresh number).base = query.base := by
  unfold lift
  split <;> rfl

@[simp]
theorem dataset_lift (fresh : Supply) (number : Nat) (query : Query) :
    (query.lift fresh number).dataset = query.dataset := by
  unfold lift
  split <;> rfl

@[simp]
theorem name_lift (fresh : Supply) (number : Nat) (query : Query) :
    (query.lift fresh number).name = query.name := by
  unfold lift
  split <;> rfl

@[simp]
theorem signature_lift (fresh : Supply) (number : Nat) (query : Query) :
    (query.lift fresh number).signature = query.signature := by
  unfold lift
  split <;> rfl

@[simp]
theorem clauses_lift (fresh : Supply) (number : Nat) (query : Query) :
    (query.lift fresh number).clauses = query.clauses := by
  unfold lift
  split <;> rfl

theorem eq_lift_of_outcome_liftNext {fresh : Supply} {query source : Query} {trace left : Trace}
    (h : (query.liftNext fresh).outcome trace = some (.ok source, left)) :
    source = query.lift fresh trace.drawn := by
  rw [outcome_liftNext] at h
  cases h
  rfl

end Query

/-! ## Nothing to lift -/

theorem TemplateTerm.lift_eq_self (fresh : Supply) (number : Nat) {term : TemplateTerm}
    (h : term.embeddings = []) : term.lift fresh number = term := by
  cases term with
  | term t => rfl
  | embedded value => simp [embeddings] at h

theorem TemplateTriple.lift_eq_self (fresh : Supply) (number : Nat) {triple : TemplateTriple}
    (h : triple.embeddings = []) : triple.lift fresh number = triple := by
  simp only [embeddings, List.append_eq_nil_iff] at h
  obtain ⟨⟨hsubject, hpredicate⟩, hobject⟩ := h
  simp [lift, TemplateTerm.lift_eq_self, hsubject, hpredicate, hobject]

theorem TemplateTriple.liftAll_eq_self (fresh : Supply) (number : Nat)
    {triples : List TemplateTriple} (h : triples.flatMap embeddings = []) :
    liftAll fresh number triples = triples := by
  induction triples generalizing number with
  | nil => rfl
  | cons triple rest ih =>
      rw [List.flatMap_cons, List.append_eq_nil_iff] at h
      rw [liftAll, lift_eq_self fresh number h.1, ih _ h.2]

theorem Element.lift_eq_self (fresh : Supply) (number : Nat) {element : Element}
    (h : element.embeddings = []) : element.lift fresh number = element := by
  cases element with
  | triples ts => exact congrArg Element.triples (TemplateTriple.liftAll_eq_self fresh number h)
  | query nested => rfl

theorem Element.liftAll_eq_self (fresh : Supply) (number : Nat) {elements : List Element}
    (h : elements.flatMap embeddings = []) : liftAll fresh number elements = elements := by
  induction elements generalizing number with
  | nil => rfl
  | cons element rest ih =>
      rw [List.flatMap_cons, List.append_eq_nil_iff] at h
      rw [liftAll, lift_eq_self fresh number h.1, ih _ h.2]

/-- Lifting leaves a query without embedded expressions as it is. -/
theorem Query.lift_eq_self (fresh : Supply) (number : Nat) {query : Query}
    (h : query.embeddings = []) : query.lift fresh number = query := by
  obtain ⟨form, base, dataset, name, signature, clauses, pattern⟩ := query
  cases form with
  | generate elements =>
      have helements : elements.flatMap Element.embeddings = [] := h
      simp [lift, h, Element.liftAll_eq_self fresh number helements, Supply.assign]
  | select => rfl
  | template => rfl
  | call name parameters => rfl

/-- A query without embedded expressions is lifted at once, and nothing is drawn for it. -/
theorem Query.liftNext_of_plain (fresh : Supply) {query : Query} (h : query.embeddings = []) :
    query.liftNext fresh = pure query := by
  ext trace : 1
  simp [query.lift_eq_self fresh trace.drawn h, embeddedCount_eq_zero_iff.mpr h]

/-! ## The round -/

namespace Compiler

theorem normalizeWithin_of_embeddedCount_eq_zero (compiler : Compiler) (rounds : Nat)
    {query : Query} (h : query.embeddedCount = 0) :
    compiler.normalizeWithin rounds query = pure query := by
  unfold normalizeWithin
  simp [h]

/-- However many rounds are left, one of them at most is taken. -/
theorem normalizeWithin_succ (compiler : Compiler) (rounds : Nat) (query : Query) :
    compiler.normalizeWithin (rounds + 1) query =
      if query.embeddedCount = 0 then pure query
      else compiler.reread query >>= Query.liftNext compiler.fresh := by
  by_cases hcount : query.embeddedCount = 0
  · simp [normalizeWithin_of_embeddedCount_eq_zero, hcount]
  · rw [if_neg hcount, normalizeWithin, if_neg hcount]
    -- Nothing is left to lift after the round, so the loop neither fails nor goes on.
    refine congrArg (compiler.reread query >>= ·) (funext fun answer => ?_)
    ext trace : 1
    simp [Run.outcome_bind, hcount, normalizeWithin_of_embeddedCount_eq_zero]

/-- Normalization reads and lifts a query once if there is something to lift. It fails only if no
round is allowed. -/
theorem normalize_eq (compiler : Compiler) (query : Query) :
    compiler.normalize query =
      if query.embeddedCount = 0 then pure query
      else if compiler.maxRounds = 0 then
        throw (.fault (.roundsExhausted query.embeddedCount compiler.maxRounds))
      else compiler.reread query >>= Query.liftNext compiler.fresh := by
  unfold normalize
  by_cases hcount : query.embeddedCount = 0
  · simp [normalizeWithin_of_embeddedCount_eq_zero, hcount]
  · cases hrounds : compiler.maxRounds with
    | zero => simp [normalizeWithin, hcount, hrounds]
    | succ rounds => simp [normalizeWithin_succ, hcount]

/-- Where no round is needed or one is allowed, normalization without a parser is lifting. -/
theorem normalize_eq_liftNext {compiler : Compiler} (hparser : compiler.parser = none)
    {query : Query} (hrounds : 1 ≤ compiler.maxRounds ∨ query.embeddedCount = 0) :
    compiler.normalize query = query.liftNext compiler.fresh := by
  rw [normalize_eq]
  by_cases hcount : query.embeddedCount = 0
  · rw [if_pos hcount, Query.liftNext_of_plain _ (Query.embeddedCount_eq_zero_iff.mp hcount)]
  · have hallowed : compiler.maxRounds ≠ 0 :=
      Nat.one_le_iff_ne_zero.mp (hrounds.resolve_right hcount)
    simp [hcount, hallowed, reread, hparser]

end Compiler

end SparqlGenerate
