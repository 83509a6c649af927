import SparqlGenerate.Proofs.Variables

/-!
# The variables that occur in a lifted query

A lifted query has the variables that the query had before, and the fresh variables that were drawn
for it, but no others. So a property that all of these have is one of all variables of the lifted
query.
-/

namespace SparqlGenerate

variable {P : Var → Prop} {fresh : Supply}

/-- The supply has nothing but variables with the property to draw for the expressions. -/
def Supply.Draws (fresh : Supply) (P : Var → Prop) (number : Nat) (values : List Expr) : Prop :=
  ∀ other, number ≤ other → other < number + values.length → P (fresh other)

theorem Supply.draws_append {number : Nat} {first second : List Expr} :
    fresh.Draws P number (first ++ second) ↔
      fresh.Draws P number first ∧ fresh.Draws P (number + first.length) second := by
  constructor
  · intro h
    rw [Draws, List.length_append] at h
    exact ⟨fun other hle hlt => h other hle (by omega),
      fun other hle hlt => h other (by omega) (by omega)⟩
  · rintro ⟨hfirst, hsecond⟩ other hle hlt
    rw [List.length_append] at hlt
    by_cases hother : other < number + first.length
    · exact hfirst other hle hother
    · exact hsecond other (by omega) (by omega)

/-! ## Templates -/

theorem TemplateTerm.forall_vars_lift {number : Nat} {term : TemplateTerm}
    (hvars : ∀ v ∈ term.vars, P v) (hdraws : fresh.Draws P number term.embeddings) :
    ∀ v ∈ (term.lift fresh number).vars, P v := by
  cases term with
  | term t => exact hvars
  | embedded value =>
      have hdrawn := hdraws number (Nat.le_refl number) (Nat.lt_succ_self number)
      exact List.forall_mem_singleton.mpr hdrawn

theorem TemplateTriple.forall_vars_lift {number : Nat} {triple : TemplateTriple}
    (hvars : ∀ v ∈ triple.vars, P v) (hdraws : fresh.Draws P number triple.embeddings) :
    ∀ v ∈ (triple.lift fresh number).vars, P v := by
  rw [vars, List.forall_mem_append, List.forall_mem_append] at hvars ⊢
  obtain ⟨⟨hsubject, hpredicate⟩, hobject⟩ := hvars
  rw [embeddings, Supply.draws_append, Supply.draws_append] at hdraws
  obtain ⟨⟨hfirst, hsecond⟩, hthird⟩ := hdraws
  exact ⟨⟨TemplateTerm.forall_vars_lift hsubject hfirst,
    TemplateTerm.forall_vars_lift hpredicate hsecond⟩,
    TemplateTerm.forall_vars_lift hobject hthird⟩

theorem TemplateTriple.forall_vars_liftAll {number : Nat} {triples : List TemplateTriple}
    (hvars : ∀ v ∈ triples.flatMap vars, P v)
    (hdraws : fresh.Draws P number (triples.flatMap embeddings)) :
    ∀ v ∈ (liftAll fresh number triples).flatMap vars, P v := by
  induction triples generalizing number with
  | nil => exact hvars
  | cons triple rest ih =>
      rw [List.flatMap_cons, List.forall_mem_append] at hvars
      rw [List.flatMap_cons, Supply.draws_append] at hdraws
      rw [liftAll, List.flatMap_cons, List.forall_mem_append]
      exact ⟨forall_vars_lift hvars.1 hdraws.1, ih hvars.2 hdraws.2⟩

theorem Element.forall_vars_liftAll {number : Nat} {elements : List Element}
    (hvars : ∀ v ∈ varsAll elements, P v)
    (hdraws : fresh.Draws P number (elements.flatMap embeddings)) :
    ∀ v ∈ varsAll (liftAll fresh number elements), P v := by
  induction elements generalizing number with
  | nil => exact hvars
  | cons element rest ih =>
      rw [varsAll, List.forall_mem_append] at hvars
      rw [List.flatMap_cons, Supply.draws_append] at hdraws
      rw [liftAll, varsAll, List.forall_mem_append]
      refine ⟨?_, ih hvars.2 hdraws.2⟩
      cases element with
      | triples triples => exact TemplateTriple.forall_vars_liftAll hvars.1 hdraws.1
      | query nested => exact hvars.1

/-! ## Queries -/

theorem Pattern.forall_vars_extendAll {number : Nat} {values : List Expr} {pattern : Pattern}
    (hvars : ∀ v ∈ pattern.vars, P v) (hvalues : ∀ value ∈ values, ∀ v ∈ value.vars, P v)
    (hdraws : fresh.Draws P number values) :
    ∀ v ∈ (pattern.extendAll (fresh.assign number values)).vars, P v := by
  induction values generalizing number pattern with
  | nil => exact hvars
  | cons value rest ih =>
      obtain ⟨hvalue, hrest⟩ := List.forall_mem_cons.mp hvalues
      have hsplit : fresh.Draws P number ([value] ++ rest) := hdraws
      obtain ⟨hfirst, hlater⟩ := Supply.draws_append.mp hsplit
      rw [Supply.assign, extendAll_cons]
      refine ih ?_ hrest hlater
      rw [vars, List.forall_mem_append, List.forall_mem_cons]
      exact ⟨hvars, hfirst number (Nat.le_refl number) (Nat.lt_succ_self number), hvalue⟩

/-- A lifted query has the variables of the query and those that were drawn for it. -/
theorem Query.forall_vars_lift {number : Nat} {query : Query} (hvars : ∀ v ∈ query.vars, P v)
    (hdraws : fresh.Draws P number query.embeddings) :
    ∀ v ∈ (query.lift fresh number).vars, P v := by
  have hvalues : ∀ value ∈ query.embeddings, ∀ v ∈ value.vars, P v :=
    fun value hvalue v hv => hvars v (vars_subset_of_mem_embeddings hvalue hv)
  obtain ⟨form, base, dataset, name, signature, clauses, pattern⟩ := query
  cases form with
  | select | template | call => exact hvars
  | generate elements =>
      simp only [vars, Form.vars, List.forall_mem_append] at hvars
      obtain ⟨⟨⟨helements, hsignature⟩, hclauses⟩, hpattern⟩ := hvars
      simp only [lift, vars, Form.vars, List.forall_mem_append]
      exact ⟨⟨⟨Element.forall_vars_liftAll helements hdraws, hsignature⟩, hclauses⟩,
        Pattern.forall_vars_extendAll hpattern hvalues hdraws⟩

end SparqlGenerate
