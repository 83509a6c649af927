import SparqlGenerate.Proofs.LiftedSolutions
import SparqlGenerate.Proofs.Normalization

/-!
# What lifting moves

The places of a template are numbered by element and by triple, and within a triple they go by their
roles. Lifting takes each expression out of its place, puts the next fresh variable there, and hands
both to the pattern; it leaves all other places, and all other parts of the query, as they are.

Whatever the members of a list are, how a place is moved in one of them does not depend on those
beside it. So there is one lemma on how the places of a member and those of the rest are put
together. It is used for the triples of an element, and again for the elements of a template.
-/

namespace SparqlGenerate

/-! ## Places -/

/-- What a term of a triple is for. -/
inductive Role where
  | subject
  | predicate
  | object
  deriving DecidableEq, Repr

def Role.index : Role → Nat
  | .subject => 0
  | .predicate => 1
  | .object => 2

/-- The first role is further left in a triple than the second one. -/
def Role.Before (first second : Role) : Prop :=
  first.index < second.index

/-- What stands at the place of a member of a list, given what stands at the places of a member. -/
def memberAt? {α β γ : Type} (at? : β → α → Option γ) (members : List β) (place : Nat × α) :
    Option γ :=
  members[place.1]?.bind fun member => at? member place.2

/-- The places of members are in the order of the list, and then in that of the places. -/
abbrev MemberBefore {α : Type} (before : α → α → Prop) : Nat × α → Nat × α → Prop :=
  Prod.Lex (· < ·) before

/-- The term of a triple that has the role. -/
def TemplateTriple.termAt? (triple : TemplateTriple) : Role → Option TemplateTerm
  | .subject => some triple.subject
  | .predicate => some triple.predicate
  | .object => some triple.object

/-- The term of a triple of the element. -/
def Element.termAt? : Element → Nat × Role → Option TemplateTerm
  | .triples ts, place => memberAt? TemplateTriple.termAt? ts place
  | .query _, _ => none

/-- An element of a template, a triple of the element, and a role in the triple. -/
abbrev Place := Nat × Nat × Role

/-- The first place comes before the second one in the text of a template. -/
def Place.Before : Place → Place → Prop :=
  MemberBefore (MemberBefore Role.Before)

/-- What stands at the place of the query's own template. -/
def Query.termAt? (query : Query) : Place → Option TemplateTerm :=
  memberAt? Element.termAt? query.elements

/-! ## Moved expressions -/

/-- The places, in their order, are those where an expression stood before. After that there is a
variable at each of them, with the expression assigned to it, and nothing has changed at any other
place. -/
structure MovedAt {α : Type} (before : α → α → Prop) (old new : α → Option TemplateTerm)
    (places : List α) (assignments : List (Var × Expr)) : Prop where
  ordered : places.Pairwise before
  moved : List.Forall₂ (fun place (assignment : Var × Expr) =>
      old place = some (.embedded assignment.2) ∧ new place = some (.term (.var assignment.1)))
    places assignments
  kept : ∀ place, place ∉ places →
    new place = old place ∧ ∀ value, old place ≠ some (.embedded value)

section Members

variable {α β : Type} {before : α → α → Prop} {at? : β → α → Option TemplateTerm}

theorem movedAt_members_nil :
    MovedAt (MemberBefore before) (memberAt? at? []) (memberAt? at? []) [] [] :=
  ⟨.nil, .nil, fun _ _ => ⟨rfl, nofun⟩⟩

/-- The places of the first member come before those of the others, which are one further on. -/
theorem MovedAt.cons {old new : β} {olds news : List β} {heads : List α}
    {places : List (Nat × α)} {first second : List (Var × Expr)}
    (hhead : MovedAt before (at? old) (at? new) heads first)
    (hrest : MovedAt (MemberBefore before) (memberAt? at? olds) (memberAt? at? news)
      places second) :
    MovedAt (MemberBefore before) (memberAt? at? (old :: olds)) (memberAt? at? (new :: news))
      (heads.map (Prod.mk 0) ++ places.map (Prod.map Nat.succ id)) (first ++ second) := by
  refine ⟨?_, ?_, ?_⟩
  · refine List.pairwise_append.mpr ⟨?_, ?_, ?_⟩
    · exact List.pairwise_map.mpr (hhead.ordered.imp fun h => .right 0 h)
    · refine List.pairwise_map.mpr (hrest.ordered.imp fun {a b} h => ?_)
      cases h with
      | left _ _ hlt => exact .left _ _ (Nat.succ_lt_succ hlt)
      | right _ h => exact .right _ h
    · rintro _ hfirst _ hsecond
      obtain ⟨place, -, rfl⟩ := List.mem_map.mp hfirst
      obtain ⟨other, -, rfl⟩ := List.mem_map.mp hsecond
      exact .left _ _ (Nat.succ_pos other.1)
  · refine List.rel_append ?_ ?_
    · rw [List.forall₂_map_left_iff]
      exact hhead.moved
    · rw [List.forall₂_map_left_iff]
      exact hrest.moved
  · rintro ⟨number, place⟩ hplace
    rw [List.mem_append, not_or, List.mem_map, List.mem_map] at hplace
    cases number with
    | zero => exact hhead.kept place fun hmem => hplace.1 ⟨place, hmem, rfl⟩
    | succ number =>
        exact hrest.kept (number, place) fun hmem => hplace.2 ⟨(number, place), hmem, rfl⟩

end Members

/-! ## Templates -/

/-- The role, if an expression stands in it. -/
def TemplateTerm.embeddedRoles (role : Role) : TemplateTerm → List Role
  | .term _ => []
  | .embedded _ => [role]

/-- The roles of the triple in which expressions stand, from left to right. -/
def TemplateTriple.embeddedRoles (triple : TemplateTriple) : List Role :=
  triple.subject.embeddedRoles .subject ++ triple.predicate.embeddedRoles .predicate
    ++ triple.object.embeddedRoles .object

theorem TemplateTerm.exists_eq_term {role : Role} {term : TemplateTerm}
    (h : role ∉ term.embeddedRoles role) : ∃ t, term = .term t := by
  cases term with
  | term t => exact ⟨t, rfl⟩
  | embedded value => exact absurd List.mem_cons_self h

theorem TemplateTriple.movedAt_lift (fresh : Supply) (number : Nat) (triple : TemplateTriple) :
    MovedAt Role.Before triple.termAt? (triple.lift fresh number).termAt? triple.embeddedRoles
      (fresh.assign number triple.embeddings) := by
  obtain ⟨subject, predicate, object⟩ := triple
  -- Which of the three terms are expressions decides how many variables are drawn for them.
  refine ⟨?_, ?_, fun role hrole => ?_⟩
  · cases subject <;> cases predicate <;> cases object <;>
      simp [embeddedRoles, TemplateTerm.embeddedRoles, Role.Before, Role.index]
  · cases subject <;> cases predicate <;> cases object <;>
      simp [embeddedRoles, TemplateTerm.embeddedRoles, embeddings, TemplateTerm.embeddings,
        termAt?, Supply.assign, lift, TemplateTerm.lift]
  · simp only [embeddedRoles, List.mem_append, not_or] at hrole
    obtain ⟨⟨hsubject, hpredicate⟩, hobject⟩ := hrole
    cases role with
    | subject =>
        obtain ⟨t, rfl⟩ := TemplateTerm.exists_eq_term hsubject
        exact ⟨rfl, fun value hvalue => by cases hvalue⟩
    | predicate =>
        obtain ⟨t, rfl⟩ := TemplateTerm.exists_eq_term hpredicate
        exact ⟨rfl, fun value hvalue => by cases hvalue⟩
    | object =>
        obtain ⟨t, rfl⟩ := TemplateTerm.exists_eq_term hobject
        exact ⟨rfl, fun value hvalue => by cases hvalue⟩

theorem TemplateTriple.exists_movedAt_liftAll (fresh : Supply) (number : Nat)
    (triples : List TemplateTriple) :
    ∃ places, MovedAt (MemberBefore Role.Before) (memberAt? termAt? triples)
      (memberAt? termAt? (liftAll fresh number triples)) places
      (fresh.assign number (triples.flatMap embeddings)) := by
  induction triples generalizing number with
  | nil => exact ⟨[], movedAt_members_nil⟩
  | cons triple rest ih =>
      obtain ⟨places, hrest⟩ := ih (number + triple.embeddings.length)
      rw [List.flatMap_cons, Supply.assign_append]
      exact ⟨_, (movedAt_lift fresh number triple).cons hrest⟩

theorem Element.exists_movedAt_lift (fresh : Supply) (number : Nat) (element : Element) :
    ∃ places, MovedAt (MemberBefore Role.Before) element.termAt?
      (element.lift fresh number).termAt? places (fresh.assign number element.embeddings) := by
  cases element with
  | triples triples => exact TemplateTriple.exists_movedAt_liftAll fresh number triples
  | query nested => exact ⟨[], .nil, .nil, fun _ _ => ⟨rfl, nofun⟩⟩

theorem Element.exists_movedAt_liftAll (fresh : Supply) (number : Nat) (elements : List Element) :
    ∃ places, MovedAt Place.Before (memberAt? termAt? elements)
      (memberAt? termAt? (liftAll fresh number elements)) places
      (fresh.assign number (elements.flatMap embeddings)) := by
  induction elements generalizing number with
  | nil => exact ⟨[], movedAt_members_nil⟩
  | cons element rest ih =>
      obtain ⟨heads, hhead⟩ := exists_movedAt_lift fresh number element
      obtain ⟨places, hrest⟩ := ih (number + element.embeddings.length)
      rw [List.flatMap_cons, Supply.assign_append]
      exact ⟨_, hhead.cons hrest⟩

/-! ## Shapes -/

/-- The elements are the same nested query, or as many triples. -/
inductive Element.SameShape : Element → Element → Prop
  | triples {old new : List TemplateTriple} (h : new.length = old.length) :
      SameShape (.triples old) (.triples new)
  | query (nested : Query) : SameShape (.query nested) (.query nested)

/-- The forms are the same, but for the terms of a template. -/
inductive Form.SameShape : Form → Form → Prop
  | same (form : Form) : SameShape form form
  | generate {olds news : List Element} (h : List.Forall₂ Element.SameShape olds news) :
      SameShape (.generate olds) (.generate news)

theorem TemplateTriple.length_liftAll (fresh : Supply) (number : Nat)
    (triples : List TemplateTriple) : (liftAll fresh number triples).length = triples.length := by
  induction triples generalizing number with
  | nil => rfl
  | cons triple rest ih => rw [liftAll, List.length_cons, ih, List.length_cons]

theorem Element.sameShape_liftAll (fresh : Supply) (number : Nat) (elements : List Element) :
    List.Forall₂ SameShape elements (liftAll fresh number elements) := by
  induction elements generalizing number with
  | nil => exact .nil
  | cons element rest ih =>
      refine .cons ?_ (ih _)
      cases element with
      | triples triples => exact .triples (TemplateTriple.length_liftAll fresh number triples)
      | query nested => exact .query nested

theorem Form.sameShape_lift (fresh : Supply) (number : Nat) (query : Query) :
    SameShape query.form (query.lift fresh number).form := by
  obtain ⟨form, base, dataset, name, signature, clauses, pattern⟩ := query
  cases form with
  | generate elements => exact .generate (Element.sameShape_liftAll fresh number elements)
  | select | template | call => exact .same _

/-! ## Queries -/

/-- The second query is the first one with its embedded expressions moved into the pattern, each of
them assigned to a variable that stands in its place, and is otherwise the same. The variables are
those from the given number on, in the order of the places. -/
structure Query.MovesEmbeddings (fresh : Supply) (number : Nat) (query lifted : Query) : Prop where
  places : ∃ places, MovedAt Place.Before query.termAt? lifted.termAt? places
    (fresh.assign number query.embeddings)
  pattern : lifted.pattern = query.pattern.extendAll (fresh.assign number query.embeddings)
  form : Form.SameShape query.form lifted.form
  base : lifted.base = query.base
  dataset : lifted.dataset = query.dataset
  name : lifted.name = query.name
  signature : lifted.signature = query.signature
  clauses : lifted.clauses = query.clauses
  /-- Nothing is left to move. -/
  embeddings : lifted.embeddings = []

theorem Query.movesEmbeddings_lift (fresh : Supply) (number : Nat) (query : Query) :
    query.MovesEmbeddings fresh number (query.lift fresh number) where
  places := by
    unfold termAt?
    rw [elements_lift]
    exact Element.exists_movedAt_liftAll fresh number query.elements
  pattern := query.pattern_lift fresh number
  form := Form.sameShape_lift fresh number query
  base := query.base_lift fresh number
  dataset := query.dataset_lift fresh number
  name := query.name_lift fresh number
  signature := query.signature_lift fresh number
  clauses := query.clauses_lift fresh number
  embeddings := query.embeddings_lift fresh number

end SparqlGenerate
