import SparqlGenerate.Proofs.Outline

/-!
# Legible texts

Of the texts of terms, variables, expressions, patterns and datasets it is only asked how they start
and where they end. Each of them stands in places where the layout of a query goes on in a few ways,
and it has to be told from what follows: two texts for the same place that are followed by what is
written next, and by anything after that, are equal if the wholes are.

Not all texts that a printer can produce are like that, since it prints invalid names too. So these
are properties of a lexicon, a choice of texts that the parts of a query may have.
-/

namespace SparqlGenerate

/-- The characters start with one of the openings. -/
def StartsWith (openings : List String) (chars : List Char) : Prop :=
  ∃ opening ∈ openings, opening.toList <+: chars

/-- The places where a query has the text of a part of plain SPARQL. -/
inductive Slot where
  /-- A term of a template triple before another one. -/
  | subject
  /-- The last term of a template triple. -/
  | object
  /-- An expression in a template. -/
  | embedded
  | document
  | accept
  | sourceVar
  | iterated
  | iteratorVar
  | bound
  | boundVar
  | name
  /-- A variable of a signature, or an expression that is handed to a call. -/
  | parameter
  | pattern
  | dataset

/-- What may be written next after the text in the place. -/
def Slot.followers : Slot → List String
  | .subject => [" "]
  | .object => [" ."]
  | .embedded | .pattern => [" \x7d"]
  | .document => [" AS ", " ACCEPT "]
  | .accept | .bound => [" AS "]
  | .sourceVar | .dataset => ["\n"]
  | .iterated => [" AS"]
  | .iteratorVar => [" ", "\n"]
  | .boundVar => [")"]
  | .name => ["(", " \x7b"]
  | .parameter => [", ", ")"]

/-- The texts that may be written for the parts of a query. -/
structure Lexicon where
  term : String → Prop
  var : String → Prop
  expr : String → Prop
  pattern : String → Prop
  dataset : String → Prop

namespace Lexicon

/-- The text may stand in the place. -/
def Fits (L : Lexicon) : Slot → String → Prop
  | .subject, text | .object, text | .document, text | .accept, text | .name, text => L.term text
  | .embedded, text | .iterated, text | .bound, text => L.expr text
  | .sourceVar, text | .iteratorVar, text | .boundVar, text => L.var text
  | .parameter, text => L.var text ∨ L.expr text
  | .pattern, text => L.pattern text
  | .dataset, text => L.dataset text

/-- The texts start as they have to, and each of them can be told from what follows it. -/
structure Legible (L : Lexicon) : Prop where
  term : ∀ text, L.term text → StartsWith ["<", "?", "_:", "\""] text.toList
  var : ∀ text, L.var text → StartsWith ["?"] text.toList
  expr : ∀ text, L.expr text → text ≠ "" ∧ ¬ StartsWith [")"] text.toList
  dataset : ∀ text, L.dataset text → text = "" ∨ StartsWith [" FROM "] text.toList
  delimited : ∀ slot first second, L.Fits slot first → L.Fits slot second →
    ∀ next ∈ slot.followers, ∀ other ∈ slot.followers, ∀ rest further : String,
      first ++ next ++ rest = second ++ other ++ further → first = second

end Lexicon

/-! ## Outlines within a lexicon -/

section Within

variable (L : Lexicon)

def Heading.Within (heading : Heading) : Prop :=
  (∀ name ∈ heading.name, L.term name) ∧
    ∀ signature ∈ heading.signature, ∀ var ∈ signature, L.var var

def ClauseOutline.Within : ClauseOutline → Prop
  | .iterator value vars => L.expr value ∧ ∀ var ∈ vars, L.var var
  | .source document accept var => L.term document ∧ (∀ media ∈ accept, L.term media) ∧ L.var var
  | .bind value var => L.expr value ∧ L.var var

def TermOutline.Within : TermOutline → Prop
  | .term text => L.term text
  | .embedded text => L.expr text

def TripleOutline.Within (triple : TripleOutline) : Prop :=
  triple.subject.Within L ∧ triple.predicate.Within L ∧ triple.object.Within L

mutual

/-- All texts of parts of plain SPARQL in the outline are from the lexicon. -/
def Outline.Within : Outline → Prop
  | ⟨form, dataset, clauses, pattern⟩ =>
    form.Within ∧ (dataset = "" ∨ L.dataset dataset) ∧ (∀ clause ∈ clauses, clause.Within L) ∧
      L.pattern pattern

def FormOutline.Within : FormOutline → Prop
  | .select => True
  | .template heading => heading.Within L
  | .generate heading pieces => heading.Within L ∧ Piece.WithinEach pieces
  | .call name parameters => L.term name ∧ ∀ parameter ∈ parameters, L.expr parameter

def Piece.Within : Piece → Prop
  | .gap => True
  | .triple triple => triple.Within L
  | .query outline => outline.Within

def Piece.WithinEach : List Piece → Prop
  | [] => True
  | piece :: rest => piece.Within ∧ Piece.WithinEach rest

end

theorem Piece.withinEach_iff {pieces : List Piece} :
    WithinEach L pieces ↔ ∀ piece ∈ pieces, piece.Within L := by
  induction pieces with
  | nil => simp [WithinEach]
  | cons piece rest ih => rw [WithinEach, ih, List.forall_mem_cons]

end Within

/-! ## The lexicon of a spelling -/

namespace Spelling

variable (w : Spelling)

/-- All texts that the spelling has for the parts. -/
def lexicon : Lexicon where
  term text := ∃ t, w.term t = text
  var text := ∃ v, w.var v = text
  expr text := ∃ e, w.expr e = text
  pattern text := ∃ p, w.pattern p = text
  dataset text := ∃ d, w.dataset d = text

theorem within_heading (name : Option Iri) (signature : Option (List Var)) :
    (w.heading name signature).Within w.lexicon := by
  constructor
  · intro text htext
    obtain ⟨i, -, rfl⟩ := Option.map_eq_some_iff.mp htext
    exact ⟨.iri i, rfl⟩
  · intro texts htexts text htext
    obtain ⟨vars, -, rfl⟩ := Option.map_eq_some_iff.mp htexts
    obtain ⟨v, -, rfl⟩ := List.mem_map.mp htext
    exact ⟨v, rfl⟩

theorem within_clauseOutline (clause : Clause) : (w.clauseOutline clause).Within w.lexicon := by
  cases clause with
  | iterator value vars =>
      refine ⟨⟨value, rfl⟩, ?_⟩
      intro text htext
      obtain ⟨v, -, rfl⟩ := List.mem_map.mp htext
      exact ⟨v, rfl⟩
  | source document accept var =>
      refine ⟨⟨document, rfl⟩, ?_, ⟨var, rfl⟩⟩
      intro text htext
      obtain ⟨t, -, rfl⟩ := Option.map_eq_some_iff.mp htext
      exact ⟨t, rfl⟩
  | bind value var => exact ⟨⟨value, rfl⟩, ⟨var, rfl⟩⟩

theorem within_termOutline (term : TemplateTerm) : (w.termOutline term).Within w.lexicon := by
  cases term with
  | term t => exact ⟨t, rfl⟩
  | embedded value => exact ⟨value, rfl⟩

theorem within_tripleOutline (triple : TemplateTriple) :
    (w.tripleOutline triple).Within w.lexicon :=
  ⟨w.within_termOutline triple.subject, w.within_termOutline triple.predicate,
    w.within_termOutline triple.object⟩

mutual

/-- Every query is written with the texts of the spelling. -/
theorem within_outline : (query : Query) → (w.outline query).Within w.lexicon
  | ⟨form, base, dataset, name, signature, clauses, pattern⟩ => by
    rw [outline, Outline.Within]
    refine ⟨within_formOutline form name signature, ?_, ?_, ⟨pattern, rfl⟩⟩
    · cases dataset with
      | none => exact Or.inl rfl
      | some dataset => exact Or.inr ⟨dataset, rfl⟩
    · intro text htext
      obtain ⟨clause, -, rfl⟩ := List.mem_map.mp htext
      exact w.within_clauseOutline clause

theorem within_formOutline : (form : Form) → (name : Option Iri) →
    (signature : Option (List Var)) →
    (w.formOutline (w.heading name signature) form).Within w.lexicon
  | .select, name, signature => trivial
  | .template, name, signature => w.within_heading name signature
  | .generate elements, name, signature =>
    ⟨w.within_heading name signature, within_piecesEach elements⟩
  | .call callee parameters, name, signature => by
    refine ⟨⟨callee.toTerm, rfl⟩, ?_⟩
    intro text htext
    obtain ⟨parameter, -, rfl⟩ := List.mem_map.mp htext
    exact ⟨parameter, rfl⟩

theorem within_pieces : (element : Element) → Piece.WithinEach w.lexicon (w.pieces element)
  | .triples [] => ⟨trivial, trivial⟩
  | .triples (triple :: more) => by
    rw [pieces, Piece.withinEach_iff]
    intro piece hpiece
    obtain ⟨t, -, rfl⟩ := List.mem_map.mp hpiece
    exact w.within_tripleOutline t
  | .query query => ⟨within_outline query, trivial⟩

theorem within_piecesEach : (elements : List Element) →
    Piece.WithinEach w.lexicon (w.piecesEach elements)
  | [] => trivial
  | element :: more => by
    have hfirst := within_pieces element
    have hmore := within_piecesEach more
    rw [Piece.withinEach_iff] at hfirst hmore
    rw [piecesEach, Piece.withinEach_iff]
    exact List.forall_mem_append.mpr ⟨hfirst, hmore⟩

end

end Spelling

end SparqlGenerate
