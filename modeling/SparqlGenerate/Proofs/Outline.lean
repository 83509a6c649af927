import SparqlGenerate.Query.Text

/-!
# What the text of a query is made of

The text of a query tells less than the query. The base of a nested query is not written, nor are
the name and the signature of a `SELECT` query or of a call; blocks of triples that stand side by
side run together, unless one of them is empty; and of each part of plain SPARQL there is no more
than its text. What is left is the outline of the query, and the text is printed from it.

An outline is printed onto the characters that follow it. So a form is the chain of its pieces, and
two printed forms are compared piece by piece from the left.
-/

namespace SparqlGenerate

/-! ## Texts on characters -/

/-- The characters of the text, ahead of the rest. -/
def ahead (text : String) (rest : List Char) : List Char :=
  text.toList ++ rest

theorem ahead_append (first second : String) (rest : List Char) :
    ahead (first ++ second) rest = ahead first (ahead second rest) := by
  simp [ahead]

@[simp]
theorem ahead_empty (rest : List Char) : ahead "" rest = rest := by
  simp [ahead]

theorem ahead_nil (text : String) : ahead text [] = text.toList := by
  simp [ahead]

/-- The texts in order, each of them preceded by the lead. -/
def aheadEach (lead : String) : List String → List Char → List Char
  | [], rest => rest
  | text :: more, rest => ahead lead (ahead text (aheadEach lead more rest))

/-- The texts as a list in parentheses, with commas between them. -/
def aheadList : List String → List Char → List Char
  | [], rest => ahead "(" (ahead ")" rest)
  | text :: more, rest => ahead "(" (ahead text (aheadEach ", " more (ahead ")" rest)))

theorem ahead_leading (lead : String) (texts : List String) (rest : List Char) :
    ahead (leading lead texts) rest = aheadEach lead texts rest := by
  induction texts with
  | nil => simp [aheadEach]
  | cons text more ih => simp only [leading_cons, ahead_append, ih, aheadEach]

theorem ahead_commaList (texts : List String) (rest : List Char) :
    ahead (commaList texts) rest = aheadList texts rest := by
  cases texts with
  | nil => simp [commaList, inParens, aheadList, ahead]
  | cons text more =>
      simp only [commaList, inParens, intercalate_cons_eq_leading, ahead_append, ahead_leading,
        aheadList]

theorem ahead_inBraces (text : String) (rest : List Char) :
    ahead (inBraces text) rest = ahead "\x7b " (ahead text (ahead " \x7d" rest)) := by
  simp only [inBraces, ahead_append]

/-! ## Outlines -/

/-- The name and the signature of a query, as they stand in its first line. -/
structure Heading where
  name : Option String
  signature : Option (List String)
  deriving DecidableEq, Repr

inductive ClauseOutline where
  | iterator (value : String) (vars : List String)
  | source (document : String) (accept : Option String) (var : String)
  | bind (value : String) (var : String)
  deriving DecidableEq, Repr

inductive TermOutline where
  | term (text : String)
  | embedded (text : String)
  deriving DecidableEq, Repr

structure TripleOutline where
  subject : TermOutline
  predicate : TermOutline
  object : TermOutline
  deriving DecidableEq, Repr

mutual

/-- What the text of a query tells of it, apart from the base. A missing dataset is written as the
empty text. -/
structure Outline where
  form : FormOutline
  dataset : String
  clauses : List ClauseOutline
  pattern : String

inductive FormOutline where
  | select
  | template (heading : Heading)
  | generate (heading : Heading) (pieces : List Piece)
  | call (name : String) (parameters : List String)

/-- A piece of the text of a template. -/
inductive Piece where
  /-- A block without triples. -/
  | gap
  | triple (triple : TripleOutline)
  | query (outline : Outline)

end

/-! ## The outline of a query -/

namespace Spelling

def heading (w : Spelling) (name : Option Iri) (signature : Option (List Var)) : Heading :=
  ⟨name.map w.iri, signature.map fun vars => vars.map w.var⟩

def clauseOutline (w : Spelling) : Clause → ClauseOutline
  | .iterator value vars => .iterator (w.expr value) (vars.map w.var)
  | .source document accept var => .source (w.term document) (accept.map w.term) (w.var var)
  | .bind value var => .bind (w.expr value) (w.var var)

def termOutline (w : Spelling) : TemplateTerm → TermOutline
  | .term t => .term (w.term t)
  | .embedded value => .embedded (w.expr value)

def tripleOutline (w : Spelling) (triple : TemplateTriple) : TripleOutline :=
  ⟨w.termOutline triple.subject, w.termOutline triple.predicate, w.termOutline triple.object⟩

mutual

/-- What the text of the query tells of it. -/
def outline (w : Spelling) : Query → Outline
  | ⟨form, _, dataset, name, signature, clauses, pattern⟩ =>
    ⟨w.formOutline (w.heading name signature) form, (dataset.map w.dataset).getD "",
      clauses.map w.clauseOutline, w.pattern pattern⟩

/-- The outline of the form, in a query with the heading. Only some forms show it. -/
def formOutline (w : Spelling) (heading : Heading) : Form → FormOutline
  | .select => .select
  | .template => .template heading
  | .generate elements => .generate heading (w.piecesEach elements)
  | .call name parameters => .call (w.name name) (parameters.map w.expr)

def pieces (w : Spelling) : Element → List Piece
  | .triples [] => [.gap]
  | .triples (triple :: rest) =>
    (triple :: rest).map fun t => .triple (w.tripleOutline t)
  | .query q => [.query (w.outline q)]

/-- The pieces of the elements. Blocks of triples run together. -/
def piecesEach (w : Spelling) : List Element → List Piece
  | [] => []
  | element :: rest => w.pieces element ++ w.piecesEach rest

end

end Spelling

/-! ## Printing -/

def printSignature : Option (List String) → List Char → List Char
  | none, rest => rest
  | some signature, rest => aheadList signature rest

def Heading.print : Heading → List Char → List Char
  | ⟨none, signature⟩, rest => printSignature signature rest
  | ⟨some name, signature⟩, rest => ahead " " (ahead name (printSignature signature rest))

def ClauseOutline.print : ClauseOutline → List Char → List Char
  | .iterator value vars, rest =>
    ahead "ITERATOR " (ahead value (ahead " AS" (aheadEach " " vars rest)))
  | .source document none var, rest =>
    ahead "SOURCE " (ahead document (ahead " AS " (ahead var rest)))
  | .source document (some accept) var, rest =>
    ahead "SOURCE " (ahead document (ahead " ACCEPT " (ahead accept
      (ahead " AS " (ahead var rest)))))
  | .bind value var, rest =>
    ahead "BIND" (ahead "(" (ahead value (ahead " AS " (ahead var (ahead ")" rest)))))

def ClauseOutline.printEach : List ClauseOutline → List Char → List Char
  | [], rest => rest
  | clause :: more, rest => ahead "\n" (clause.print (printEach more rest))

def TermOutline.print : TermOutline → List Char → List Char
  | .term text, rest => ahead text rest
  | .embedded text, rest => ahead "\x7b " (ahead text (ahead " \x7d" rest))

def TripleOutline.print (triple : TripleOutline) (rest : List Char) : List Char :=
  triple.subject.print (ahead " " (triple.predicate.print (ahead " "
    (triple.object.print (ahead " ." rest)))))

mutual

def Outline.print : Outline → List Char → List Char
  | ⟨form, dataset, clauses, pattern⟩, rest =>
    form.print (ahead dataset (ClauseOutline.printEach clauses
      (ahead "\nWHERE \x7b " (ahead pattern (ahead " \x7d" rest)))))

def FormOutline.print : FormOutline → List Char → List Char
  | .select, rest => ahead "SELECT *" rest
  | .template heading, rest => ahead "TEMPLATE" (heading.print (ahead " \x7b \x7d" rest))
  | .generate heading pieces, rest =>
    ahead "GENERATE" (heading.print (ahead " \x7b" (Piece.printEach pieces (ahead " \x7d" rest))))
  -- A call has the name and the parameters where another query has its name and its signature.
  | .call name parameters, rest =>
    ahead "GENERATE" (Heading.print ⟨some name, some parameters⟩ rest)

def Piece.print : Piece → List Char → List Char
  | .gap, rest => rest
  | .triple triple, rest => triple.print rest
  | .query outline, rest => outline.print (ahead " ." rest)

def Piece.printEach : List Piece → List Char → List Char
  | [], rest => rest
  | piece :: more, rest => ahead " " (piece.print (Piece.printEach more rest))

end

theorem Piece.printEach_append (first second : List Piece) (rest : List Char) :
    printEach (first ++ second) rest = printEach first (printEach second rest) := by
  induction first with
  | nil => rfl
  | cons piece more ih => rw [List.cons_append, printEach, ih, printEach]

/-! ## The text is printed from the outline -/

namespace Spelling

variable (w : Spelling)

theorem ahead_identity (name : Option Iri) (signature : Option (List Var)) (rest : List Char) :
    ahead (w.identity name signature) rest = (w.heading name signature).print rest := by
  cases name <;> cases signature <;>
    simp [identity, heading, Heading.print, printSignature, ahead_append, ahead_commaList]

theorem ahead_clause (clause : Clause) (rest : List Char) :
    ahead (w.clause clause) rest = (w.clauseOutline clause).print rest := by
  cases clause with
  | iterator value vars =>
      simp only [Spelling.clause, clauseOutline, ClauseOutline.print, ahead_append, ahead_leading]
  | source document accept var =>
      cases accept <;>
        simp only [Spelling.clause, clauseOutline, Option.map_none, Option.map_some,
          ClauseOutline.print, ahead_append]
  | bind value var =>
      simp only [Spelling.clause, clauseOutline, ClauseOutline.print, inParens, ahead_append]

theorem ahead_clauses (clauses : List Clause) (rest : List Char) :
    ahead (leading "\n" (clauses.map w.clause)) rest =
      ClauseOutline.printEach (clauses.map w.clauseOutline) rest := by
  induction clauses with
  | nil => simp [ClauseOutline.printEach]
  | cons clause more ih =>
      simp only [List.map_cons, leading_cons, ahead_append, ih, ahead_clause,
        ClauseOutline.printEach]

theorem ahead_templateTerm (term : TemplateTerm) (rest : List Char) :
    ahead (w.templateTerm term) rest = (w.termOutline term).print rest := by
  cases term with
  | term t => rfl
  | embedded value => exact ahead_inBraces (w.expr value) rest

theorem ahead_triple (triple : TemplateTriple) (rest : List Char) :
    ahead (w.triple triple ++ " .") rest = (w.tripleOutline triple).print rest := by
  simp only [Spelling.triple, ahead_append, ahead_templateTerm, tripleOutline,
    TripleOutline.print]

/-- A block that is not empty is written like the triples that it holds. -/
theorem ahead_triples (triple : TemplateTriple) (more : List TemplateTriple) (rest : List Char) :
    ahead " " (ahead (w.element (.triples (triple :: more))) rest) =
      Piece.printEach (w.pieces (.triples (triple :: more))) rest := by
  rw [element, List.map_cons, intercalate_cons_eq_leading, ahead_append, ahead_triple, pieces,
    List.map_cons, Piece.printEach, Piece.print]
  congr 2
  induction more with
  | nil => simp [Piece.printEach]
  | cons next more ih =>
      simp only [List.map_cons, leading_cons, ahead_append " ", ahead_append (" " ++ _), ih,
        ahead_triple, Piece.printEach, Piece.print]

mutual

/-- The text of a query without its base is the printed outline. -/
theorem ahead_body : (query : Query) → (rest : List Char) →
    ahead (w.body query) rest = (w.outline query).print rest
  | ⟨form, base, dataset, name, signature, clauses, pattern⟩, rest => by
    simp only [body, outline, Outline.print, ahead_append, ahead_inBraces, ahead_clauses,
      ahead_header form name signature]
    cases dataset with
    | none => rfl
    | some dataset => rfl

theorem ahead_header : (form : Form) → (name : Option Iri) → (signature : Option (List Var)) →
    (rest : List Char) → ahead (w.header (w.identity name signature) form) rest =
      (w.formOutline (w.heading name signature) form).print rest
  | .select, name, signature, rest => rfl
  | .template, name, signature, rest => by
    simp only [header, ahead_append, ahead_identity, formOutline, FormOutline.print]
  | .generate elements, name, signature, rest => by
    simp only [header, ahead_append, ahead_identity, ahead_elements elements, formOutline,
      FormOutline.print]
  | .call callee parameters, name, signature, rest => by
    simp only [header, ahead_append, ahead_commaList, formOutline, FormOutline.print,
      Heading.print, printSignature]
    rfl

theorem ahead_element : (element : Element) → (rest : List Char) →
    ahead " " (ahead (w.element element) rest) = Piece.printEach (w.pieces element) rest
  | .triples [], rest => by
    simp [element, pieces, Piece.printEach, Piece.print]
  | .triples (triple :: more), rest => w.ahead_triples triple more rest
  | .query query, rest => by
    simp only [element, ahead_append, ahead_body query, pieces, Piece.printEach, Piece.print]

theorem ahead_elements : (elements : List Element) → (rest : List Char) →
    ahead (leading " " (w.elementEach elements)) rest = Piece.printEach (w.piecesEach elements) rest
  | [], rest => by simp [elementEach, piecesEach, Piece.printEach]
  | element :: more, rest => by
    rw [elementEach, piecesEach, leading_cons, ahead_append, ahead_append, ahead_elements more,
      ahead_element element, Piece.printEach_append]

end

end Spelling

end SparqlGenerate
