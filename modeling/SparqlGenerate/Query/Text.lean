import SparqlGenerate.Query.Basic
import SparqlGenerate.Spelling

/-!
# The text of generate queries

The layout of a generate query around the text of its parts. A nested query is written without its
base, since there is one base for the whole text.
-/

namespace SparqlGenerate

namespace Spelling

/-- The name and the signature of a query, as they stand in its first line. -/
def identity (w : Spelling) (name : Option Iri) (signature : Option (List Var)) : String :=
  (match name with
    | none => ""
    | some name => " " ++ w.iri name)
  ++ (match signature with
    | none => ""
    | some vars => commaList (vars.map w.var))

def clause (w : Spelling) : Clause → String
  | .iterator value vars => "ITERATOR " ++ w.expr value ++ " AS" ++ leading " " (vars.map w.var)
  | .source document none var => "SOURCE " ++ w.term document ++ " AS " ++ w.var var
  | .source document (some accept) var =>
    "SOURCE " ++ w.term document ++ " ACCEPT " ++ w.term accept ++ " AS " ++ w.var var
  | .bind value var => "BIND" ++ inParens (w.expr value ++ " AS " ++ w.var var)

/-- The text of a place of a template triple. Braces tell an expression from a term. -/
def templateTerm (w : Spelling) : TemplateTerm → String
  | .term t => w.term t
  | .embedded value => inBraces (w.expr value)

def triple (w : Spelling) (t : TemplateTriple) : String :=
  w.templateTerm t.subject ++ " " ++ w.templateTerm t.predicate ++ " " ++ w.templateTerm t.object

mutual

/-- The text of a query without its base. -/
def body (w : Spelling) : Query → String
  | ⟨form, _, dataset, name, signature, clauses, pattern⟩ =>
    w.header (w.identity name signature) form
      ++ (match dataset with
        | none => ""
        | some dataset => w.dataset dataset)
      ++ leading "\n" (clauses.map w.clause)
      ++ "\nWHERE " ++ inBraces (w.pattern pattern)

/-- The first line of a query, given the text of its name and its signature. -/
def header (w : Spelling) (identity : String) : Form → String
  | .select => "SELECT *"
  | .template => "TEMPLATE" ++ identity ++ " \x7b \x7d"
  | .generate elements =>
    "GENERATE" ++ identity ++ " \x7b" ++ leading " " (w.elementEach elements) ++ " \x7d"
  | .call name parameters => "GENERATE " ++ w.name name ++ commaList (parameters.map w.expr)

def element (w : Spelling) : Element → String
  | .triples ts => " ".intercalate (ts.map fun t => w.triple t ++ " .")
  | .query q => w.body q ++ " ."

def elementEach (w : Spelling) : List Element → List String
  | [] => []
  | head :: rest => w.element head :: w.elementEach rest

end

/-- The text of a query: its base on a line of its own, then its body. -/
def query (w : Spelling) (q : Query) : String :=
  baseText q.base ++ w.body q

end Spelling

/-- The text of a query. -/
def Query.text (query : Query) : String := Spelling.sparql.query query

def Element.text (element : Element) : String := Spelling.sparql.element element

def Clause.text (clause : Clause) : String := Spelling.sparql.clause clause

def TemplateTriple.text (triple : TemplateTriple) : String := Spelling.sparql.triple triple

def TemplateTerm.text (term : TemplateTerm) : String := Spelling.sparql.templateTerm term

end SparqlGenerate
