import SparqlGenerate.Select

/-!
# Spellings

How the parts of plain SPARQL are written inside a generate query and inside a plan. The layout of
queries and plans asks nothing of these texts, so it is fixed for every spelling; what can be read
back from a layout depends on what can be read back from the spelling.
-/

namespace SparqlGenerate

/-- A choice of text for each part of plain SPARQL. -/
structure Spelling where
  term : Term → String
  var : Var → String
  expr : Expr → String
  pattern : Pattern → String
  dataset : Dataset → String
  /-- The form in which a plan shows its `SELECT` query. -/
  select : SelectQuery → String

namespace Spelling

def iri (w : Spelling) (i : Iri) : String :=
  w.term (.iri i)

def name (w : Spelling) (n : VarOrIri) : String :=
  w.term n.toTerm

/-- SPARQL text, and S-expressions for `SELECT` queries. -/
def sparql : Spelling where
  term := Term.text
  var := Var.text
  expr := Expr.text
  pattern := Pattern.text
  dataset := Dataset.text
  select := SelectQuery.sse

end Spelling

end SparqlGenerate
