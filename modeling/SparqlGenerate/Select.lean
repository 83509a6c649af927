import SparqlGenerate.Algebra.Text
import SparqlGenerate.Algebra.Sse

/-!
# `SELECT` queries

The plain query that is left of a generate query once its template and its binding clauses are
taken away: a pattern, the dataset it is matched against, and the base of its IRIs.
-/

namespace SparqlGenerate

/-- The graphs a query reads. A list of named graphs that is empty is not a missing one. -/
structure Dataset where
  graphs : List Iri
  named : Option (List Iri)
  deriving DecidableEq, Repr

/-- The clauses that name the graphs, each with a blank in front of it. -/
def Dataset.text (dataset : Dataset) : String :=
  leading " FROM " (dataset.graphs.map Iri.text)
    ++ leading " FROM NAMED " ((dataset.named.getD []).map Iri.text)

def Dataset.sse (dataset : Dataset) : String :=
  blankList (dataset.graphs.map Iri.text
    ++ (dataset.named.getD []).map fun graph => blankList ["named", graph.text])

structure SelectQuery where
  dataset : Option Dataset
  pattern : Pattern
  base : Option Iri

/-- The line that sets the base of the IRIs. -/
def baseText : Option Iri → String
  | none => ""
  | some base => "BASE " ++ base.text ++ "\n"

def SelectQuery.text (query : SelectQuery) : String :=
  baseText query.base ++ query.pattern.texts.select { dataset := query.dataset.map Dataset.text }

/-- The S-expression of a query: its pattern, with its dataset and its base around it. -/
def SelectQuery.sse (query : SelectQuery) : String :=
  let pattern := query.pattern.sse
  let queried := match query.dataset with
    | none => pattern
    | some dataset => blankList ["dataset", dataset.sse, pattern]
  match query.base with
  | none => queried
  | some base => blankList ["base", base.text, queried]

end SparqlGenerate
