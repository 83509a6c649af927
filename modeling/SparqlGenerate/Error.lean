import SparqlGenerate.Query.Basic

/-!
# Errors of a compilation

An error is kept as its cause, with the part of the query that is at fault. Its kind and its
wording are read off the cause.
-/

namespace SparqlGenerate

/-- What the compiler finds wrong. -/
inductive Fault where
  | iteratorWithoutVars
  | iteratorNotCall (value : Expr)
  | sourceNotName (document : Term)
  | acceptNotName (accept : Term)
  | predicateNotName (predicate : Term)
  | noParser
  | notCall
  | notGenerate
  | notNamed
  /-- The query still has that many embedded expressions, and no round is left to lift them. -/
  | roundsExhausted (embedded rounds : Nat)
  /-- A round left as many embedded expressions as there were, or more. -/
  | notReduced (before after : Nat)
  /-- A template with an embedded expression was compiled without being lifted. -/
  | notLifted (value : Expr)

inductive ClauseKind where
  | iterator
  | source
  | bind
  | templateTriple
  deriving DecidableEq, Repr

/-- The kinds of errors, each with what it says. -/
inductive Report where
  | malformed (clause : ClauseKind) (detail : String)
  | invalid (detail : String)
  | internal (detail : String)
  deriving DecidableEq, Repr

/-- Why a compilation fails. -/
inductive CompileError where
  | fault (fault : Fault)
  /-- The text could not be parsed, for a reason given in the parser's own words. -/
  | parse (query reason : String)
  /-- An error that a parser reported as one of the compiler's own kinds. -/
  | reported (report : Report)

def ClauseKind.text : ClauseKind → String
  | .iterator => "ITERATOR"
  | .source => "SOURCE"
  | .bind => "BIND"
  | .templateTriple => "GENERATE triple"

/-- The kind and the wording of a fault. -/
def Fault.report : Fault → Report
  | .iteratorWithoutVars => .malformed .iterator "The iterator must bind at least one variable"
  | .iteratorNotCall value =>
    .malformed .iterator
      ("Iterator should be a function: <iri>(...) AS ?var1 ?var2 ... Got " ++ value.text)
  | .sourceNotName document =>
    .malformed .source ("The source must be a URI or a variable. Got " ++ document.text)
  | .acceptNotName accept =>
    .malformed .source ("The accept must be a variable or a URI. Got " ++ accept.text)
  | .predicateNotName predicate =>
    .malformed .templateTriple
      ("The predicate must be a URI or a variable. Got " ++ predicate.text)
  | .noParser => .invalid "No parser is configured to parse the query"
  | .notCall => .invalid "Query was expected to be a named sub query"
  | .notGenerate => .invalid "Query was expected to be of type GENERATE \x7b...\x7d ..."
  | .notNamed => .invalid "Only queries with a name can be registered as named sub-queries"
  | .roundsExhausted embedded rounds =>
    .internal (toString embedded ++ " embedded expressions are left after " ++ toString rounds
      ++ " normalization rounds")
  | .notReduced before after =>
    .internal ("Normalization did not reduce the number of embedded expressions ("
      ++ toString before ++ " before, " ++ toString after ++ " after)")
  | .notLifted value =>
    .internal ("The embedded expression " ++ value.text ++ " should have been normalized")

def Report.message : Report → String
  | .malformed clause detail => "Malformed " ++ clause.text ++ " clause: " ++ detail
  | .invalid detail => "Invalid plan: " ++ detail
  | .internal detail => "Internal compiler error: " ++ detail

def CompileError.message : CompileError → String
  | .fault f => f.report.message
  | .parse query _ => "Error while parsing the query\n" ++ query
  | .reported r => r.message

end SparqlGenerate
