import SparqlGenerate.Algebra.Basic

/-!
# The algebra as S-expressions

Every operator is the head of a list that holds its operands. Terms and variables are written as
in SPARQL text.
-/

namespace SparqlGenerate

def Path.sse : Path → String
  | .iri name => name.text
  | .reverse path => blankList ["reverse", path.sse]
  | .sequence first second => blankList ["seq", first.sse, second.sse]
  | .alternative first second => blankList ["alt", first.sse, second.sse]
  | .zeroOrMore path => blankList ["path*", path.sse]
  | .oneOrMore path => blankList ["path+", path.sse]
  | .zeroOrOne path => blankList ["path?", path.sse]
  | .negated names => blankList ("notoneof" :: names.map Iri.text)

/-- A built-in function goes by its name in lower case. -/
def FunctionName.sse : FunctionName → String
  | .builtin name => name.name.toLower
  | .custom name => name.text

/-- An aggregate goes by its name in lower case. -/
def AggregateName.sse : AggregateName → String
  | .count => "count"
  | .sum => "sum"
  | .avg => "avg"
  | .min => "min"
  | .max => "max"
  | .sample => "sample"
  | .groupConcat _ => "group_concat"
  | .custom name => name.text

/-- What stands in front of the operand of an aggregate. -/
def distinctWord (distinct : Bool) : List String :=
  if distinct then ["distinct"] else []

/-- What stands behind the operand of an aggregate. -/
def AggregateName.options : AggregateName → List String
  | .groupConcat (some separator) => [quoted separator]
  | _ => []

/-- A triple is a list of its terms. -/
def TriplePattern.sse (triple : TriplePattern) : String :=
  blankList ["triple", triple.subject.text, triple.predicate.text, triple.object.text]

/-- A row of constants holds the variables that the row binds, each with its value. -/
def rowSse (vars : List Var) (row : List (Option Term)) : String :=
  blankList ("row" :: (vars.zip row).filterMap fun (v, cell) =>
    cell.map fun term => blankList [v.text, term.text])

mutual

/-- The S-expression of an expression. A call has a blank in front of its function. -/
def Expr.sse : Expr → String
  | .iri name => name.text
  | .literal value => value.text
  | .var name => name.text
  | .binary op left right => blankList [op.symbol, left.sse, right.sse]
  | .unary op operand => blankList [op.symbol, operand.sse]
  | .oneOf operand members => blankList ("in" :: operand.sse :: Expr.sseEach members)
  | .hasSolution pattern => blankList ["exists", pattern.sse]
  | .bound name => blankList ["bound", name.text]
  | .cond test yes no => blankList ["if", test.sse, yes.sse, no.sse]
  | .coalesce operands => blankList ("coalesce" :: Expr.sseEach operands)
  | .call function arguments => blankList ("" :: function.sse :: Expr.sseEach arguments)

def Expr.sseEach : List Expr → List String
  | [] => []
  | e :: rest => e.sse :: Expr.sseEach rest

def Aggregate.sse : Aggregate → String
  | .countSolutions distinct => blankList ("count" :: distinctWord distinct)
  | .apply name operand distinct =>
    blankList (name.sse :: (distinctWord distinct ++ operand.sse :: name.options))

def Aggregate.sseEach : List (Var × Aggregate) → List String
  | [] => []
  | (v, aggregate) :: rest => blankList [aggregate.sse, v.text] :: Aggregate.sseEach rest

def OrderKey.sse : OrderKey → String
  | .asc key => blankList ["asc", key.sse]
  | .desc key => blankList ["desc", key.sse]

def OrderKey.sseEach : List OrderKey → List String
  | [] => []
  | key :: rest => key.sse :: OrderKey.sseEach rest

def Pattern.sse : Pattern → String
  | .bgp triples => blankList ("bgp" :: triples.map TriplePattern.sse)
  | .path subject path object => blankList ["path", subject.text, path.sse, object.text]
  | .join left right => blankList ["join", left.sse, right.sse]
  | .leftJoin left right none => blankList ["leftjoin", left.sse, right.sse]
  | .leftJoin left right (some condition) =>
    blankList ["leftjoin", left.sse, right.sse, condition.sse]
  | .filter condition inner => blankList ["filter", condition.sse, inner.sse]
  | .union left right => blankList ["union", left.sse, right.sse]
  | .graph name inner => blankList ["graph", name.text, inner.sse]
  | .extend inner v value =>
    blankList ["extend", blankList [blankList [v.text, value.sse]], inner.sse]
  | .minus left right => blankList ["minus", left.sse, right.sse]
  | .values vars rows =>
    blankList ("table" :: blankList ("vars" :: vars.map Var.text) :: rows.map (rowSse vars))
  | .orderBy inner keys => blankList ["order", blankList (OrderKey.sseEach keys), inner.sse]
  | .project inner vars => blankList ["project", blankList (vars.map Var.text), inner.sse]
  | .distinct inner => blankList ["distinct", inner.sse]
  | .reduced inner => blankList ["reduced", inner.sse]
  | .slice inner start length =>
    blankList ["slice", toString start, length.elim "_" toString, inner.sse]
  | .group inner keys aggregates =>
    blankList ["group", blankList (keys.map Var.text), blankList (Aggregate.sseEach aggregates),
      inner.sse]
  | .service name inner silent =>
    blankList ("service" :: ((if silent then ["silent"] else []) ++ [name.text, inner.sse]))

end

end SparqlGenerate
