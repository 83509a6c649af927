import SparqlGenerate.Plan.Parts
import SparqlGenerate.Run

/-!
# Compiling queries to plans

A query is first rid of its embedded expressions, then its clauses are checked in order, then its
template, in which each nested query is compiled at its place. The first error ends the compilation.

Without a parser a query is compiled to the depth it has. With a parser each answer may hold further
nested queries, so there need be no end: a compilation that goes deeper than the parser's levels
allow is abandoned.
-/

namespace SparqlGenerate

/-- What a compilation depends on besides its query. -/
structure Compiler where
  /-- The base of the queries that have none. -/
  base : Option Iri := none
  /-- How many rounds a query has to be rid of its embedded expressions. -/
  maxRounds : Nat := 8
  parser : Option Parser := none
  /-- Where fresh variables come from. -/
  fresh : Supply := .numbered

namespace Compiler

def baseOf (compiler : Compiler) (query : Query) : Option Iri :=
  query.base <|> compiler.base

/-! ## Normalization -/

/-- The call by which a query is parsed again. A call, and a query that has parameters but no name,
make sense only as a part of a query. -/
def rereadCall (compiler : Compiler) (query : Query) : Call :=
  match query.form, query.name, query.signature with
  | .call .., _, _ | _, none, some _ => .subQuery query.text query
  | _, _, _ => .query query.text (compiler.baseOf query)

/-- The query as the parser reads its text; the query itself without a parser. -/
def reread (compiler : Compiler) (query : Query) : Run Query :=
  match compiler.parser with
  | none => pure query
  | some parser => parser.ask (compiler.rereadCall query)

/-- Reads the query again and lifts it until it has no embedded expressions of its own, in the given
number of rounds at most. -/
def normalizeWithin (compiler : Compiler) (rounds : Nat) (query : Query) : Run Query :=
  if query.embeddedCount = 0 then pure query
  else match rounds with
    | 0 => throw (.fault (.roundsExhausted query.embeddedCount compiler.maxRounds))
    | rounds + 1 => do
      let reread ← compiler.reread query
      let lifted ← reread.liftNext compiler.fresh
      -- Lifting leaves nothing embedded; this keeps the loop from going on in vain all the same.
      if query.embeddedCount ≤ lifted.embeddedCount then
        throw (.fault (.notReduced query.embeddedCount lifted.embeddedCount))
      compiler.normalizeWithin rounds lifted

def normalize (compiler : Compiler) (query : Query) : Run Query :=
  compiler.normalizeWithin compiler.maxRounds query

/-! ## Output forms -/

def callPlan (compiler : Compiler) (query : Query) : Except CompileError CallPlan :=
  match query.form with
  | .call name parameters => .ok ⟨compiler.baseOf query, name, parameters⟩
  | _ => .error (.fault .notCall)

/-- The plan of an element of a template, given how to compile a nested query. -/
def elementWith (nested : Query → Run Plan) : Element → Run PlanElement
  | .triples triples => do
    let planned ← Run.ofExcept (triples.mapM TemplateTriple.plan)
    return .triples planned
  | .query query => do
    let plan ← nested query
    return .plan plan

def templateWith (nested : Query → Run Plan) (query : Query) : Run (List PlanElement) :=
  match query.form with
  | .generate elements => elements.mapM (elementWith nested)
  | _ => throw (.fault .notGenerate)

/-- The plan of what the query makes of its solutions, given how to compile a nested query. -/
def outputWith (compiler : Compiler) (nested : Query → Run Plan) (query : Query) :
    Run (Option Output) :=
  match query.form with
  | .select | .template => pure none
  | .call .. => do
    let call ← Run.ofExcept (compiler.callPlan query)
    return some (.call call)
  | .generate _ => do
    let elements ← templateWith nested query
    return some (.template elements)

/-! ## Plans -/

/-- The plan of a query, given how to compile a nested query. -/
def planWith (compiler : Compiler) (nested : Query → Run Plan) (isTop : Bool) (query : Query) :
    Run Plan := do
  let query ← compiler.normalize query
  let bindings ← Run.ofExcept (query.bindings isTop)
  let output ← compiler.outputWith nested query
  return ⟨query, bindings, query.selectPlan, output, isTop⟩

/-- The plan of a query, to the given number of levels of nested queries. -/
def planWithin (compiler : Compiler) : Nat → Bool → Query → Run Plan
  -- Only a parser can get this deep.
  | 0, _, _ => Run.abandon
  | levels + 1, isTop, query =>
    compiler.planWith (compiler.planWithin levels false) isTop query

/-- The number of levels that a compilation of the query may go through. -/
def levelsFor (compiler : Compiler) (query : Query) : Nat :=
  query.depth + (compiler.parser.map Parser.levels).getD 0

/-- The plan of a query that is run on its own. -/
def compile (compiler : Compiler) (query : Query) : Run Plan :=
  compiler.planWithin (compiler.levelsFor query) true query

/-- The plan of a query that is part of another one, or is called by one. -/
def compileNested (compiler : Compiler) (query : Query) : Run Plan :=
  compiler.planWithin (compiler.levelsFor query) false query

/-- The plan of the template alone. The query is taken as it is. -/
def compileTemplate (compiler : Compiler) (query : Query) : Run (List PlanElement) :=
  templateWith (compiler.planWithin (compiler.levelsFor query) false) query

/-- The plan of the query that the parser reads in the text. -/
def compileText (compiler : Compiler) (text : String) : Run Plan :=
  match compiler.parser with
  | none => throw (.fault .noParser)
  | some parser => do
    let query ← parser.ask (.query text compiler.base)
    compiler.compile query

end Compiler

end SparqlGenerate
