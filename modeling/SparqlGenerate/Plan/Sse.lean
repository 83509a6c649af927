import SparqlGenerate.Plan.Basic
import SparqlGenerate.Spelling

/-!
# Plans as S-expressions

The layout of a plan around the text of its parts. The query that was compiled and the base of a
call are not shown.
-/

namespace SparqlGenerate

def IteratorMode.sse : IteratorMode → String
  | .sync => "sync"
  | .async => "async"

namespace Spelling

def binding (w : Spelling) : Binding → String
  | .iterator mode function arguments vars =>
    blankList ["iterator", mode.sse, w.iri function, blankList (arguments.map w.expr),
      blankList (vars.map w.var)]
  | .source document none var => blankList ["source", w.name document, w.var var]
  | .source document (some accept) var =>
    blankList ["source", w.name document, blankList ["accept", w.name accept], w.var var]
  | .bind value var => blankList ["bind", w.var var, w.expr value]

def selectPlan (w : Spelling) (p : SelectPlan) : String :=
  blankList ("select" :: ((if p.isSelect then ["select"] else [])
    ++ [blankList (p.parameters.map w.var), w.select p.query]))

def callPlan (w : Spelling) (p : CallPlan) : String :=
  blankList ["call", w.name p.name, blankList (p.parameters.map w.expr)]

/-- The S-expression of a triple to be written. -/
def triplePlan (w : Spelling) (t : TriplePattern) : String :=
  blankList ["triple", w.term t.subject, w.name t.predicate, w.term t.object]

mutual

/-- The S-expression of a plan. -/
def plan (w : Spelling) : Plan → String
  | ⟨_, bindings, select, output, isTop⟩ =>
    blankList ("root" :: (if isTop then "top" else "nested")
      :: blankList ("bindings" :: bindings.map w.binding) :: w.selectPlan select
      :: w.outputEach output)

/-- The S-expression of an output form, if there is one. -/
def outputEach (w : Spelling) : Option Output → List String
  | none => []
  | some output => [w.output output]

def output (w : Spelling) : Output → String
  | .call call => w.callPlan call
  | .template elements => blankList ("generate" :: w.planElementEach elements)

def planElement (w : Spelling) : PlanElement → String
  | .triples triples => blankList ("triples" :: triples.map w.triplePlan)
  | .plan p => w.plan p

def planElementEach (w : Spelling) : List PlanElement → List String
  | [] => []
  | element :: rest => w.planElement element :: w.planElementEach rest

end

end Spelling

/-- The S-expression of a plan. -/
def Plan.sse (plan : Plan) : String := Spelling.sparql.plan plan

end SparqlGenerate
