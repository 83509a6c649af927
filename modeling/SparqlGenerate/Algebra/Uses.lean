import SparqlGenerate.Algebra.Basic

/-!
# The variables an expression uses

A variable is used in an expression if the value of the expression may depend on it. In a pattern
under `EXISTS` this follows the scope of the pattern: a projection and a block of values use the
variables they list and hide all others.
-/

namespace SparqlGenerate

def Term.uses (v : Var) (term : Term) : Bool :=
  term == .var v

def VarOrIri.uses (v : Var) (name : VarOrIri) : Bool :=
  name == .var v

def TriplePattern.uses (v : Var) (triple : TriplePattern) : Bool :=
  triple.subject.uses v || triple.predicate.uses v || triple.object.uses v

mutual

/-- Is the variable used in the expression? -/
def Expr.uses (v : Var) : Expr → Bool
  | .iri _ | .literal _ => false
  | .var name | .bound name => name == v
  | .binary _ left right => left.uses v || right.uses v
  | .unary _ operand => operand.uses v
  | .oneOf operand members => operand.uses v || Expr.anyUses v members
  | .hasSolution pattern => pattern.uses v
  | .cond test yes no => test.uses v || yes.uses v || no.uses v
  | .coalesce operands => Expr.anyUses v operands
  | .call _ arguments => Expr.anyUses v arguments

def Expr.anyUses (v : Var) : List Expr → Bool
  | [] => false
  | e :: rest => e.uses v || Expr.anyUses v rest

/-- Is the variable used in what the aggregate summarizes? -/
def Aggregate.uses (v : Var) : Aggregate → Bool
  | .countSolutions _ => false
  | .apply _ operand _ => operand.uses v

/-- Is the variable used in, or assigned by, one of the aggregates? -/
def Aggregate.anyUses (v : Var) : List (Var × Aggregate) → Bool
  | [] => false
  | (target, aggregate) :: rest => target == v || aggregate.uses v || Aggregate.anyUses v rest

def OrderKey.uses (v : Var) : OrderKey → Bool
  | .asc key | .desc key => key.uses v

def OrderKey.anyUses (v : Var) : List OrderKey → Bool
  | [] => false
  | key :: rest => key.uses v || OrderKey.anyUses v rest

def Pattern.uses (v : Var) : Pattern → Bool
  | .bgp triples => triples.any (·.uses v)
  | .path subject _ object => subject.uses v || object.uses v
  | .join left right | .union left right | .minus left right => left.uses v || right.uses v
  | .leftJoin left right none => left.uses v || right.uses v
  | .leftJoin left right (some condition) => left.uses v || right.uses v || condition.uses v
  | .filter condition inner => condition.uses v || inner.uses v
  | .graph name inner => name.uses v || inner.uses v
  | .service name inner _ => name.uses v || inner.uses v
  | .extend inner var value => inner.uses v || var == v || value.uses v
  | .values vars _ | .project _ vars => vars.contains v
  | .orderBy inner keys => inner.uses v || OrderKey.anyUses v keys
  | .distinct inner | .reduced inner | .slice inner _ _ => inner.uses v
  | .group inner keys aggregates =>
    inner.uses v || keys.contains v || Aggregate.anyUses v aggregates

end

end SparqlGenerate
