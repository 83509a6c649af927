import SparqlGenerate.Select

/-!
# The grouping of a query

A query groups its own solutions if there is a `Group` below its modifiers and its one projection.
A second projection belongs to a query nested in the pattern, so the search ends there.

`Pattern.hasAggregates` finds out whether the grouping computes anything, and
`Pattern.addOwnGroupKey` makes a variable one more key of it, on the way down to the group.
-/

namespace SparqlGenerate

/-- The list with the variable at its end, unless it is in the list. -/
def addIfAbsent (vars : List Var) (v : Var) : List Var :=
  if v ∈ vars then vars else vars ++ [v]

theorem mem_addIfAbsent {vars : List Var} {v w : Var} :
    w ∈ addIfAbsent vars v ↔ w ∈ vars ∨ w = v := by
  unfold addIfAbsent
  split
  next h => exact ⟨Or.inl, fun hw => hw.elim id (fun e => e ▸ h)⟩
  next => simp

namespace Pattern

/-- Does the query's own group compute aggregates? The flag says that the query's own projection
is above the pattern. -/
def hasOwnAggregates (projected : Bool) : Pattern → Bool
  | .group _ _ aggregates => !aggregates.isEmpty
  | .project inner _ => if projected then false else inner.hasOwnAggregates true
  | .distinct inner | .reduced inner | .slice inner _ _ | .orderBy inner _ | .filter _ inner
  | .extend inner _ _ => inner.hasOwnAggregates projected
  | _ => false

def hasAggregates (pattern : Pattern) : Bool :=
  pattern.hasOwnAggregates false

/-- Adds a key to the query's own group, and a variable to its own projection if it is below. The
flag says that this projection is above the pattern, and the flag returned says that there is such a
group. -/
def addOwnGroupKey (v : Var) (projected : Bool) : Pattern → Bool × Pattern
  | .group inner keys aggregates => (true, .group inner (addIfAbsent keys v) aggregates)
  | .project inner vars =>
    -- A second projection belongs to a nested query, whose group is not this query's own.
    if projected then (false, .project inner vars)
    else
      let below := inner.addOwnGroupKey v true
      (below.1, .project below.2 (if below.1 then addIfAbsent vars v else vars))
  | .distinct inner => (inner.addOwnGroupKey v projected).map id .distinct
  | .reduced inner => (inner.addOwnGroupKey v projected).map id .reduced
  | .slice inner start length =>
    (inner.addOwnGroupKey v projected).map id fun grouped => .slice grouped start length
  | .orderBy inner keys =>
    (inner.addOwnGroupKey v projected).map id fun grouped => .orderBy grouped keys
  | .filter condition inner => (inner.addOwnGroupKey v projected).map id (.filter condition)
  | .extend inner var value =>
    (inner.addOwnGroupKey v projected).map id fun grouped => .extend grouped var value
  | pattern => (false, pattern)

/-- The pattern with a key added to its own group. There is none if it has no such group. -/
def addOwnGroupKey? (v : Var) (projected : Bool) (pattern : Pattern) : Option Pattern :=
  match pattern.addOwnGroupKey v projected with
  | (true, grouped) => some grouped
  | (false, _) => none

/-- The pattern with one more key of its group, which is kept by the projection above the group.
There is none if the query has no group of its own. -/
def addGroupKey? (pattern : Pattern) (v : Var) : Option Pattern :=
  pattern.addOwnGroupKey? v false

/-- What becomes of the pattern when the variable is made a key of its group, if it has one. -/
def addGroupKey (pattern : Pattern) (v : Var) : Pattern :=
  (pattern.addOwnGroupKey v false).2

/-- The pattern grouped by the parameters too, if it computes aggregates: the solutions that belong
to different arguments are then summarized apart. -/
def groupBy (pattern : Pattern) (parameters : List Var) : Pattern :=
  if pattern.hasAggregates then parameters.foldl addGroupKey pattern else pattern

end Pattern

end SparqlGenerate
