import Mathlib.Logic.Function.Basic
import SparqlGenerate.Algebra.Basic

/-!
# Solutions

A solution binds variables to ground terms. What expressions and aggregates come to on solutions is
left to an evaluator, which may do so in any way; the modifiers of the algebra are then given by
what they do to the binding of each variable.
-/

namespace SparqlGenerate

/-- What a variable is bound to: a term that is no variable. -/
inductive GroundTerm where
  | iri (name : Iri)
  | blank (label : String)
  | literal (value : Literal)
  deriving DecidableEq, Repr

/-- A solution, with the term of each variable that it binds. -/
abbrev Solution := Var → Option GroundTerm

namespace Solution

def empty : Solution := fun _ => none

/-- The solution without the bindings of all other variables. -/
def restrict (vars : List Var) (solution : Solution) : Solution :=
  fun v => if v ∈ vars then solution v else none

/-- The solution with the variable bound to the value. Without a value it is left as it is. -/
def assign (solution : Solution) (var : Var) : Option GroundTerm → Solution
  | none => solution
  | some value => Function.update solution var (some value)

theorem restrict_of_mem {vars : List Var} {v : Var} (h : v ∈ vars) (solution : Solution) :
    solution.restrict vars v = solution v :=
  if_pos h

theorem assign_of_ne {var v : Var} (h : v ≠ var) (solution : Solution)
    (value : Option GroundTerm) : solution.assign var value v = solution v := by
  cases value with
  | none => rfl
  | some => exact Function.update_of_ne h _ _

/-- A variable that was unbound is bound to the value, or stays unbound without one. -/
theorem assign_self {solution : Solution} {var : Var} (h : solution var = none)
    (value : Option GroundTerm) : solution.assign var value var = value := by
  cases value with
  | none => exact h
  | some => exact Function.update_self _ _ _

/-- The solution after assignments, of which the first is made first. A value may depend on the
variables assigned before it. -/
def assignAll {α : Type} (value : α → Solution → Option GroundTerm)
    (assignments : List (Var × α)) (solution : Solution) : Solution :=
  assignments.foldl (fun inner (var, a) => inner.assign var (value a inner)) solution

theorem assignAll_of_notMem {α : Type} (value : α → Solution → Option GroundTerm)
    {assignments : List (Var × α)} {v : Var} (hv : v ∉ assignments.map Prod.fst)
    (solution : Solution) : solution.assignAll value assignments v = solution v := by
  induction assignments generalizing solution with
  | nil => rfl
  | cons assignment rest ih =>
      rw [List.map_cons, List.mem_cons, not_or] at hv
      obtain ⟨hfirst, hrest⟩ := hv
      exact (ih hrest _).trans (assign_of_ne hfirst solution _)

end Solution

/-- How expressions and aggregates are evaluated. A missing value is an error. -/
structure Evaluator where
  value : Expr → Solution → Option GroundTerm
  /-- The effective boolean value of a term. -/
  isTrue : GroundTerm → Bool
  /-- The value of an aggregate over the solutions of a group. -/
  summary : Aggregate → List Solution → Option GroundTerm

namespace Evaluator

/-- Does the solution pass the condition? One on which the condition fails does not. -/
def holds (evaluator : Evaluator) (condition : Expr) (solution : Solution) : Bool :=
  (evaluator.value condition solution).any evaluator.isTrue

/-- The solution with the value of the expression for the variable. -/
def extend (evaluator : Evaluator) (var : Var) (value : Expr) (solution : Solution) : Solution :=
  solution.assign var (evaluator.value value solution)

end Evaluator

end SparqlGenerate
