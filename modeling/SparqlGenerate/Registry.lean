import SparqlGenerate.Compiler

/-!
# The registry of named queries

Queries that can be called, compiled and kept under their names. A call is looked up only when it
is carried out, so a query may be registered after the queries that call it.
-/

namespace SparqlGenerate

/-- Plans under names. A name occurs once. -/
structure Registry where
  entries : List (Iri × Plan) := []

namespace Registry

def empty : Registry := {}

def size (registry : Registry) : Nat :=
  registry.entries.length

def get? (registry : Registry) (name : Iri) : Option Plan :=
  registry.entries.lookup name

/-- The registry with the plan under the name, in place of the plan that was there. -/
def insert (registry : Registry) (name : Iri) (plan : Plan) : Registry where
  entries := (name, plan) :: registry.entries.filter fun entry => entry.1 != name

/-- The plan that is called. A call through a variable has no plan before the variable is bound. -/
def resolve? (registry : Registry) (call : CallPlan) : Option Plan :=
  match call.name with
  | .iri name => registry.get? name
  | .var _ => none

/-- The registry with the plan of the query, under the name that the query is given with. -/
def register (registry : Registry) (compiler : Compiler) (query : Query) : Run Registry :=
  match query.name with
  | none => throw (.fault .notNamed)
  | some name => do
    let plan ← compiler.compileNested query
    return registry.insert name plan

@[simp]
theorem get?_empty (name : Iri) : empty.get? name = none := rfl

@[simp]
theorem get?_insert_self (registry : Registry) (name : Iri) (plan : Plan) :
    (registry.insert name plan).get? name = some plan := by
  simp [get?, insert]

/-- Dropping the entries of one name hides no entry of another name. -/
theorem lookup_filter_ne {name other : Iri} (h : other ≠ name) (entries : List (Iri × Plan)) :
    (entries.filter fun entry => entry.1 != name).lookup other = entries.lookup other := by
  induction entries with
  | nil => rfl
  | cons entry rest ih =>
    obtain ⟨key, plan⟩ := entry
    by_cases hkey : key = name
    · have hother : (other == name) = false := by simp [h]
      simpa [List.lookup_cons, hkey, hother] using ih
    · simp [List.lookup_cons, hkey, ih]

theorem get?_insert_of_ne (registry : Registry) {name other : Iri} (plan : Plan)
    (h : other ≠ name) : (registry.insert name plan).get? other = registry.get? other := by
  have hother : (other == name) = false := by simp [h]
  simp [get?, insert, List.lookup_cons, hother, lookup_filter_ne h]

end Registry

end SparqlGenerate
