import SparqlGenerate.Plan.Parts

/-!
# Chains of modifiers over a group

The search for a query's own group walks down a chain of solution modifiers, of which one at most
is a projection. The chain is given here as a list, so that what the search finds and what it
changes can be said of the whole chain at once. A query that computes aggregates is such a chain
over its group, and grouping it by further variables changes the keys of that group and the
columns of that projection only.
-/

namespace SparqlGenerate

/-- A solution modifier, without the pattern it is applied to. -/
inductive Modifier where
  | distinct
  | reduced
  | slice (start : Nat) (length : Option Nat)
  | orderBy (keys : List OrderKey)
  | filter (condition : Expr)
  | extend (var : Var) (value : Expr)
  | project (vars : List Var)

namespace Modifier

def apply : Modifier → Pattern → Pattern
  | .distinct, inner => .distinct inner
  | .reduced, inner => .reduced inner
  | .slice start length, inner => .slice inner start length
  | .orderBy keys, inner => .orderBy inner keys
  | .filter condition, inner => .filter condition inner
  | .extend var value, inner => .extend inner var value
  | .project vars, inner => .project inner vars

def isProject : Modifier → Bool
  | .project _ => true
  | _ => false

/-- A projection with more columns; any other modifier as it is. -/
def addColumns (extra : List Var) : Modifier → Modifier
  | .project vars => .project (extra.foldl addIfAbsent vars)
  | modifier => modifier

theorem addColumns_nil (modifier : Modifier) : modifier.addColumns [] = modifier := by
  cases modifier <;> rfl

theorem addColumns_cons (v : Var) (extra : List Var) (modifier : Modifier) :
    (modifier.addColumns [v]).addColumns extra = modifier.addColumns (v :: extra) := by
  cases modifier <;> rfl

@[simp]
theorem isProject_addColumns (extra : List Var) (modifier : Modifier) :
    (modifier.addColumns extra).isProject = modifier.isProject := by
  cases modifier <;> rfl

end Modifier

theorem mem_foldl_addIfAbsent {vars extra : List Var} {v : Var} :
    v ∈ extra.foldl addIfAbsent vars ↔ v ∈ vars ∨ v ∈ extra := by
  induction extra generalizing vars with
  | nil => simp
  | cons w rest ih => rw [List.foldl_cons, ih, mem_addIfAbsent, List.mem_cons, or_assoc]

namespace Pattern

/-- The pattern under the modifiers, of which the first is the outermost. -/
def under (modifiers : List Modifier) (pattern : Pattern) : Pattern :=
  modifiers.foldr Modifier.apply pattern

/-- The modifiers have one projection at most, and none if there is one above them. -/
def OneProjection (projected : Bool) (modifiers : List Modifier) : Prop :=
  (if projected then 1 else 0) + modifiers.countP Modifier.isProject ≤ 1

theorem oneProjection_cons {projected : Bool} {modifier : Modifier} {rest : List Modifier} :
    OneProjection projected (modifier :: rest) ↔
      (modifier.isProject && projected) = false ∧
        OneProjection (modifier.isProject || projected) rest := by
  unfold OneProjection
  rw [List.countP_cons]
  generalize rest.countP Modifier.isProject = count
  cases projected <;> cases modifier.isProject <;> grind

/-! ## One modifier -/

/-- The search for aggregates goes below a modifier, unless that is a second projection. -/
theorem hasOwnAggregates_apply (projected : Bool) (modifier : Modifier) (inner : Pattern) :
    (modifier.apply inner).hasOwnAggregates projected =
      if modifier.isProject && projected then false
      else inner.hasOwnAggregates (modifier.isProject || projected) := by
  cases modifier <;> cases projected <;> rfl

/-- A key is added below a modifier, unless that is a second projection, and the own projection
gets it as a column. -/
theorem addOwnGroupKey?_apply (v : Var) (projected : Bool) (modifier : Modifier)
    (inner : Pattern) :
    (modifier.apply inner).addOwnGroupKey? v projected =
      if modifier.isProject && projected then none
      else (inner.addOwnGroupKey? v (modifier.isProject || projected)).map
        (modifier.addColumns [v]).apply := by
  unfold addOwnGroupKey?
  generalize hbelow : inner.addOwnGroupKey v (modifier.isProject || projected) = below
  obtain ⟨found, grouped⟩ := below
  cases modifier with
  | project vars =>
      cases projected with
      | true => rfl
      | false =>
          replace hbelow : inner.addOwnGroupKey v true = (found, grouped) := hbelow
          simp only [Modifier.apply, addOwnGroupKey, hbelow]
          cases found <;> rfl
  | distinct | reduced | slice | orderBy | filter | extend =>
      replace hbelow : inner.addOwnGroupKey v projected = (found, grouped) := hbelow
      simp only [Modifier.apply, addOwnGroupKey, hbelow]
      cases found <;> rfl

/-- Where no group is found, nothing is changed on the way down. -/
theorem addOwnGroupKey_of_not_found (v : Var) (projected : Bool) (pattern : Pattern)
    (h : (pattern.addOwnGroupKey v projected).1 = false) :
    (pattern.addOwnGroupKey v projected).2 = pattern := by
  fun_induction addOwnGroupKey v projected pattern with
  | case1 => cases h
  | case2 | case10 => rfl
  | case3 projected inner vars hprojected below ih =>
      simp only at h ⊢
      rw [h, ih h]
      rfl
  | case4 projected inner ih => exact congrArg distinct (ih h)
  | case5 projected inner ih => exact congrArg reduced (ih h)
  | case6 projected inner start length ih => exact congrArg (slice · start length) (ih h)
  | case7 projected inner keys ih => exact congrArg (orderBy · keys) (ih h)
  | case8 projected condition inner ih => exact congrArg (filter condition) (ih h)
  | case9 projected inner var value ih => exact congrArg (extend · var value) (ih h)

/-- Adding a key leaves a pattern without a group of its own as it is. -/
theorem addGroupKey_eq_getD (pattern : Pattern) (v : Var) :
    pattern.addGroupKey v = (pattern.addGroupKey? v).getD pattern := by
  have hsame := addOwnGroupKey_of_not_found v false pattern
  unfold addGroupKey addGroupKey? addOwnGroupKey?
  generalize pattern.addOwnGroupKey v false = added at hsame ⊢
  obtain ⟨found, grouped⟩ := added
  cases found with
  | true => rfl
  | false => exact hsame rfl

/-! ## The chain -/

/-- The pattern is a chain of modifiers over a group that computes aggregates. The flag says that
the own projection is above the pattern. -/
def IsAggregation (projected : Bool) (pattern : Pattern) : Prop :=
  ∃ modifiers inner keys aggregates,
    pattern = (Pattern.group inner keys aggregates).under modifiers ∧
      OneProjection projected modifiers ∧ aggregates ≠ []

theorem IsAggregation.apply {projected : Bool} (modifier : Modifier) {inner : Pattern}
    (hproject : (modifier.isProject && projected) = false)
    (h : inner.IsAggregation (modifier.isProject || projected)) :
    (modifier.apply inner).IsAggregation projected := by
  obtain ⟨modifiers, below, keys, aggregates, rfl, hone, haggregates⟩ := h
  exact ⟨modifier :: modifiers, below, keys, aggregates, rfl,
    oneProjection_cons.mpr ⟨hproject, hone⟩, haggregates⟩

/-- Where the search finds aggregates, the pattern is a chain over a group that computes them. -/
theorem isAggregation_of_hasOwnAggregates {pattern : Pattern} {projected : Bool}
    (h : pattern.hasOwnAggregates projected = true) : pattern.IsAggregation projected := by
  fun_induction hasOwnAggregates projected pattern with
  | case1 projected inner keys aggregates =>
      refine ⟨[], inner, keys, aggregates, rfl, ?_, by simpa using h⟩
      cases projected <;> simp [OneProjection]
  | case2 inner vars => cases h
  | case3 projected inner vars hprojected ih =>
      exact (ih h).apply (.project vars) (eq_false_of_ne_true hprojected)
  | case4 projected inner ih => exact (ih h).apply .distinct rfl
  | case5 projected inner ih => exact (ih h).apply .reduced rfl
  | case6 projected inner start length ih => exact (ih h).apply (.slice start length) rfl
  | case7 projected inner keys ih => exact (ih h).apply (.orderBy keys) rfl
  | case8 projected condition inner ih => exact (ih h).apply (.filter condition) rfl
  | case9 projected inner var value ih => exact (ih h).apply (.extend var value) rfl
  | case10 => cases h

/-- The search for aggregates goes through a chain with one projection at most, and is told of the
projection below. -/
theorem hasOwnAggregates_under_eq {projected : Bool} {modifiers : List Modifier}
    (hone : OneProjection projected modifiers) (core : Pattern) :
    (core.under modifiers).hasOwnAggregates projected =
      core.hasOwnAggregates (projected || modifiers.any Modifier.isProject) := by
  induction modifiers generalizing projected with
  | nil => exact (congrArg core.hasOwnAggregates (Bool.or_false projected)).symm
  | cons modifier rest ih =>
      obtain ⟨hproject, hrest⟩ := oneProjection_cons.mp hone
      rw [List.any_cons, ← Bool.or_assoc, Bool.or_comm projected, ← ih hrest]
      unfold under
      rw [List.foldr_cons, hasOwnAggregates_apply, hproject]
      rfl

/-- A key is added below a chain with one projection at most, if there is a group, and the
projection gets it as a column. -/
theorem addOwnGroupKey?_under_eq (v : Var) {projected : Bool} {modifiers : List Modifier}
    (hone : OneProjection projected modifiers) (core : Pattern) :
    (core.under modifiers).addOwnGroupKey? v projected =
      (core.addOwnGroupKey? v (projected || modifiers.any Modifier.isProject)).map
        (under (modifiers.map (Modifier.addColumns [v]))) := by
  induction modifiers generalizing projected with
  | nil =>
      rw [List.any_nil, Bool.or_false]
      exact Option.map_id'.symm
  | cons modifier rest ih =>
      obtain ⟨hproject, hrest⟩ := oneProjection_cons.mp hone
      have hlast := ih hrest
      unfold under at hlast ⊢
      rw [List.foldr_cons, addOwnGroupKey?_apply, hproject, hlast, List.any_cons,
        ← Bool.or_assoc, Bool.or_comm projected]
      exact Option.map_map ..

theorem hasOwnAggregates_under {projected : Bool} {modifiers : List Modifier}
    (hone : OneProjection projected modifiers) (inner : Pattern) (keys : List Var)
    (aggregates : List (Var × Aggregate)) :
    ((Pattern.group inner keys aggregates).under modifiers).hasOwnAggregates projected =
      !aggregates.isEmpty :=
  hasOwnAggregates_under_eq hone _

theorem addOwnGroupKey?_under (v : Var) {projected : Bool} {modifiers : List Modifier}
    (hone : OneProjection projected modifiers) (inner : Pattern) (keys : List Var)
    (aggregates : List (Var × Aggregate)) :
    ((Pattern.group inner keys aggregates).under modifiers).addOwnGroupKey? v projected =
      some ((Pattern.group inner (addIfAbsent keys v) aggregates).under
        (modifiers.map (Modifier.addColumns [v]))) :=
  addOwnGroupKey?_under_eq v hone _

theorem oneProjection_map_addColumns {projected : Bool} {modifiers : List Modifier}
    (extra : List Var) : OneProjection projected (modifiers.map (Modifier.addColumns extra)) ↔
      OneProjection projected modifiers := by
  simp [OneProjection, List.countP_map, Function.comp_def]

/-- Adding keys to a chain one after another is adding all of them to its group and to its
projection. -/
theorem foldl_addGroupKey_under (extra : List Var) {modifiers : List Modifier}
    (hone : OneProjection false modifiers) (inner : Pattern) (keys : List Var)
    (aggregates : List (Var × Aggregate)) :
    extra.foldl addGroupKey ((Pattern.group inner keys aggregates).under modifiers) =
      (Pattern.group inner (extra.foldl addIfAbsent keys) aggregates).under
        (modifiers.map (Modifier.addColumns extra)) := by
  induction extra generalizing keys modifiers with
  | nil =>
      rw [List.map_congr_left fun modifier _ => modifier.addColumns_nil, List.map_id']
      rfl
  -- One key more gives a chain of the same shape, with other keys and other columns.
  | cons v rest ih =>
      rw [List.foldl_cons, addGroupKey_eq_getD, addGroupKey?, addOwnGroupKey?_under v hone,
        Option.getD_some, ih ((oneProjection_map_addColumns [v]).mpr hone), List.map_map]
      simp only [Function.comp_def, Modifier.addColumns_cons, List.foldl_cons]

/-- A pattern that computes aggregates is grouped by further variables in place: they become keys
of its group and columns of its projection. -/
theorem groupBy_under (parameters : List Var) {modifiers : List Modifier}
    (hone : OneProjection false modifiers) (inner : Pattern) (keys : List Var)
    {aggregates : List (Var × Aggregate)} (haggregates : aggregates ≠ []) :
    ((Pattern.group inner keys aggregates).under modifiers).groupBy parameters =
      (Pattern.group inner (parameters.foldl addIfAbsent keys) aggregates).under
        (modifiers.map (Modifier.addColumns parameters)) := by
  have hcomputes :
      ((Pattern.group inner keys aggregates).under modifiers).hasAggregates = true := by
    rw [hasAggregates, hasOwnAggregates_under hone]
    simpa using haggregates
  rw [groupBy, if_pos hcomputes, foldl_addGroupKey_under parameters hone]

end Pattern

/-- The pattern planned for a query that computes aggregates is that of the query, grouped by its
parameters too. -/
theorem Query.pattern_selectPlan_of_under {query : Query} {modifiers : List Modifier}
    {inner : Pattern} {keys : List Var} {aggregates : List (Var × Aggregate)}
    (hpattern : query.pattern = (Pattern.group inner keys aggregates).under modifiers)
    (hone : Pattern.OneProjection false modifiers) (haggregates : aggregates ≠ []) :
    query.selectPlan.query.pattern =
      (Pattern.group inner ((query.signature.getD []).foldl addIfAbsent keys) aggregates).under
        (modifiers.map (Modifier.addColumns (query.signature.getD []))) := by
  rw [← Pattern.groupBy_under _ hone inner keys haggregates, ← hpattern]
  rfl

end SparqlGenerate
