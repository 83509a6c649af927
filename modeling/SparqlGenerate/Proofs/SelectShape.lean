import SparqlGenerate.Proofs.OwnGroup

/-!
# The shape of grouping `SELECT` queries

A `SELECT` query that groups its solutions is read as one chain of operators: from the outside, its
slice, its `DISTINCT` or `REDUCED`, its projection, its ordering, the assignments of its head, its
`VALUES` block, its `HAVING` filter and its group. All of these but the projection and the group
may be missing.

They are solution modifiers, with the exception of the `VALUES` block: its rows are joined with
those of the group. A join ends the search for the group, so a query with such a block is taken for
one that groups nothing. Its parameters do not become keys, and its solutions for different
arguments are summarized together.
-/

namespace SparqlGenerate

inductive Deduplication where
  | distinct
  | reduced

/-- The block that joins the solutions with rows of constants. -/
structure ValuesBlock where
  vars : List Var
  rows : List (List (Option Term))

/-- The parts of a `SELECT` query that groups its solutions. -/
structure SelectShape where
  slice : Option (Nat × Option Nat) := none
  deduplication : Option Deduplication := none
  columns : List Var
  order : Option (List OrderKey) := none
  /-- The assignments of the head, of which the first is made first. -/
  assignments : List (Var × Expr) := []
  values : Option ValuesBlock := none
  having : Option Expr := none
  inner : Pattern
  keys : List Var
  aggregates : List (Var × Aggregate)

def Deduplication.modifier : Deduplication → Modifier
  | .distinct => .distinct
  | .reduced => .reduced

namespace SelectShape

/-- The modifiers above the projection, the outermost one first. -/
def outer (shape : SelectShape) : List Modifier :=
  shape.slice.toList.map (fun (start, length) => .slice start length)
    ++ shape.deduplication.toList.map Deduplication.modifier

/-- The modifiers between the projection and the `VALUES` block. -/
def lower (shape : SelectShape) : List Modifier :=
  shape.order.toList.map .orderBy
    ++ shape.assignments.reverse.map fun (var, value) => .extend var value

/-- The modifiers above the `VALUES` block. -/
def head (shape : SelectShape) : List Modifier :=
  shape.outer ++ .project shape.columns :: shape.lower

/-- The modifiers below the `VALUES` block. -/
def filters (shape : SelectShape) : List Modifier :=
  shape.having.toList.map .filter

def group (shape : SelectShape) : Pattern :=
  .group shape.inner shape.keys shape.aggregates

/-- The pattern that the query is read as. -/
def pattern (shape : SelectShape) : Pattern :=
  match shape.values with
  | none => (shape.group.under shape.filters).under shape.head
  | some block =>
    (Pattern.join (shape.group.under shape.filters) (.values block.vars block.rows)).under
      shape.head

/-- The shape with the missing ones of the variables as further keys and columns. -/
def groupedBy (shape : SelectShape) (extra : List Var) : SelectShape :=
  { shape with
    keys := shape.keys ++ missingFrom shape.keys extra
    columns := shape.columns ++ missingFrom shape.columns extra }

/-! ## Shapes as chains -/

theorem isProject_of_mem_outer {shape : SelectShape} {modifier : Modifier}
    (h : modifier ∈ shape.outer) : modifier.isProject = false := by
  rcases List.mem_append.mp h with h | h
  · obtain ⟨slice, -, rfl⟩ := List.mem_map.mp h
    rfl
  · obtain ⟨deduplication, -, rfl⟩ := List.mem_map.mp h
    cases deduplication <;> rfl

theorem isProject_of_mem_lower {shape : SelectShape} {modifier : Modifier}
    (h : modifier ∈ shape.lower) : modifier.isProject = false := by
  rcases List.mem_append.mp h with h | h
  · obtain ⟨keys, -, rfl⟩ := List.mem_map.mp h
    rfl
  · obtain ⟨assignment, -, rfl⟩ := List.mem_map.mp h
    rfl

theorem isProject_of_mem_filters {shape : SelectShape} {modifier : Modifier}
    (h : modifier ∈ shape.filters) : modifier.isProject = false := by
  obtain ⟨condition, -, rfl⟩ := List.mem_map.mp h
  rfl

theorem countP_isProject_eq_zero {modifiers : List Modifier}
    (h : ∀ modifier ∈ modifiers, modifier.isProject = false) :
    modifiers.countP Modifier.isProject = 0 :=
  List.countP_eq_zero.mpr fun modifier hmodifier => by simp [h modifier hmodifier]

theorem countP_isProject_head (shape : SelectShape) :
    shape.head.countP Modifier.isProject = 1 := by
  rw [head, List.countP_append, List.countP_cons,
    countP_isProject_eq_zero fun _ => isProject_of_mem_outer,
    countP_isProject_eq_zero fun _ => isProject_of_mem_lower]
  rfl

/-- The projection of the query is the only one in the chain. -/
theorem oneProjection_head (shape : SelectShape) : Pattern.OneProjection false shape.head := by
  simp [Pattern.OneProjection, countP_isProject_head]

theorem oneProjection_head_append_filters (shape : SelectShape) :
    Pattern.OneProjection false (shape.head ++ shape.filters) := by
  have hfilters : shape.filters.countP Modifier.isProject = 0 :=
    countP_isProject_eq_zero fun _ => isProject_of_mem_filters
  simp [Pattern.OneProjection, List.countP_append, countP_isProject_head, hfilters]

theorem map_withMissing_eq_self {modifiers : List Modifier} (extra : List Var)
    (h : ∀ modifier ∈ modifiers, modifier.isProject = false) :
    modifiers.map (Modifier.withMissing extra) = modifiers := by
  refine (List.map_congr_left fun modifier hmodifier => ?_).trans (List.map_id modifiers)
  cases modifier with
  | project vars => cases h _ hmodifier
  | distinct | reduced | slice | orderBy | filter | extend => rfl

theorem map_withMissing_head (shape : SelectShape) (extra : List Var) :
    (shape.head ++ shape.filters).map (Modifier.withMissing extra) =
      (shape.groupedBy extra).head ++ (shape.groupedBy extra).filters := by
  rw [head, List.map_append, List.map_append, List.map_cons,
    map_withMissing_eq_self extra fun _ => isProject_of_mem_outer,
    map_withMissing_eq_self extra fun _ => isProject_of_mem_lower,
    map_withMissing_eq_self extra fun _ => isProject_of_mem_filters]
  rfl

end SelectShape

theorem Pattern.under_append (first second : List Modifier) (pattern : Pattern) :
    pattern.under (first ++ second) = (pattern.under second).under first :=
  List.foldr_append

namespace SelectShape

theorem pattern_of_none {shape : SelectShape} (h : shape.values = none) :
    shape.pattern = shape.group.under (shape.head ++ shape.filters) := by
  rw [pattern, h, Pattern.under_append]

/-- With a `VALUES` block, the chain ends at a join. -/
theorem exists_pattern_of_some {shape : SelectShape} {block : ValuesBlock}
    (h : shape.values = some block) : ∃ core : Pattern, shape.pattern = core.under shape.head ∧
      ∀ projected, core.EndsSearch projected := by
  refine ⟨_, by rw [pattern, h], ?_⟩
  rintro (_ | _) <;> trivial

/-! ## What is found in a shape -/

/-- Aggregates are found if and only if there are some and no `VALUES` block stands above them. -/
theorem hasAggregates_pattern (shape : SelectShape) :
    shape.pattern.hasAggregates = (shape.values.isNone && !shape.aggregates.isEmpty) := by
  cases hvalues : shape.values with
  | none =>
      rw [pattern_of_none hvalues]
      exact Pattern.hasOwnAggregates_under shape.oneProjection_head_append_filters _ _ _
  | some block =>
      obtain ⟨core, hpattern, hends⟩ := exists_pattern_of_some hvalues
      rw [hpattern, Pattern.hasAggregates,
        Pattern.hasOwnAggregates_under_eq shape.oneProjection_head]
      exact (hends _).hasOwnAggregates_eq_false

/-- A further variable becomes a key of the group and a column of the projection, if no `VALUES`
block stands between them, and is not added anywhere otherwise. -/
theorem addGroupKey?_pattern (shape : SelectShape) (v : Var) :
    shape.pattern.addGroupKey? v =
      if shape.values.isNone then some (shape.groupedBy [v]).pattern else none := by
  cases hvalues : shape.values with
  | none =>
      have hgrouped : (shape.groupedBy [v]).values = none := hvalues
      have hkeys : addIfAbsent shape.keys v = (shape.groupedBy [v]).keys :=
        foldl_addIfAbsent shape.keys [v]
      rw [pattern_of_none hvalues, pattern_of_none hgrouped, Pattern.addGroupKey?, group,
        Pattern.addOwnGroupKey?_under v shape.oneProjection_head_append_filters,
        Modifier.addColumns_eq_withMissing, map_withMissing_head, hkeys]
      rfl
  | some block =>
      obtain ⟨core, hpattern, hends⟩ := exists_pattern_of_some hvalues
      rw [hpattern, Pattern.addGroupKey?,
        Pattern.addOwnGroupKey?_under_eq v shape.oneProjection_head]
      exact congrArg (Option.map _) ((hends _).addOwnGroupKey?_eq_none v)

/-- Where nothing is added to the group, the pattern is left as it is. -/
theorem addGroupKey_pattern_of_some {shape : SelectShape} {block : ValuesBlock}
    (h : shape.values = some block) (v : Var) : shape.pattern.addGroupKey v = shape.pattern := by
  rw [Pattern.addGroupKey_eq_getD, addGroupKey?_pattern, h]
  rfl

/-! ## Queries of a shape -/

/-- The group is found below the modifiers, and any variable can be added to it. -/
structure FindsGroup (shape : SelectShape) : Prop where
  hasAggregates : shape.pattern.hasAggregates = true ↔ shape.aggregates ≠ []
  added : ∀ v, shape.pattern.addGroupKey? v = some (shape.groupedBy [v]).pattern
  planned : shape.aggregates ≠ [] → ∀ query : Query, query.pattern = shape.pattern →
    query.selectPlan.query.pattern = (shape.groupedBy (query.signature.getD [])).pattern

/-- Nothing is found of the group, and nothing is added to it. -/
structure MissesGroup (shape : SelectShape) : Prop where
  hasAggregates : shape.pattern.hasAggregates = false
  added : ∀ v, shape.pattern.addGroupKey? v = none
  unchanged : ∀ v, shape.pattern.addGroupKey v = shape.pattern
  planned : ∀ query : Query, query.pattern = shape.pattern →
    query.selectPlan.query.pattern = shape.pattern

theorem findsGroup_of_none {shape : SelectShape} (h : shape.values = none) :
    shape.FindsGroup where
  hasAggregates := by simp [hasAggregates_pattern, h]
  added v := by simp [addGroupKey?_pattern, h]
  planned haggregates query hquery := by
    have hgrouped : (shape.groupedBy (query.signature.getD [])).values = none := h
    rw [Query.pattern_selectPlan_of_under (hquery.trans (pattern_of_none h))
      shape.oneProjection_head_append_filters haggregates, foldl_addIfAbsent,
      Modifier.addColumns_eq_withMissing, map_withMissing_head, pattern_of_none hgrouped]
    rfl

theorem missesGroup_of_some {shape : SelectShape} {block : ValuesBlock}
    (h : shape.values = some block) : shape.MissesGroup where
  hasAggregates := by simp [hasAggregates_pattern, h]
  added v := by simp [addGroupKey?_pattern, h]
  unchanged := addGroupKey_pattern_of_some h
  planned query hquery := by
    have hnone : shape.pattern.hasAggregates = false := by simp [hasAggregates_pattern, h]
    have hsame : shape.pattern.groupBy (query.signature.getD []) = shape.pattern :=
      if_neg (by simp [hnone])
    exact (congrArg (Pattern.groupBy · _) hquery).trans hsame

/-- Without a `VALUES` block, aggregates are found where there are some, any variable can be added
to the keys and the columns, and the parameters of an aggregating query are. With such a block no
aggregates are found, no variable can be added, and the parameters are left out. -/
theorem grouping_found_without_values (shape : SelectShape) :
    (shape.values = none → shape.FindsGroup) ∧ (shape.values ≠ none → shape.MissesGroup) := by
  refine ⟨findsGroup_of_none, ?_⟩
  intro hvalues
  obtain ⟨block, hblock⟩ := Option.ne_none_iff_exists'.mp hvalues
  exact missesGroup_of_some hblock

/-- The query `SELECT ?p (COUNT(?s) AS ?c) WHERE { ?s ?p ?o } GROUP BY ?p VALUES ?p { <p> }`. -/
def countedValues : SelectShape where
  columns := [⟨"p"⟩, ⟨"c"⟩]
  assignments := [(⟨"c"⟩, .var ⟨"n"⟩)]
  values := some ⟨[⟨"p"⟩], [[some (.iri ⟨"p"⟩)]]⟩
  inner := .bgp [⟨.var ⟨"s"⟩, .var ⟨"p"⟩, .var ⟨"o"⟩⟩]
  keys := [⟨"p"⟩]
  aggregates := [(⟨"n"⟩, .apply .count (.var ⟨"s"⟩) false)]

/-- The `VALUES` block hides the count from the search, and keeps variables out of its keys. -/
theorem aggregates_missed_below_values :
    ¬ ∀ (shape : SelectShape) (v : Var),
      (shape.pattern.hasAggregates = true ↔ shape.aggregates ≠ []) ∧
        shape.pattern.addGroupKey? v = some (shape.groupedBy [v]).pattern := by
  intro h
  obtain ⟨hfound, -⟩ := h countedValues ⟨"o"⟩
  have haggregates : countedValues.aggregates ≠ [] := List.cons_ne_nil _ _
  cases hfound.mpr haggregates

end SelectShape

end SparqlGenerate
