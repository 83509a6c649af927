import SparqlGenerate.Proofs.FreshNames
import SparqlGenerate.Proofs.OwnGroup

/-!
# Lifting commutes with grouping

Lifting puts assignments around the pattern of a query, and grouping by the parameters goes down
through the modifiers of the pattern to the query's own group. Assignments are modifiers too, and
none of them is a projection: the search passes through them with the same flag and arrives at the
same group. So it makes no difference which of the two comes first, and the fresh variables are
neither keys nor columns.
-/

namespace SparqlGenerate

/-- The columns of a projection. -/
def Modifier.columns : Modifier → List Var
  | .project vars => vars
  | _ => []

namespace Pattern

/-! ## The own chain and its core -/

/-- The modifiers at the top of the pattern, the outermost first, as far down as the search for the
own group goes. The flag says that the own projection is above the pattern. -/
def chain (projected : Bool) : Pattern → List Modifier
  | .project inner vars => if projected then [] else .project vars :: inner.chain true
  | .distinct inner => .distinct :: inner.chain projected
  | .reduced inner => .reduced :: inner.chain projected
  | .slice inner start length => .slice start length :: inner.chain projected
  | .orderBy inner keys => .orderBy keys :: inner.chain projected
  | .filter condition inner => .filter condition :: inner.chain projected
  | .extend inner var value => .extend var value :: inner.chain projected
  | _ => []

/-- The pattern below these modifiers: the own group, or where the search for it ends in vain. -/
def core (projected : Bool) : Pattern → Pattern
  | .project inner vars => if projected then .project inner vars else inner.core true
  | .distinct inner | .reduced inner | .slice inner _ _ | .orderBy inner _ | .filter _ inner
  | .extend inner _ _ => inner.core projected
  | pattern => pattern

theorem chain_apply (projected : Bool) (modifier : Modifier) (inner : Pattern) :
    (modifier.apply inner).chain projected =
      if modifier.isProject && projected then []
      else modifier :: inner.chain (modifier.isProject || projected) := by
  cases modifier <;> cases projected <;> rfl

theorem core_apply (projected : Bool) (modifier : Modifier) (inner : Pattern) :
    (modifier.apply inner).core projected =
      if modifier.isProject && projected then modifier.apply inner
      else inner.core (modifier.isProject || projected) := by
  cases modifier <;> cases projected <;> rfl

/-- Modifiers with one projection at most come first in the chain of the pattern under them. -/
theorem chain_under {projected : Bool} {modifiers : List Modifier}
    (hone : OneProjection projected modifiers) (pattern : Pattern) :
    (pattern.under modifiers).chain projected =
      modifiers ++ pattern.chain (projected || modifiers.any Modifier.isProject) := by
  induction modifiers generalizing projected with
  | nil => simp [under]
  | cons modifier rest ih =>
      obtain ⟨hproject, hrest⟩ := oneProjection_cons.mp hone
      have hlast := ih hrest
      unfold under at hlast ⊢
      rw [List.foldr_cons, chain_apply, hproject, hlast, List.any_cons, ← Bool.or_assoc,
        Bool.or_comm projected]
      rfl

theorem core_under {projected : Bool} {modifiers : List Modifier}
    (hone : OneProjection projected modifiers) (pattern : Pattern) :
    (pattern.under modifiers).core projected =
      pattern.core (projected || modifiers.any Modifier.isProject) := by
  induction modifiers generalizing projected with
  | nil => simp [under]
  | cons modifier rest ih =>
      obtain ⟨hproject, hrest⟩ := oneProjection_cons.mp hone
      have hlast := ih hrest
      unfold under at hlast ⊢
      rw [List.foldr_cons, core_apply, hproject, List.any_cons, ← Bool.or_assoc,
        Bool.or_comm projected]
      exact hlast

theorem IsCore.chain_eq_nil {projected : Bool} {pattern : Pattern} (h : pattern.IsCore projected) :
    pattern.chain projected = [] := by
  cases h with
  | group => rfl
  | other hends =>
      cases pattern with
      | project inner vars => simp [chain, show projected = true from hends]
      | group | distinct | reduced | slice | orderBy | filter | extend => cases hends
      | bgp | path | join | leftJoin | union | graph | minus | values | service => rfl

theorem IsCore.core_eq_self {projected : Bool} {pattern : Pattern} (h : pattern.IsCore projected) :
    pattern.core projected = pattern := by
  cases h with
  | group => rfl
  | other hends =>
      cases pattern with
      | project inner vars => simp [core, show projected = true from hends]
      | group | distinct | reduced | slice | orderBy | filter | extend => cases hends
      | bgp | path | join | leftJoin | union | graph | minus | values | service => rfl

/-- The chain has one projection at most, and the core below it is the own group, or the place
where the search for it ends. -/
theorem chain_spec (projected : Bool) (pattern : Pattern) :
    OneProjection projected (pattern.chain projected) ∧
      (pattern.core projected).under (pattern.chain projected) = pattern ∧
      (pattern.core projected).IsCore
        (projected || (pattern.chain projected).any Modifier.isProject) := by
  obtain ⟨modifiers, core, hone, rfl, hcore⟩ := pattern.hasCore projected
  rw [chain_under hone, core_under hone, hcore.chain_eq_nil, hcore.core_eq_self, List.append_nil]
  exact ⟨hone, rfl, hcore⟩

/-- A pattern is its core under its chain. -/
theorem under_chain (projected : Bool) (pattern : Pattern) :
    (pattern.core projected).under (pattern.chain projected) = pattern := by
  obtain ⟨-, hunder, -⟩ := pattern.chain_spec projected
  exact hunder

/-! ## Keys and columns -/

/-- The keys of the own group, none if there is no such group. -/
def ownKeys (pattern : Pattern) : List Var :=
  match pattern.core false with
  | .group _ keys _ => keys
  | _ => []

/-- The columns of the own projection, none if there is no projection. -/
def ownColumns (pattern : Pattern) : List Var :=
  (pattern.chain false).flatMap Modifier.columns

theorem ownKeys_under {modifiers : List Modifier} (hone : OneProjection false modifiers)
    (inner : Pattern) (keys : List Var) (aggregates : List (Var × Aggregate)) :
    ((group inner keys aggregates).under modifiers).ownKeys = keys := by
  rw [ownKeys, core_under hone, (IsCore.group inner keys aggregates).core_eq_self]

theorem ownColumns_under {modifiers : List Modifier} (hone : OneProjection false modifiers)
    (inner : Pattern) (keys : List Var) (aggregates : List (Var × Aggregate)) :
    ((group inner keys aggregates).under modifiers).ownColumns =
      modifiers.flatMap Modifier.columns := by
  rw [ownColumns, chain_under hone, (IsCore.group inner keys aggregates).chain_eq_nil,
    List.append_nil]

theorem vars_subset_apply (modifier : Modifier) (inner : Pattern) :
    inner.vars ⊆ (modifier.apply inner).vars := by
  cases modifier <;> simp [Modifier.apply, vars]

theorem columns_subset_vars_apply (modifier : Modifier) (inner : Pattern) :
    modifier.columns ⊆ (modifier.apply inner).vars := by
  cases modifier <;> simp [Modifier.apply, Modifier.columns, vars]

theorem vars_subset_under (pattern : Pattern) (modifiers : List Modifier) :
    pattern.vars ⊆ (pattern.under modifiers).vars := by
  induction modifiers with
  | nil => exact List.Subset.refl _
  | cons modifier rest ih => exact List.Subset.trans ih (vars_subset_apply modifier _)

theorem columns_subset_vars_under (pattern : Pattern) (modifiers : List Modifier) :
    modifiers.flatMap Modifier.columns ⊆ (pattern.under modifiers).vars := by
  induction modifiers with
  | nil => exact List.nil_subset _
  | cons modifier rest ih =>
      rw [List.flatMap_cons]
      apply List.append_subset.mpr
      exact ⟨columns_subset_vars_apply modifier _,
        List.Subset.trans ih (vars_subset_apply modifier _)⟩

/-- The keys of the own group occur in the pattern. -/
theorem ownKeys_subset_vars (pattern : Pattern) : pattern.ownKeys ⊆ pattern.vars := by
  intro v hv
  rw [← pattern.under_chain false]
  apply vars_subset_under
  unfold ownKeys at hv
  split at hv
  next inner keys aggregates hcore =>
    rw [hcore, vars]
    exact List.mem_append_left _ (List.mem_append_right _ hv)
  next => cases hv

/-- The columns of the own projection occur in the pattern. -/
theorem ownColumns_subset_vars (pattern : Pattern) : pattern.ownColumns ⊆ pattern.vars := by
  intro v hv
  rw [← pattern.under_chain false]
  exact columns_subset_vars_under _ _ hv

/-! ## Grouping -/

theorem mem_ownKeys_of_groupBy {pattern : Pattern} {parameters : List Var} {v : Var}
    (h : v ∈ (pattern.groupBy parameters).ownKeys) : v ∈ pattern.ownKeys ∨ v ∈ parameters := by
  by_cases hcomputes : pattern.hasAggregates = true
  · obtain ⟨modifiers, inner, keys, aggregates, rfl, hone, haggregates⟩ :=
      isAggregation_of_hasOwnAggregates hcomputes
    rw [groupBy_under parameters hone inner keys haggregates,
      ownKeys_under ((oneProjection_map_addColumns parameters).mpr hone)] at h
    rw [ownKeys_under hone]
    exact mem_foldl_addIfAbsent.mp h
  · rw [groupBy, if_neg hcomputes] at h
    exact Or.inl h

theorem mem_columns_of_addColumns {modifier : Modifier} {parameters : List Var} {v : Var}
    (h : v ∈ (modifier.addColumns parameters).columns) :
    v ∈ modifier.columns ∨ v ∈ parameters := by
  cases modifier with
  | project vars => exact mem_foldl_addIfAbsent.mp h
  | distinct | reduced | slice | orderBy | filter | extend => cases h

theorem mem_ownColumns_of_groupBy {pattern : Pattern} {parameters : List Var} {v : Var}
    (h : v ∈ (pattern.groupBy parameters).ownColumns) :
    v ∈ pattern.ownColumns ∨ v ∈ parameters := by
  by_cases hcomputes : pattern.hasAggregates = true
  · obtain ⟨modifiers, inner, keys, aggregates, rfl, hone, haggregates⟩ :=
      isAggregation_of_hasOwnAggregates hcomputes
    rw [groupBy_under parameters hone inner keys haggregates,
      ownColumns_under ((oneProjection_map_addColumns parameters).mpr hone),
      List.flatMap_map] at h
    rw [ownColumns_under hone]
    obtain ⟨modifier, hmodifier, hv⟩ := List.mem_flatMap.mp h
    apply (mem_columns_of_addColumns hv).imp_left
    intro hcolumn
    exact List.mem_flatMap.mpr ⟨modifier, hmodifier, hcolumn⟩
  · rw [groupBy, if_neg hcomputes] at h
    exact Or.inl h

/-! ## Assignments above the pattern -/

/-- The assignments are the first modifiers of the chain, the last one of them outermost. -/
theorem chain_extendAll (projected : Bool) (pattern : Pattern)
    (assignments : List (Var × Expr)) :
    (pattern.extendAll assignments).chain projected =
      (assignments.map fun (var, value) => Modifier.extend var value).reverse
        ++ pattern.chain projected := by
  induction assignments generalizing pattern with
  | nil => rfl
  | cons assignment rest ih =>
      rw [List.map_cons, List.reverse_cons, List.append_assoc]
      exact ih _

/-- Assignments do not keep the search from the core, nor let it go further. -/
theorem core_extendAll (projected : Bool) (pattern : Pattern)
    (assignments : List (Var × Expr)) :
    (pattern.extendAll assignments).core projected = pattern.core projected := by
  induction assignments generalizing pattern with
  | nil => rfl
  | cons assignment rest ih => exact ih _

theorem addGroupKey?_extendAll (pattern : Pattern) (v : Var) (assignments : List (Var × Expr)) :
    (pattern.extendAll assignments).addGroupKey? v =
      (pattern.addGroupKey? v).map (extendAll · assignments) := by
  induction assignments generalizing pattern with
  | nil => exact Option.map_id'.symm
  | cons assignment rest ih =>
      obtain ⟨var, value⟩ := assignment
      have hbelow : (pattern.extend var value).addGroupKey? v =
          (pattern.addGroupKey? v).map (extend · var value) :=
        addOwnGroupKey?_apply v false (.extend var value) pattern
      rw [extendAll_cons, ih, hbelow, Option.map_map]
      rfl

@[simp]
theorem ownKeys_extendAll (pattern : Pattern) (assignments : List (Var × Expr)) :
    (pattern.extendAll assignments).ownKeys = pattern.ownKeys := by
  rw [ownKeys, core_extendAll, ownKeys]

@[simp]
theorem ownColumns_extendAll (pattern : Pattern) (assignments : List (Var × Expr)) :
    (pattern.extendAll assignments).ownColumns = pattern.ownColumns := by
  have hassigned : ∀ modifier ∈ (assignments.map fun (var, value) =>
      Modifier.extend var value).reverse, modifier.columns = [] := by
    intro modifier hmodifier
    obtain ⟨assignment, -, rfl⟩ := List.mem_map.mp (List.mem_reverse.mp hmodifier)
    rfl
  rw [ownColumns, chain_extendAll, List.flatMap_append, List.flatMap_eq_nil_iff.mpr hassigned,
    List.nil_append, ownColumns]

end Pattern

/-! ## Queries -/

namespace Query

theorem vars_pattern_subset (query : Query) : query.pattern.vars ⊆ query.vars := by
  intro v hv
  rw [vars_eq]
  exact List.mem_append_right _ hv

theorem signature_subset (query : Query) : query.signature.getD [] ⊆ query.vars := by
  intro v hv
  rw [vars_eq]
  simp [hv]

variable (fresh : Supply) (number : Nat) (query : Query)

/-- The pattern planned for the lifted query is the one planned for the query, under the
assignments. -/
theorem pattern_selectPlan_lift :
    (query.lift fresh number).selectPlan.query.pattern =
      query.selectPlan.query.pattern.extendAll (fresh.assign number query.embeddings) := by
  rw [selectPlan_lift, SelectPlan.extendAll]

theorem ownKeys_selectPlan_lift :
    (query.lift fresh number).selectPlan.query.pattern.ownKeys =
      query.selectPlan.query.pattern.ownKeys := by
  rw [pattern_selectPlan_lift, Pattern.ownKeys_extendAll]

theorem ownColumns_selectPlan_lift :
    (query.lift fresh number).selectPlan.query.pattern.ownColumns =
      query.selectPlan.query.pattern.ownColumns := by
  rw [pattern_selectPlan_lift, Pattern.ownColumns_extendAll]

variable {query} {v : Var}

theorem mem_vars_of_mem_ownKeys (h : v ∈ query.selectPlan.query.pattern.ownKeys) :
    v ∈ query.vars := by
  rcases Pattern.mem_ownKeys_of_groupBy h with hkey | hparameter
  · exact query.vars_pattern_subset (query.pattern.ownKeys_subset_vars hkey)
  · exact query.signature_subset hparameter

theorem mem_vars_of_mem_ownColumns (h : v ∈ query.selectPlan.query.pattern.ownColumns) :
    v ∈ query.vars := by
  rcases Pattern.mem_ownColumns_of_groupBy h with hcolumn | hparameter
  · exact query.vars_pattern_subset (query.pattern.ownColumns_subset_vars hcolumn)
  · exact query.signature_subset hparameter

end Query

/-- Lifting the query and grouping it by its parameters do not get in each other's way. -/
structure Query.LiftsAboveGrouping (fresh : Supply) (number : Nat) (query : Query) : Prop where
  lifted : (query.lift fresh number).pattern =
    query.pattern.extendAll (fresh.assign number query.embeddings)
  hasAggregates : (query.lift fresh number).pattern.hasAggregates = query.pattern.hasAggregates
  /-- The two passes may be exchanged: the assignments end up above what is grouped. -/
  planned : (query.lift fresh number).selectPlan.query.pattern =
    query.selectPlan.query.pattern.extendAll (fresh.assign number query.embeddings)
  /-- What is taken for the query's own group is the same, also if there is none. -/
  core : (query.lift fresh number).pattern.core false = query.pattern.core false
  /-- So is each modifier of its own, the projection among them. -/
  chain : (query.lift fresh number).pattern.chain false =
    ((fresh.assign number query.embeddings).map fun (var, value) =>
      Modifier.extend var value).reverse ++ query.pattern.chain false
  added : ∀ v, (query.lift fresh number).pattern.addGroupKey? v =
    (query.pattern.addGroupKey? v).map (Pattern.extendAll · (fresh.assign number query.embeddings))
  keys : (query.lift fresh number).selectPlan.query.pattern.ownKeys =
    query.selectPlan.query.pattern.ownKeys
  columns : (query.lift fresh number).selectPlan.query.pattern.ownColumns =
    query.selectPlan.query.pattern.ownColumns
  key_origin : ∀ v ∈ (query.lift fresh number).selectPlan.query.pattern.ownKeys,
    v ∈ query.pattern.ownKeys ∨ v ∈ query.signature.getD []
  column_origin : ∀ v ∈ (query.lift fresh number).selectPlan.query.pattern.ownColumns,
    v ∈ query.pattern.ownColumns ∨ v ∈ query.signature.getD []
  drawn_apart : ∀ v ∈ query.drawn fresh number, v ∉ query.vars →
    v ∉ (query.lift fresh number).selectPlan.query.pattern.ownKeys ∧
      v ∉ (query.lift fresh number).selectPlan.query.pattern.ownColumns

/-- A lifted query is planned as the query itself is, under the assignments of its embedded
expressions. The group and the projection that are the query's own are found as they are without
these assignments, and get no fresh variable. -/
theorem lifting_commutes_with_grouping (fresh : Supply) (number : Nat) (query : Query) :
    query.LiftsAboveGrouping fresh number where
  lifted := query.pattern_lift fresh number
  hasAggregates := by rw [query.pattern_lift, Pattern.hasAggregates_extendAll]
  planned := query.pattern_selectPlan_lift fresh number
  core := by rw [query.pattern_lift, Pattern.core_extendAll]
  chain := by rw [query.pattern_lift, Pattern.chain_extendAll]
  added v := by rw [query.pattern_lift, Pattern.addGroupKey?_extendAll]
  keys := query.ownKeys_selectPlan_lift fresh number
  columns := query.ownColumns_selectPlan_lift fresh number
  key_origin v hv := by
    rw [query.ownKeys_selectPlan_lift] at hv
    exact Pattern.mem_ownKeys_of_groupBy hv
  column_origin v hv := by
    rw [query.ownColumns_selectPlan_lift] at hv
    exact Pattern.mem_ownColumns_of_groupBy hv
  drawn_apart v _ hv := by
    rw [query.ownKeys_selectPlan_lift, query.ownColumns_selectPlan_lift]
    constructor
    · intro hkey
      exact hv (Query.mem_vars_of_mem_ownKeys hkey)
    · intro hcolumn
      exact hv (Query.mem_vars_of_mem_ownColumns hcolumn)

/-- The sub-select `SELECT ?s ?t (COUNT(?o) AS ?n) WHERE { ?s ?t ?o } GROUP BY ?s ?t`. -/
def countedByType : Pattern :=
  .project
    (.extend
      (.group (.bgp [⟨.var ⟨"s"⟩, .var ⟨"t"⟩, .var ⟨"o"⟩⟩]) [⟨"s"⟩, ⟨"t"⟩]
        [(⟨"i"⟩, .apply .count (.var ⟨"o"⟩) false)])
      ⟨"n"⟩ (.var ⟨"i"⟩))
    [⟨"s"⟩, ⟨"t"⟩, ⟨"n"⟩]

/-- The sums of these counts, with the given keys and columns. -/
def summedCounts (keys columns : List Var) : Pattern :=
  .project
    (.extend
      (.group countedByType keys [(⟨"j"⟩, .apply .sum (.var ⟨"n"⟩) false)])
      ⟨"m"⟩ (.var ⟨"j"⟩))
    columns

/-- A query with the parameter `?k` and two embedded expressions over sums of counts. -/
def summedQuery : Query :=
  { Query.generate [.triples
      [⟨.embedded (.var ⟨"s"⟩), .term (.var ⟨"p"⟩), .embedded (.var ⟨"m"⟩)⟩]] with
    signature := some [⟨"k"⟩]
    pattern := summedCounts [⟨"s"⟩] [⟨"s"⟩, ⟨"m"⟩] }

/-- The parameter goes to the group and to the projection of the query below the assignments; those
of the sub-select stay as they are. -/
theorem summed_query_grouped_below_assignments :
    (summedQuery.lift (.tally "fresh") 0).selectPlan.query.pattern =
        ((summedCounts [⟨"s"⟩, ⟨"k"⟩] [⟨"s"⟩, ⟨"m"⟩, ⟨"k"⟩]).extend ⟨"fresh"⟩ (.var ⟨"s"⟩)).extend
          ⟨"fresh_"⟩ (.var ⟨"m"⟩) ∧
      ∀ v ∈ summedQuery.drawn (.tally "fresh") 0,
        v ∉ (summedQuery.lift (.tally "fresh") 0).selectPlan.query.pattern.ownKeys ∧
          v ∉ (summedQuery.lift (.tally "fresh") 0).selectPlan.query.pattern.ownColumns := by
  have hcommutes := lifting_commutes_with_grouping (.tally "fresh") 0 summedQuery
  have hdrawn : ∀ v ∈ summedQuery.drawn (.tally "fresh") 0, v ∉ summedQuery.vars := by decide
  constructor
  · exact hcommutes.planned
  · intro v hv
    exact hcommutes.drawn_apart v hv (hdrawn v hv)

end SparqlGenerate
