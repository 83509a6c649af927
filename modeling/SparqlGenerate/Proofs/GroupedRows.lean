import Mathlib.Data.List.Dedup
import SparqlGenerate.Proofs.ModifierChain
import SparqlGenerate.Proofs.Solutions

/-!
# The rows of a grouped pattern

A row is a solution together with its origins, the solutions below the group that it was computed
from. A group makes one row of each class of solutions with the same keys, and each modifier above
it drops, merges, orders or changes rows. The order of an `OrderBy` and the choice of a `Reduced`
are left open, so a pattern may have several evaluations.

The pattern that is planned for a query with aggregates is grouped by its parameters. Each row then
binds a parameter just as all of its origins do, so that solutions for different arguments are never
summarized in one row.
-/

namespace SparqlGenerate

/-- A solution, with the solutions it was computed from. -/
structure Row where
  solution : Solution
  origins : List Solution

namespace Row

def ofSolution (solution : Solution) : Row :=
  ⟨solution, [solution]⟩

/-- The row with another solution, computed from the same origins. -/
def mapSolution (f : Solution → Solution) (row : Row) : Row :=
  { row with solution := f row.solution }

/-- Rows are kept, in order, or merged into a kept row of the same solution. -/
structure Merge (before after : List Row) : Prop where
  sublist : (after.map solution).Sublist (before.map solution)
  /-- A kept row has all of its own origins. -/
  kept : ∀ row ∈ after, ∃ source ∈ before,
    source.solution = row.solution ∧ source.origins ⊆ row.origins
  /-- Its further origins are those of rows with the same solution. -/
  merged : ∀ row ∈ after, ∀ origin ∈ row.origins, ∃ source ∈ before,
    source.solution = row.solution ∧ origin ∈ source.origins
  /-- No row is lost without being merged. -/
  covered : ∀ source ∈ before, ∃ row ∈ after,
    row.solution = source.solution ∧ source.origins ⊆ row.origins

end Row

/-! ## Groups -/

def Solution.key (keys : List Var) (solution : Solution) : List (Option GroundTerm) :=
  keys.map solution

/-- The solutions in classes, one for each value of the keys. Without keys all solutions are in one
class, even if there are none. -/
def Solution.classes (keys : List Var) (solutions : List Solution) : List (List Solution) :=
  if keys = [] then [solutions]
  else (solutions.map (key keys)).dedup.map fun value =>
    solutions.filter fun solution => solution.key keys = value

namespace Evaluator

/-- The row of a class: the keys, which are bound alike on all its members, and the aggregates. -/
def groupRow (evaluator : Evaluator) (keys : List Var) (aggregates : List (Var × Aggregate))
    (members : List Solution) : Row where
  solution := ((members.headD Solution.empty).restrict keys).assignAll
    (fun aggregate _ => evaluator.summary aggregate members) aggregates
  origins := members

def groupRows (evaluator : Evaluator) (keys : List Var) (aggregates : List (Var × Aggregate))
    (solutions : List Solution) : List Row :=
  (Solution.classes keys solutions).map (evaluator.groupRow keys aggregates)

end Evaluator

/-! ## Evaluation -/

/-- What the modifier makes of the rows below it. An ordering may put them in any order. -/
def Modifier.Turns (evaluator : Evaluator) : Modifier → List Row → List Row → Prop
  | .distinct, before, after => Row.Merge before after ∧ (after.map Row.solution).Nodup
  | .reduced, before, after => Row.Merge before after
  | .slice start none, before, after => after = before.drop start
  | .slice start (some length), before, after => after = (before.drop start).take length
  | .orderBy _, before, after => after.Perm before
  | .filter condition, before, after =>
    after = before.filter fun row => evaluator.holds condition row.solution
  | .extend var value, before, after =>
    after = before.map (Row.mapSolution (evaluator.extend var value))
  | .project vars, before, after => after = before.map (Row.mapSolution (Solution.restrict vars))

/-- The rows are an evaluation of the pattern, given the solutions of all patterns that are neither
groups nor modifiers, and of the patterns below groups. -/
def Pattern.Evaluates (evaluator : Evaluator) (solutions : Pattern → List Solution) :
    Pattern → List Row → Prop
  | .group inner keys aggregates, rows =>
    rows = evaluator.groupRows keys aggregates (solutions inner)
  | .distinct inner, rows =>
    ∃ before, inner.Evaluates evaluator solutions before ∧
      Modifier.distinct.Turns evaluator before rows
  | .reduced inner, rows =>
    ∃ before, inner.Evaluates evaluator solutions before ∧
      Modifier.reduced.Turns evaluator before rows
  | .slice inner start length, rows =>
    ∃ before, inner.Evaluates evaluator solutions before ∧
      (Modifier.slice start length).Turns evaluator before rows
  | .orderBy inner keys, rows =>
    ∃ before, inner.Evaluates evaluator solutions before ∧
      (Modifier.orderBy keys).Turns evaluator before rows
  | .filter condition inner, rows =>
    ∃ before, inner.Evaluates evaluator solutions before ∧
      (Modifier.filter condition).Turns evaluator before rows
  | .extend inner var value, rows =>
    ∃ before, inner.Evaluates evaluator solutions before ∧
      (Modifier.extend var value).Turns evaluator before rows
  | .project inner vars, rows =>
    ∃ before, inner.Evaluates evaluator solutions before ∧
      (Modifier.project vars).Turns evaluator before rows
  | pattern, rows => rows = (solutions pattern).map Row.ofSolution

theorem Pattern.evaluates_apply (evaluator : Evaluator) (solutions : Pattern → List Solution)
    (modifier : Modifier) (inner : Pattern) (rows : List Row) :
    (modifier.apply inner).Evaluates evaluator solutions rows ↔
      ∃ before, inner.Evaluates evaluator solutions before ∧
        modifier.Turns evaluator before rows := by
  cases modifier <;> rfl

/-! ### Every chain has an evaluation -/

namespace Row

theorem merge_refl (rows : List Row) : Merge rows rows where
  sublist := List.Sublist.refl _
  kept := fun row hrow => ⟨row, hrow, rfl, fun _ h => h⟩
  merged := fun row hrow _ horigin => ⟨row, hrow, rfl, horigin⟩
  covered := fun row hrow => ⟨row, hrow, rfl, fun _ h => h⟩

variable [DecidableEq Solution]

/-- The row of a solution, with the origins of all rows of that solution. -/
def mergeAt (rows : List Row) (value : Solution) : Row :=
  ⟨value, (rows.filter fun row => row.solution = value).flatMap origins⟩

def dedup (rows : List Row) : List Row :=
  (rows.map solution).dedup.map (mergeAt rows)

theorem map_solution_dedup (rows : List Row) :
    (dedup rows).map solution = (rows.map solution).dedup := by
  have hsolution : solution ∘ mergeAt rows = id := rfl
  rw [dedup, List.map_map, hsolution, List.map_id]

theorem mem_dedup {rows : List Row} {row : Row} :
    row ∈ dedup rows ↔ ∃ source ∈ rows, row = mergeAt rows source.solution := by
  unfold dedup
  constructor
  · intro hrow
    obtain ⟨value, hvalue, rfl⟩ := List.mem_map.mp hrow
    obtain ⟨source, hsource, rfl⟩ := List.mem_map.mp (List.mem_dedup.mp hvalue)
    exact ⟨source, hsource, rfl⟩
  · rintro ⟨source, hsource, rfl⟩
    exact List.mem_map_of_mem (List.mem_dedup.mpr (List.mem_map_of_mem hsource))

theorem mem_origins_mergeAt {rows : List Row} {value origin : Solution} :
    origin ∈ (mergeAt rows value).origins ↔
      ∃ source ∈ rows, source.solution = value ∧ origin ∈ source.origins := by
  simp only [mergeAt, List.mem_flatMap, List.mem_filter, decide_eq_true_eq, and_assoc]

theorem merge_dedup (rows : List Row) : Merge rows (dedup rows) where
  sublist := map_solution_dedup rows ▸ List.dedup_sublist _
  kept := by
    intro row hrow
    obtain ⟨source, hsource, rfl⟩ := mem_dedup.mp hrow
    exact ⟨source, hsource, rfl, fun origin horigin =>
      mem_origins_mergeAt.mpr ⟨source, hsource, rfl, horigin⟩⟩
  merged := by
    intro row hrow origin horigin
    obtain ⟨source, -, rfl⟩ := mem_dedup.mp hrow
    exact mem_origins_mergeAt.mp horigin
  covered := by
    intro source hsource
    refine ⟨mergeAt rows source.solution, mem_dedup.mpr ⟨source, hsource, rfl⟩, rfl, ?_⟩
    exact fun origin horigin => mem_origins_mergeAt.mpr ⟨source, hsource, rfl, horigin⟩

end Row

theorem Modifier.exists_turns (evaluator : Evaluator) (modifier : Modifier) (before : List Row) :
    ∃ after, modifier.Turns evaluator before after := by
  cases modifier with
  | distinct =>
      classical
      refine ⟨Row.dedup before, Row.merge_dedup before, ?_⟩
      rw [Row.map_solution_dedup]
      exact List.nodup_dedup _
  | reduced => exact ⟨before, Row.merge_refl before⟩
  | slice start length =>
      cases length with
      | none => exact ⟨_, rfl⟩
      | some count => exact ⟨_, rfl⟩
  | orderBy => exact ⟨before, List.Perm.refl before⟩
  | filter => exact ⟨_, rfl⟩
  | extend => exact ⟨_, rfl⟩
  | project => exact ⟨_, rfl⟩

namespace Pattern

theorem exists_evaluates_under (evaluator : Evaluator) (solutions : Pattern → List Solution)
    (modifiers : List Modifier) (inner : Pattern) (keys : List Var)
    (aggregates : List (Var × Aggregate)) :
    ∃ rows, ((group inner keys aggregates).under modifiers).Evaluates evaluator solutions rows := by
  induction modifiers with
  | nil => exact ⟨_, rfl⟩
  | cons modifier rest ih =>
      obtain ⟨before, hbefore⟩ := ih
      obtain ⟨after, hafter⟩ := modifier.exists_turns evaluator before
      exact ⟨after, (evaluates_apply ..).mpr ⟨before, hbefore, hafter⟩⟩

end Pattern

/-! ## Rows agree with their origins -/

/-- The row was computed from some of the solutions, on all of which the variable is bound, or left
unbound, as it is on the row. -/
structure Row.AgreesOn (v : Var) (solutions : List Solution) (row : Row) : Prop where
  origins_ne_nil : row.origins ≠ []
  origins_subset : row.origins ⊆ solutions
  agrees : ∀ origin ∈ row.origins, row.solution v = origin v

theorem Row.AgreesOn.mapSolution {v : Var} {solutions : List Solution} {row : Row}
    (hrow : row.AgreesOn v solutions) {f : Solution → Solution}
    (hf : f row.solution v = row.solution v) : (row.mapSolution f).AgreesOn v solutions where
  origins_ne_nil := hrow.origins_ne_nil
  origins_subset := hrow.origins_subset
  agrees := fun origin horigin => hf.trans (hrow.agrees origin horigin)

/-- Merging rows of the same solution keeps them in agreement with their origins. -/
theorem Row.Merge.agreesOn {v : Var} {solutions : List Solution} {before after : List Row}
    (hmerge : Merge before after) (hbefore : ∀ row ∈ before, row.AgreesOn v solutions) :
    ∀ row ∈ after, row.AgreesOn v solutions := by
  intro row hrow
  refine ⟨?_, ?_, ?_⟩
  · -- A merged row has at least the origins that it had before.
    obtain ⟨source, hsource, -, hsubset⟩ := hmerge.kept row hrow
    intro hnil
    rw [hnil] at hsubset
    exact (hbefore source hsource).origins_ne_nil (List.subset_nil.mp hsubset)
  · intro origin horigin
    obtain ⟨source, hsource, -, hmem⟩ := hmerge.merged row hrow origin horigin
    exact (hbefore source hsource).origins_subset hmem
  · intro origin horigin
    obtain ⟨source, hsource, hsolution, hmem⟩ := hmerge.merged row hrow origin horigin
    rw [← hsolution]
    exact (hbefore source hsource).agrees origin hmem

/-- The modifier neither assigns the variable nor projects it away. -/
def Modifier.Keeps (v : Var) : Modifier → Prop
  | .extend var _ => v ≠ var
  | .project vars => v ∈ vars
  | .distinct | .reduced | .slice .. | .orderBy _ | .filter _ => True

/-- A modifier that keeps the variable keeps rows in agreement with their origins. -/
theorem Modifier.Turns.agreesOn {evaluator : Evaluator} {modifier : Modifier}
    {before after : List Row} {v : Var} {solutions : List Solution}
    (hturns : modifier.Turns evaluator before after) (hkeeps : modifier.Keeps v)
    (hbefore : ∀ row ∈ before, row.AgreesOn v solutions) :
    ∀ row ∈ after, row.AgreesOn v solutions := by
  cases modifier with
  | distinct => exact hturns.1.agreesOn hbefore
  | reduced => exact Row.Merge.agreesOn hturns hbefore
  | slice start length =>
      cases length with
      | none =>
          cases hturns
          exact fun row hrow => hbefore row (List.mem_of_mem_drop hrow)
      | some count =>
          cases hturns
          exact fun row hrow => hbefore row (List.mem_of_mem_drop (List.mem_of_mem_take hrow))
  | orderBy keys => exact fun row hrow => hbefore row (hturns.mem_iff.mp hrow)
  | filter condition =>
      cases hturns
      exact fun row hrow => hbefore row (List.mem_filter.mp hrow).1
  | extend var value =>
      cases hturns
      intro row hrow
      obtain ⟨source, hsource, rfl⟩ := List.mem_map.mp hrow
      exact (hbefore source hsource).mapSolution (Solution.assign_of_ne hkeeps _ _)
  | project vars =>
      cases hturns
      intro row hrow
      obtain ⟨source, hsource, rfl⟩ := List.mem_map.mp hrow
      exact (hbefore source hsource).mapSolution (Solution.restrict_of_mem hkeeps _)

/-! ### The rows of the group -/

theorem Solution.mem_classes {keys : List Var} (hkeys : keys ≠ []) {solutions : List Solution}
    {members : List Solution} (h : members ∈ classes keys solutions) :
    ∃ first ∈ solutions, members = solutions.filter fun solution =>
      solution.key keys = first.key keys := by
  rw [classes, if_neg hkeys] at h
  obtain ⟨value, hvalue, rfl⟩ := List.mem_map.mp h
  obtain ⟨first, hfirst, rfl⟩ := List.mem_map.mp (List.mem_dedup.mp hvalue)
  exact ⟨first, hfirst, rfl⟩

theorem Solution.agree_of_mem_classes {keys : List Var} {solutions members : List Solution}
    (h : members ∈ classes keys solutions) {v : Var} (hv : v ∈ keys) {first second : Solution}
    (hfirst : first ∈ members) (hsecond : second ∈ members) : first v = second v := by
  obtain ⟨origin, -, rfl⟩ := mem_classes (List.ne_nil_of_mem hv) h
  have hkeys := (of_decide_eq_true (List.mem_filter.mp hfirst).2).trans
    (of_decide_eq_true (List.mem_filter.mp hsecond).2).symm
  exact List.map_inj_left.mp hkeys v hv

namespace Evaluator

/-- The row of a class binds a key as the first member does, unless an aggregate assigns it. -/
theorem groupRow_of_mem (evaluator : Evaluator) {keys : List Var}
    {aggregates : List (Var × Aggregate)} {v : Var} (hv : v ∈ keys)
    (haggregates : v ∉ aggregates.map Prod.fst) (first : Solution) (rest : List Solution) :
    (evaluator.groupRow keys aggregates (first :: rest)).solution v = first v := by
  have hkept := Solution.assignAll_of_notMem
    (fun aggregate _ => evaluator.summary aggregate (first :: rest)) haggregates
    (first.restrict keys)
  exact hkept.trans (Solution.restrict_of_mem hv first)

/-- The rows of a group agree with their origins on every key that no aggregate assigns. -/
theorem agreesOn_of_mem_groupRows {evaluator : Evaluator} {keys : List Var}
    {aggregates : List (Var × Aggregate)} {solutions : List Solution} {v : Var} (hv : v ∈ keys)
    (haggregates : v ∉ aggregates.map Prod.fst) {row : Row}
    (hrow : row ∈ evaluator.groupRows keys aggregates solutions) : row.AgreesOn v solutions := by
  obtain ⟨members, hmembers, rfl⟩ := List.mem_map.mp hrow
  obtain ⟨origin, horigin, hfilter⟩ := Solution.mem_classes (List.ne_nil_of_mem hv) hmembers
  -- The class is not empty, since a class by keys is the class of some solution.
  have hself : origin ∈ members := hfilter ▸ List.mem_filter.mpr ⟨horigin, decide_eq_true rfl⟩
  refine ⟨List.ne_nil_of_mem hself, ?_, ?_⟩
  · exact hfilter ▸ List.filter_subset_self _
  · intro second hsecond
    cases members with
    | nil => cases hself
    | cons first rest =>
        rw [groupRow_of_mem evaluator hv haggregates]
        exact Solution.agree_of_mem_classes hmembers hv List.mem_cons_self hsecond

end Evaluator

/-! ## The rows of the chain -/

/-- Above a group, rows agree with their origins on a key that is kept on the whole way up. -/
theorem Pattern.Evaluates.agreesOn {evaluator : Evaluator} {solutions : Pattern → List Solution}
    {modifiers : List Modifier} {inner : Pattern} {keys : List Var}
    {aggregates : List (Var × Aggregate)} {v : Var} (hv : v ∈ keys)
    (haggregates : v ∉ aggregates.map Prod.fst) (hkeeps : ∀ modifier ∈ modifiers, modifier.Keeps v)
    {rows : List Row} (hrows : ((Pattern.group inner keys aggregates).under modifiers).Evaluates
      evaluator solutions rows) :
    ∀ row ∈ rows, row.AgreesOn v (solutions inner) := by
  induction modifiers generalizing rows with
  | nil =>
      cases hrows
      exact fun row hrow => Evaluator.agreesOn_of_mem_groupRows hv haggregates hrow
  | cons modifier rest ih =>
      obtain ⟨before, hbefore, hturns⟩ := (Pattern.evaluates_apply ..).mp hrows
      obtain ⟨hmodifier, hrest⟩ := List.forall_mem_cons.mp hkeeps
      exact hturns.agreesOn hmodifier (ih hrest hbefore)

theorem Modifier.subset_of_project_mem_addColumns {modifiers : List Modifier}
    {extra columns : List Var} (h : project columns ∈ modifiers.map (addColumns extra)) :
    extra ⊆ columns := by
  intro v hv
  obtain ⟨source, -, hsource⟩ := List.mem_map.mp h
  cases source with
  | project vars =>
      cases hsource
      exact mem_foldl_addIfAbsent.mpr (Or.inr hv)
  | distinct | reduced | slice | orderBy | filter | extend => cases hsource

/-- A chain that gets columns for some variables keeps each of them that it does not assign. -/
theorem Modifier.keeps_addColumns {modifiers : List Modifier} {extra : List Var} {v : Var}
    (hv : v ∈ extra) (hextend : ∀ value, Modifier.extend v value ∉ modifiers) :
    ∀ modifier ∈ modifiers.map (addColumns extra), modifier.Keeps v := by
  intro modifier hmodifier
  obtain ⟨source, hsource, rfl⟩ := List.mem_map.mp hmodifier
  cases source with
  | extend var value => exact fun heq => hextend value (heq ▸ hsource)
  | project vars => exact mem_foldl_addIfAbsent.mpr (Or.inr hv)
  | distinct | reduced | slice | orderBy | filter => trivial

/-! ## Parameters -/

/-- Neither an assignment of the chain nor an aggregate of its group binds the variable. -/
def Modifier.Unassigned (v : Var) (modifiers : List Modifier)
    (aggregates : List (Var × Aggregate)) : Prop :=
  (∀ value, extend v value ∉ modifiers) ∧ v ∉ aggregates.map Prod.fst

/-- The query computes aggregates over the solutions of the inner pattern, and the pattern planned
for it keeps the solutions for different arguments apart. -/
structure Query.KeepsApart (evaluator : Evaluator) (solutions : Pattern → List Solution)
    (query : Query) (modifiers : List Modifier) (inner : Pattern) (keys : List Var)
    (aggregates : List (Var × Aggregate)) : Prop where
  pattern_eq : query.pattern = (Pattern.group inner keys aggregates).under modifiers
  /-- The parameters become keys of the group and columns of the projection. -/
  planned_eq : query.selectPlan.query.pattern =
    (Pattern.group inner ((query.signature.getD []).foldl addIfAbsent keys) aggregates).under
      (modifiers.map (Modifier.addColumns (query.signature.getD [])))
  evaluates : ∃ rows, query.selectPlan.query.pattern.Evaluates evaluator solutions rows
  /-- No parameter is projected away. -/
  projected : ∀ v ∈ query.signature.getD [], ∀ columns,
    Modifier.project columns ∈ modifiers.map (Modifier.addColumns (query.signature.getD [])) →
      v ∈ columns
  /-- Each row agrees with all its origins on a parameter that the pattern does not assign. -/
  agrees : ∀ v ∈ query.signature.getD [], Modifier.Unassigned v modifiers aggregates →
    ∀ rows, query.selectPlan.query.pattern.Evaluates evaluator solutions rows →
      ∀ row ∈ rows, row.AgreesOn v (solutions inner)
  /-- Solutions that differ on such a parameter have no row in common. -/
  apart : ∀ v ∈ query.signature.getD [], Modifier.Unassigned v modifiers aggregates →
    ∀ rows, query.selectPlan.query.pattern.Evaluates evaluator solutions rows →
      ∀ row ∈ rows, ∀ first second, first v ≠ second v →
        ¬ (first ∈ row.origins ∧ second ∈ row.origins)

theorem Row.AgreesOn.not_mem_both {v : Var} {solutions : List Solution} {row : Row}
    (hrow : row.AgreesOn v solutions) {first second : Solution} (hne : first v ≠ second v) :
    ¬ (first ∈ row.origins ∧ second ∈ row.origins) := by
  rintro ⟨hfirst, hsecond⟩
  exact hne ((hrow.agrees first hfirst).symm.trans (hrow.agrees second hsecond))

/-- A query that computes aggregates does so for each value of its parameters apart, whatever the
modifiers above its group and whatever the solutions below it. -/
theorem grouping_keeps_parameters_apart (evaluator : Evaluator)
    (solutions : Pattern → List Solution) (query : Query)
    (haggregates : query.pattern.hasAggregates = true) :
    ∃ modifiers inner keys aggregates,
      query.KeepsApart evaluator solutions modifiers inner keys aggregates := by
  obtain ⟨modifiers, inner, keys, aggregates, hpattern, hone, hne⟩ :=
    Pattern.isAggregation_of_hasOwnAggregates haggregates
  have hplanned := Query.pattern_selectPlan_of_under hpattern hone hne
  have hagrees : ∀ v ∈ query.signature.getD [], Modifier.Unassigned v modifiers aggregates →
      ∀ rows, query.selectPlan.query.pattern.Evaluates evaluator solutions rows →
        ∀ row ∈ rows, row.AgreesOn v (solutions inner) := by
    intro v hv hunassigned rows hrows
    rw [hplanned] at hrows
    exact hrows.agreesOn (mem_foldl_addIfAbsent.mpr (Or.inr hv)) hunassigned.2
      (Modifier.keeps_addColumns hv hunassigned.1)
  refine ⟨modifiers, inner, keys, aggregates, hpattern, hplanned, ?_, ?_, hagrees, ?_⟩
  · rw [hplanned]
    exact Pattern.exists_evaluates_under evaluator solutions _ inner _ aggregates
  · intro v hv columns hcolumns
    exact Modifier.subset_of_project_mem_addColumns hcolumns hv
  · intro v hv hunassigned rows hrows row hrow first second hdiffer
    exact (hagrees v hv hunassigned rows hrows row hrow).not_mem_both hdiffer

/-- A query with a parameter that counts solutions and keeps nothing but the distinct counts. -/
def countingQuery : Query :=
  { Query.ofForm .select with
    signature := some [⟨"x"⟩]
    pattern := .distinct (.project
      (.group (.bgp []) [] [(⟨"count"⟩, .countSolutions false)]) [⟨"count"⟩]) }

/-- An evaluator that counts the members of a group. -/
def countingEvaluator : Evaluator where
  value _ _ := none
  isTrue _ := false
  summary _ members := some (.literal (.plain (toString members.length)))

/-- Two solutions, for different arguments of the parameter. -/
def twoArguments : List Solution :=
  ["a", "b"].map fun label => Solution.empty.assign ⟨"x"⟩ (some (.blank label))

theorem grouping_keeps_counts_apart :
    countingQuery.pattern.hasAggregates = true ∧
      ∃ modifiers inner keys aggregates, countingQuery.KeepsApart countingEvaluator
        (fun _ => twoArguments) modifiers inner keys aggregates :=
  ⟨rfl, grouping_keeps_parameters_apart countingEvaluator _ countingQuery rfl⟩

end SparqlGenerate
