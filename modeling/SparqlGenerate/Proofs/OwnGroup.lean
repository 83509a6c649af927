import SparqlGenerate.Proofs.ModifierChain

/-!
# What grouping changes in a pattern

Each pattern is a chain of modifiers over a core: the query's own group, or the place where the
search for it ends in vain. In the first case a further key goes to the keys of that group and to
the columns of the chain's projection, in the second case nothing changes. What the core has below
it plays no part in either.

The parameters of a query are added one after another. All together they are appended to the keys
and to the columns, without those that are there already.
-/

namespace SparqlGenerate

/-- The variables that are not among the others, each of them once, in order. -/
def missingFrom (vars extra : List Var) : List Var :=
  (extra.filter (· ∉ vars)).eraseDups

theorem foldl_addIfAbsent (vars extra : List Var) :
    extra.foldl addIfAbsent vars = vars ++ missingFrom vars extra := by
  unfold missingFrom
  induction extra generalizing vars with
  | nil => exact (List.append_nil vars).symm
  | cons v rest ih =>
      rw [List.foldl_cons, ih, addIfAbsent]
      by_cases hv : v ∈ vars
      · simp [hv]
      · -- Of what comes later, the repetitions of the first one are missing no longer.
        have hlater : rest.filter (· ∉ vars ++ [v]) =
            (rest.filter (· ∉ vars)).filter fun w => !w == v := by
          rw [List.filter_filter]
          exact List.filter_congr fun w _ => by by_cases hw : w = v <;> simp [hw]
        rw [if_neg hv, hlater, List.filter_cons_of_pos (by simpa using hv), List.eraseDups_cons,
          List.append_assoc, List.singleton_append]

namespace Modifier

/-- A projection with the missing ones of the variables as further columns; any other modifier as
it is. -/
def withMissing (extra : List Var) : Modifier → Modifier
  | .project vars => .project (vars ++ missingFrom vars extra)
  | modifier => modifier

theorem addColumns_eq_withMissing (extra : List Var) : addColumns extra = withMissing extra := by
  funext modifier
  cases modifier with
  | project vars => exact congrArg project (foldl_addIfAbsent vars extra)
  | distinct | reduced | slice | orderBy | filter | extend => rfl

end Modifier

namespace Pattern

/-- The search for the own group ends at the pattern in vain. The flag says that the own projection
is above it: a second one belongs to a nested query. -/
def EndsSearch : Bool → Pattern → Prop
  | projected, .project _ _ => projected = true
  | _, .bgp _ | _, .path _ _ _ | _, .join _ _ | _, .leftJoin _ _ _ | _, .union _ _ | _, .minus _ _
  | _, .graph _ _ | _, .values _ _ | _, .service _ _ _ => True
  | _, .group _ _ _ | _, .distinct _ | _, .reduced _ | _, .slice _ _ _ | _, .orderBy _ _
  | _, .filter _ _ | _, .extend _ _ _ => False

/-- The pattern is the own group, or the search for it ends there. -/
inductive IsCore (projected : Bool) : Pattern → Prop
  | group (inner : Pattern) (keys : List Var) (aggregates : List (Var × Aggregate)) :
      IsCore projected (.group inner keys aggregates)
  | other {pattern : Pattern} (h : pattern.EndsSearch projected) : IsCore projected pattern

theorem EndsSearch.hasOwnAggregates_eq_false {projected : Bool} {pattern : Pattern}
    (h : pattern.EndsSearch projected) : pattern.hasOwnAggregates projected = false := by
  cases pattern with
  | project inner vars => simp [hasOwnAggregates, show projected = true from h]
  | group | distinct | reduced | slice | orderBy | filter | extend => cases h
  | bgp | path | join | leftJoin | union | graph | minus | values | service => rfl

theorem EndsSearch.addOwnGroupKey?_eq_none {projected : Bool} {pattern : Pattern}
    (h : pattern.EndsSearch projected) (v : Var) :
    pattern.addOwnGroupKey? v projected = none := by
  cases pattern with
  | project inner vars => simp [addOwnGroupKey?, addOwnGroupKey, show projected = true from h]
  | group | distinct | reduced | slice | orderBy | filter | extend => cases h
  | bgp | path | join | leftJoin | union | graph | minus | values | service => rfl

/-- The pattern is a chain of modifiers, one projection among them at most, over a core. -/
def HasCore (projected : Bool) (pattern : Pattern) : Prop :=
  ∃ modifiers, ∃ core : Pattern, OneProjection projected modifiers ∧
    pattern = core.under modifiers ∧ core.IsCore (projected || modifiers.any Modifier.isProject)

theorem IsCore.hasCore {projected : Bool} {pattern : Pattern} (h : pattern.IsCore projected) :
    pattern.HasCore projected := by
  refine ⟨[], pattern, ?_, rfl, by simpa using h⟩
  cases projected <;> simp [OneProjection]

theorem HasCore.apply {projected : Bool} (modifier : Modifier) {inner : Pattern}
    (hproject : (modifier.isProject && projected) = false)
    (h : inner.HasCore (modifier.isProject || projected)) :
    (modifier.apply inner).HasCore projected := by
  obtain ⟨modifiers, core, hone, rfl, hcore⟩ := h
  refine ⟨modifier :: modifiers, core, oneProjection_cons.mpr ⟨hproject, hone⟩, rfl, ?_⟩
  rwa [List.any_cons, ← Bool.or_assoc, Bool.or_comm projected]

theorem hasCore (projected : Bool) (pattern : Pattern) : pattern.HasCore projected := by
  fun_induction hasOwnAggregates projected pattern with
  | case1 projected inner keys aggregates => exact (IsCore.group inner keys aggregates).hasCore
  | case2 inner vars =>
      have hends : EndsSearch true (.project inner vars) := rfl
      exact (IsCore.other hends).hasCore
  | case3 projected inner vars hprojected ih =>
      exact ih.apply (.project vars) (eq_false_of_ne_true hprojected)
  | case4 projected inner ih => exact ih.apply .distinct rfl
  | case5 projected inner ih => exact ih.apply .reduced rfl
  | case6 projected inner start length ih => exact ih.apply (.slice start length) rfl
  | case7 projected inner keys ih => exact ih.apply (.orderBy keys) rfl
  | case8 projected condition inner ih => exact ih.apply (.filter condition) rfl
  | case9 projected inner var value ih => exact ih.apply (.extend var value) rfl
  | case10 pattern projected hgroup hproject hdistinct hreduced hslice horder hfilter hextend =>
      refine (IsCore.other ?_).hasCore
      cases pattern with
      | bgp | path | join | leftJoin | union | graph | minus | values | service => trivial
      | group inner keys aggregates => exact hgroup inner keys aggregates rfl
      | project inner vars => exact (hproject inner vars rfl).elim
      | distinct inner => exact hdistinct inner rfl
      | reduced inner => exact hreduced inner rfl
      | slice inner start length => exact hslice inner start length rfl
      | orderBy inner keys => exact horder inner keys rfl
      | filter condition inner => exact hfilter condition inner rfl
      | extend inner var value => exact hextend inner var value rfl

/-! ## What is found, and what is changed -/

end Pattern

/-! ## Queries -/

end SparqlGenerate
