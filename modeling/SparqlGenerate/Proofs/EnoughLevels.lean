import SparqlGenerate.Proofs.Rounds

/-!
# Levels enough

How many levels of nested queries a compilation may open in the answers of its parser is a number
that comes with the parser, and a compilation that needs more is abandoned. Here the number is
varied: a compilation ends if it does so for all numbers from some one on, and then it ends in the
same way for all of these. So what is said about compilations with levels enough does not depend on
the number at all.
-/

namespace SparqlGenerate

namespace Compiler

/-- The compiler whose parser, if it has one, comes with that many levels. -/
def allowing (compiler : Compiler) (levels : Nat) : Compiler :=
  { compiler with parser := compiler.parser.map fun parser => { parser with levels := levels } }

variable {compiler : Compiler}

theorem allowing_of_none (hparser : compiler.parser = none) (levels : Nat) :
    compiler.allowing levels = compiler := by
  obtain ⟨base, rounds, parser, fresh⟩ := compiler
  obtain rfl : parser = none := hparser
  rfl

theorem levelsFor_allowing_of_some {parser : Parser} (hparser : compiler.parser = some parser)
    (levels : Nat) (query : Query) :
    (compiler.allowing levels).levelsFor query = query.depth + levels := by
  simp [levelsFor, allowing, hparser]

/-- Levels are not looked at when a query is opened. -/
theorem opened_allowing (compiler : Compiler) (levels : Nat) (query : Query) :
    (compiler.allowing levels).opened query = compiler.opened query := by
  unfold opened reread
  cases hparser : compiler.parser with
  | none => rw [allowing_of_none hparser, hparser]
  | some parser =>
      simp only [allowing, hparser, Option.map_some]
      rfl

theorem planWithin_allowing (compiler : Compiler) (further levels : Nat) (isTop : Bool)
    (query : Query) :
    (compiler.allowing further).planWithin levels isTop query =
      compiler.planWithin levels isTop query :=
  planWithin_congr (compiler.opened_allowing further) rfl rfl levels isTop query

/-- What a compilation comes to within some levels, it comes to with a parser that allows them. -/
theorem outcome_planWithin_allowing {levels further : Nat} {isTop : Bool} {query : Query}
    {trace left : Trace} {result : Except CompileError Plan}
    (h : (compiler.planWithin levels isTop query).outcome trace = some (result, left))
    (hlevels : levels ≤ further) :
    ((compiler.allowing further).planWithin ((compiler.allowing further).levelsFor query) isTop
      query).outcome trace = some (result, left) := by
  rw [planWithin_allowing]
  cases hparser : compiler.parser with
  | some parser =>
      rw [levelsFor_allowing_of_some hparser]
      exact endsAs_planWithin compiler (Nat.le_add_left_of_le hlevels) isTop query trace _ h
  | none =>
      -- Without a parser the levels of the query are enough.
      rw [allowing_of_none hparser, levelsFor_eq_depth hparser]
      obtain ⟨other, beside, hother, -⟩ :=
        reports_planWithin hparser query.depth isTop (Nat.le_refl _) trace
      have hfirst := endsAs_planWithin compiler (Nat.le_max_left levels query.depth) isTop query
        trace _ h
      have hsecond := endsAs_planWithin compiler (Nat.le_max_right levels query.depth) isTop query
        trace _ hother
      rw [hother, ← hsecond, hfirst]

/-- The compilation of the query ends if it may go through levels enough. -/
def Ends (compiler : Compiler) (query : Query) (trace : Trace) : Prop :=
  ∃ levels, ∀ further, levels ≤ further →
    ∃ ended, ((compiler.allowing further).compile query).outcome trace = some ended

/-- A compilation ends just if there is a walk of its query. -/
theorem ends_iff_exists_walks {query : Query} {trace : Trace} :
    compiler.Ends query trace ↔
      ∃ visited ending left, compiler.Walks [.query query] trace.calls visited ending left := by
  constructor
  · rintro ⟨levels, h⟩
    obtain ⟨ended, hended⟩ := h levels (Nat.le_refl levels)
    rw [compile, planWithin_allowing] at hended
    exact (compiler.exists_outcome_iff_exists_walks true query trace).mp ⟨_, ended, hended⟩
  · intro h
    obtain ⟨levels, ⟨result, left⟩, hended⟩ :=
      (compiler.exists_outcome_iff_exists_walks true query trace).mpr h
    exact ⟨levels, fun further hfurther =>
      ⟨_, outcome_planWithin_allowing hended hfurther⟩⟩

end Compiler

end SparqlGenerate
