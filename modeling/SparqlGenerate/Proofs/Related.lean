import Mathlib.Data.List.Forall2

/-!
# Related options, lists and checks

What is compiled stands in step with what it is compiled from: an option with an option, and the
members of one list with those of another. Here is what such relations give of the parts, for any
relation, and what a check that has a result says of the checks it is made of.
-/

/-! ## Options -/

namespace Option.Rel

variable {α β γ δ : Type*} {R : α → β → Prop} {first : Option α} {second : Option β}

theorem imp {S : α → β → Prop} (h : Option.Rel R first second)
    (himp : ∀ a b, R a b → S a b) : Option.Rel S first second := by
  cases h with
  | none => exact .none
  | some hrel => exact .some (himp _ _ hrel)

theorem bind {S : γ → δ → Prop} {next : α → Option γ} {further : β → Option δ}
    (h : Option.Rel R first second)
    (hnext : ∀ a b, R a b → Option.Rel S (next a) (further b)) :
    Option.Rel S (first.bind next) (second.bind further) := by
  cases h with
  | none => exact .none
  | some hrel => exact hnext _ _ hrel

theorem exists_of_some_left {a : α} (h : Option.Rel R (Option.some a) second) :
    ∃ b, second = Option.some b ∧ R a b := by
  cases h with
  | some hrel => exact ⟨_, rfl, hrel⟩

theorem exists_of_some_right {b : β} (h : Option.Rel R first (Option.some b)) :
    ∃ a, first = Option.some a ∧ R a b := by
  cases h with
  | some hrel => exact ⟨_, rfl, hrel⟩

end Option.Rel

/-! ## Lists -/

namespace List.Forall₂

variable {α β : Type*} {R S : α → β → Prop} {first : List α} {second : List β}

/-- Related members of two lists have the same number. -/
theorem rel_getElem? (h : List.Forall₂ R first second) (number : Nat) :
    Option.Rel R first[number]? second[number]? := by
  induction h generalizing number with
  | nil => exact .none
  | cons hrel hrest ih =>
      cases number with
      | zero => exact .some hrel
      | succ number => exact ih number

theorem exists_of_mem_right (h : List.Forall₂ R first second) {b : β} (hb : b ∈ second) :
    ∃ a ∈ first, R a b := by
  obtain ⟨number, hnumber⟩ := List.mem_iff_getElem?.mp hb
  obtain ⟨a, ha, hrel⟩ := (hnumber ▸ h.rel_getElem? number).exists_of_some_right
  exact ⟨a, List.mem_of_getElem? ha, hrel⟩

theorem imp_of_mem_right (h : List.Forall₂ R first second)
    (himp : ∀ a, ∀ b ∈ second, R a b → S a b) : List.Forall₂ S first second := by
  induction h with
  | nil => exact .nil
  | @cons a b first second hrel hrest ih =>
      refine .cons (himp a b List.mem_cons_self hrel) (ih ?_)
      intro c d hd
      exact himp c d (List.mem_cons_of_mem b hd)

end List.Forall₂

/-! ## Checks -/

namespace Except

universe u

variable {ε : Type*} {α β : Type u}

/-- A check with a result has passed its first part. -/
theorem exists_of_bind_eq_ok {check : Except ε α} {next : α → Except ε β} {b : β}
    (h : check >>= next = .ok b) : ∃ a, check = .ok a ∧ next a = .ok b := by
  cases check with
  | error error => cases h
  | ok a => exact ⟨a, rfl, h⟩

/-- Where the checks of the members of a list have results, these are the results of the single
checks, in the same order. -/
theorem forall₂_of_mapM_eq_ok {check : α → Except ε β} {members : List α} {results : List β}
    (h : members.mapM check = .ok results) :
    List.Forall₂ (fun a b => check a = .ok b) members results := by
  induction members generalizing results with
  | nil =>
      cases h
      exact .nil
  | cons a rest ih =>
      rw [List.mapM_cons] at h
      obtain ⟨b, hb, h⟩ := exists_of_bind_eq_ok h
      obtain ⟨bs, hbs, h⟩ := exists_of_bind_eq_ok h
      cases h
      exact .cons hb (ih hbs)

end Except
