import Mathlib.Data.List.Basic

/-! # Lawful histories

A history is a list of what has happened, the latest first. What may happen depends on what has happened
before.

* `Lawful.good`: every entry of a lawful history was allowed when it came.
* `Lawful.next`: so was the entry after it, if there is one. -/

namespace Transact

variable {α : Type} {Good : α → List α → Prop} {e : α} {past later : List α}

/-- Every entry is allowed after those before it. -/
inductive Lawful (Good : α → List α → Prop) : List α → Prop
  | nil : Lawful Good []
  | cons {e : α} {past : List α} (good : Good e past) (rest : Lawful Good past) : Lawful Good (e :: past)

namespace Lawful

theorem good (h : Lawful Good (later ++ e :: past)) : Good e past := by
  induction later with
  | nil =>
    cases h with
    | cons good _ => exact good
  | cons _ _ ih =>
    cases h with
    | cons _ rest => exact ih rest

/-- The entry after a given one, which may be the latest. -/
theorem next (h : Lawful Good (later ++ e :: past)) :
    later = [] ∨ ∃ later' e', later = later' ++ [e'] ∧ Good e' (e :: past) := by
  obtain rfl | ⟨later', e', rfl⟩ := later.eq_nil_or_concat
  · exact .inl rfl
  · rw [List.concat_eq_append, List.append_assoc] at h
    exact .inr ⟨later', e', List.concat_eq_append, h.good⟩

end Lawful

end Transact
