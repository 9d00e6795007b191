import Mathlib.Algebra.BigOperators.Ring.Finset
import Mathlib.Data.Fintype.BigOperators

/-!
# Totals that change in one place

Counters kept up to date by single increments agree with what they count as long as
each change of the one is matched by a change of the other.
-/

namespace NcuKernel.Counting

open Finset

variable {α M : Type*} [Fintype α]

/-- Two functions that differ in one place. -/
theorem sum_add_of_eq_off [AddCommMonoid M] {f g : α → M} (a : α) (h : ∀ b, b ≠ a → g b = f b) :
    ∑ b, g b + f a = ∑ b, f b + g a := by
  classical
  have hrest : ∑ b ∈ univ.erase a, g b = ∑ b ∈ univ.erase a, f b :=
    sum_congr rfl fun b hb ↦ h b (ne_of_mem_erase hb)
  rw [← add_sum_erase univ g (mem_univ a), ← add_sum_erase univ f (mem_univ a), hrest]
  ac_rfl

theorem sum_update_add [AddCommMonoid M] [DecidableEq α] (f : α → M) (a : α) (x : M) :
    ∑ b, Function.update f a x b + f a = ∑ b, f b + x := by
  have h := sum_add_of_eq_off (f := f) (g := Function.update f a x) a fun b hb ↦ by simp [hb]
  rwa [Function.update_self] at h

end NcuKernel.Counting
