import Mathlib.Order.Bounds.Basic
import Mathlib.Order.MinMax
import Mathlib.Tactic.Common

/-!
# Limits that are inherited down a tree

A tree is given by its parent function. A value that every node computes from its own
request and the value of its parent is determined by the requests on the way to the top.
-/

namespace NcuKernel.Hierarchy

variable {α β : Type*} {parent parent' : α → Option α} {a b : α} {l : List α}

/-- `l` is the way from `a` to a node without parent. -/
inductive Ancestry (parent : α → Option α) : α → List α → Prop
  | top {a : α} (h : parent a = none) : Ancestry parent a [a]
  | step {a b : α} {l : List α} (h : parent a = some b) (hb : Ancestry parent b l) :
      Ancestry parent a (a :: l)

theorem Ancestry.mem_self (h : Ancestry parent a l) : a ∈ l := by
  cases h <;> simp

theorem Ancestry.exists_top (h : Ancestry parent a l) : ∃ b ∈ l, parent b = none := by
  induction h with
  | top h => exact ⟨_, by simp, h⟩
  | step h hb ih =>
      obtain ⟨b, hb, hp⟩ := ih
      exact ⟨b, by simp [hb], hp⟩

theorem Ancestry.congr (h : Ancestry parent a l) (heq : ∀ b ∈ l, parent' b = parent b) :
    Ancestry parent' a l := by
  induction h with
  | top h => exact .top ((heq _ (by simp)).trans h)
  | step h hb ih => exact .step ((heq _ (by simp)).trans h) (ih fun b hb ↦ heq b (by simp [hb]))

/-- Whoever is on the way is where it starts or the parent of someone on it. -/
theorem Ancestry.eq_or_exists_child (h : Ancestry parent a l) (hb : b ∈ l) :
    b = a ∨ ∃ c ∈ l, parent c = some b := by
  induction h with
  | top h => exact .inl (by simpa using hb)
  | step h hc ih =>
      rcases List.mem_cons.mp hb with rfl | hb
      · exact .inl rfl
      · rcases ih hb with rfl | ⟨c, hc, hp⟩
        · exact .inr ⟨_, by simp, h⟩
        · exact .inr ⟨c, by simp [hc], hp⟩

theorem Ancestry.parent_ne_self (h : Ancestry parent a l) : parent a ≠ some a := by
  induction h with
  | top h => simp [h]
  | step h hb ih =>
      rintro heq
      obtain rfl := Option.some.inj (h.symm.trans heq)
      exact ih heq

/-- A value capped by the value of the parent is the least request on the way up. -/
theorem Ancestry.isLeast [LinearOrder β] {f r : α → β} (h : Ancestry parent a l)
    (htop : ∀ b ∈ l, parent b = none → f b = r b)
    (hstep : ∀ b ∈ l, ∀ c, parent b = some c → f b = min (r b) (f c)) :
    IsLeast (Set.image r {b | b ∈ l}) (f a) := by
  induction h with
  | top h =>
      rw [htop _ (by simp) h]
      simp [IsLeast, lowerBounds]
  | @step a b l h hb ih =>
      obtain ⟨⟨c, hc, hrc⟩, hle⟩ := ih (fun b hb ↦ htop b (by simp [hb]))
        fun b hb ↦ hstep b (by simp [hb])
      rw [hstep a (by simp) b h]
      constructor
      · rcases min_choice (r a) (f b) with hm | hm <;> rw [hm]
        · exact ⟨a, by simp, rfl⟩
        · exact ⟨c, List.mem_cons_of_mem a hc, hrc⟩
      · rintro _ ⟨d, hd, rfl⟩
        rcases List.mem_cons.mp hd with rfl | hd
        · exact min_le_left _ _
        · exact (min_le_right _ _).trans (hle ⟨d, hd, rfl⟩)

end NcuKernel.Hierarchy
