import NcuKernel.Paging.PathEnds

/-!
# Shared memory read off physical addresses

Equal results of `ADDRESS_TRANSFORM` for two mapped addresses mean that the two PTEs
hold the same frame and the addresses the same offset, and the equality then extends
over the whole page.
-/

namespace NcuKernel.Paging

/-! ## Moving inside a page -/

theorem toNat_add_ofInt {va : Word} {k : ℤ} (hlo : 0 ≤ (va.toNat % 4096 : ℤ) + k)
    (hhi : (va.toNat % 4096 : ℤ) + k < 4096) :
    ((va + BitVec.ofInt 64 k).toNat : ℤ) = va.toNat + k := by
  have hlt : va.toNat < 2 ^ 64 := va.isLt
  rw [BitVec.toNat_add, BitVec.toNat_ofInt]
  omega

theorem pageNumber_add {va : Word} {k : ℤ} (hlo : 0 ≤ (va.toNat % 4096 : ℤ) + k)
    (hhi : (va.toNat % 4096 : ℤ) + k < 4096) :
    pageNumber (va + BitVec.ofInt 64 k) = pageNumber va := by
  have hsum := toNat_add_ofInt hlo hhi
  apply BitVec.eq_of_toNat_eq
  simp only [pageNumber, BitVec.extractLsb'_toNat, Nat.shiftRight_eq_div_pow]
  omega

variable {mode : PagingMode} (M : PgtableMacros mode)

theorem addressTransform_of_pte {mm : Mm} {va e : Word}
    (h : pathEnd mode mm va = some (.small e)) :
    (addressTransform M mm va).1 = physical 12 (frame e) va := by
  rw [addressTransform_eq_pathEnd, h]
  rfl

/-- The result for another address of the page differs by the distance. -/
theorem addressTransform_add {mm : Mm} {va e : Word} (h : pathEnd mode mm va = some (.small e))
    {k : ℤ} (hlo : 0 ≤ (va.toNat % 4096 : ℤ) + k) (hhi : (va.toNat % 4096 : ℤ) + k < 4096) :
    ((addressTransform M mm (va + BitVec.ofInt 64 k)).1.toNat : ℤ) =
      (addressTransform M mm va).1.toNat + k := by
  have hsum := toNat_add_ofInt hlo hhi
  have hend : pathEnd mode mm (va + BitVec.ofInt 64 k) = some (.small e) := by
    rw [pathEnd_of_pageNumber mode mm (pageNumber_add hlo hhi), h]
  rw [addressTransform_of_pte M hend, addressTransform_of_pte M h,
    physical_toNat _ _ (by decide), physical_toNat _ _ (by decide)]
  omega

/-! ## Two hierarchies -/

/-- For two addresses that are mapped by 4 KiB pages, each in its own hierarchy, equal
results mean the same frame and the same offset; and equal results stay equal, and grow
with the address, inside the page. -/
theorem addressTransform_eq_iff_shared (mm₁ mm₂ : Mm) (va₁ va₂ e₁ e₂ : Word)
    (h₁ : pathEnd mode mm₁ va₁ = some (.small e₁))
    (h₂ : pathEnd mode mm₂ va₂ = some (.small e₂)) :
    ((addressTransform M mm₁ va₁).1 = (addressTransform M mm₂ va₂).1 ↔
        frame e₁ = frame e₂ ∧ va₁.toNat % 4096 = va₂.toNat % 4096) ∧
      ((addressTransform M mm₁ va₁).1 = (addressTransform M mm₂ va₂).1 →
        ∀ k : ℤ, 0 ≤ (va₁.toNat % 4096 : ℤ) + k → (va₁.toNat % 4096 : ℤ) + k < 4096 →
          (addressTransform M mm₁ (va₁ + BitVec.ofInt 64 k)).1 =
              (addressTransform M mm₂ (va₂ + BitVec.ofInt 64 k)).1 ∧
            ((addressTransform M mm₁ (va₁ + BitVec.ofInt 64 k)).1.toNat : ℤ) =
              (addressTransform M mm₁ va₁).1.toNat + k) := by
  have hiff : (addressTransform M mm₁ va₁).1 = (addressTransform M mm₂ va₂).1 ↔
      frame e₁ = frame e₂ ∧ va₁.toNat % 4096 = va₂.toNat % 4096 := by
    rw [addressTransform_of_pte M h₁, addressTransform_of_pte M h₂]
    exact physical_eq_iff
  refine ⟨hiff, fun heq k hlo hhi ↦ ?_⟩
  have hlow : va₁.toNat % 4096 = va₂.toNat % 4096 := (hiff.mp heq).2
  have hadd₁ := addressTransform_add M h₁ hlo hhi
  have hadd₂ := addressTransform_add M h₂ (by omega : 0 ≤ (va₂.toNat % 4096 : ℤ) + k) (by omega)
  refine ⟨BitVec.eq_of_toNat_eq ?_, hadd₁⟩
  rw [← heq] at hadd₂
  omega

/-- Another hierarchy, with tables in frames 5 to 8, that maps the page at 0x1000 read-only
and not executable to the frame that `selfMapped` has at address 0. -/
def readOnlyAlias : Mm where
  mem t i :=
    if t = 8 then if i = 1 then 0x8000000000001025 else 0
    else if i = 0 then if t = 5 then 0x6067 else if t = 6 then 0x7067 else 0x8067
    else 0
  pgd := 5

theorem addressTransform_eq_iff_shared_alias :
    ((addressTransform (.x86 .fourLevel) selfMapped 0x123).1 =
          (addressTransform (.x86 .fourLevel) readOnlyAlias 0x1123).1 ↔
        frame 0x1067 = frame 0x8000000000001025 ∧
          (0x123 : Word).toNat % 4096 = (0x1123 : Word).toNat % 4096) ∧
      ((addressTransform (.x86 .fourLevel) selfMapped 0x123).1 =
          (addressTransform (.x86 .fourLevel) readOnlyAlias 0x1123).1 →
        ∀ k : ℤ, 0 ≤ ((0x123 : Word).toNat % 4096 : ℤ) + k →
          ((0x123 : Word).toNat % 4096 : ℤ) + k < 4096 →
            (addressTransform (.x86 .fourLevel) selfMapped (0x123 + BitVec.ofInt 64 k)).1 =
                (addressTransform (.x86 .fourLevel) readOnlyAlias (0x1123 + BitVec.ofInt 64 k)).1 ∧
              ((addressTransform (.x86 .fourLevel) selfMapped
                  (0x123 + BitVec.ofInt 64 k)).1.toNat : ℤ) =
                (addressTransform (.x86 .fourLevel) selfMapped 0x123).1.toNat + k) :=
  addressTransform_eq_iff_shared (.x86 .fourLevel) selfMapped readOnlyAlias 0x123 0x1123
    0x1067 0x8000000000001025 (by decide) (by decide)

example : (addressTransform (.x86 .fourLevel) readOnlyAlias 0x1123).1 = 0x1123 := by decide

end NcuKernel.Paging
