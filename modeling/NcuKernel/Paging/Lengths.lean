import NcuKernel.Paging.PhysicalAddresses

/-!
# The two lengths

`physical_address_length` bounds nothing, and `virtual_address_length` is used without a
check as the size of two arrays on the stack, as the bound of the loop and in the byte
count of both copies.
-/

namespace NcuKernel.Paging

open Radix Bytes

/-! ## The length of the result -/

/-- The call changes no user byte from the end of the result buffer on, whatever the list,
the memory and the page tables. -/
def RespectsLength (n m : BitVec 32) : Prop :=
  ∀ (σ : Type) (U : Uaccess σ) (mode : PagingMode) (M : PgtableMacros mode) (F : StackFrame U)
    (s : σ) (initial result : Word) (ret : SyscallReturn σ),
    myGetPhysicalAddresses U M F s initial n result m = some ret →
      ∀ x : Word, result.toNat + 8 * (max m.toInt 0).toNat ≤ x.toNat →
        U.memory ret.state x = U.memory s x

theorem fits_of_returns {σ : Type} {U : Uaccess σ} {mode : PagingMode} {M : PgtableMacros mode}
    {F : StackFrame U} {s : σ} {initial result : Word} {n m : BitVec 32} {ret : SyscallReturn σ}
    (h : myGetPhysicalAddresses U M F s initial n result m = some ret) : F.fits n = true := by
  by_contra hno
  have hnone : myGetPhysicalAddresses U M F s initial n result m = none := if_neg hno
  rw [hnone] at h
  simp at h

theorem toNat_of_nonneg {n : BitVec 32} (hn : 0 ≤ n.toInt) : (n.toNat : ℤ) = n.toInt := by
  rw [BitVec.toInt_eq_toNat_of_msb]
  rw [BitVec.msb_eq_toInt]
  simpa using hn

theorem respectsLength_of_le {n m : BitVec 32} (h : n.toInt ≤ max m.toInt 0) :
    RespectsLength n m := by
  intro σ U mode M F s initial result ret hcall x hx
  have hfits := fits_of_returns hcall
  obtain ⟨ret', hcall', _, hmemory⟩ := myGetPhysicalAddresses_eq U M F s initial n result m hfits
  obtain rfl : ret' = ret := Option.some.inj (hcall'.symm.trans hcall)
  have hn := toNat_of_nonneg (StackFrame.fits_iff.mp hfits).1
  have hsub : (x - result).toNat = x.toNat - result.toNat :=
    BitVec.toNat_sub_of_le (BitVec.le_def.mpr (by omega))
  rw [hmemory]
  apply writeBytes_of_le
  rw [hsub, List.length_take, bytesOfWords_length, physicalAddresses_length]
  omega

theorem addressTransform_unmapped {mode : PagingMode} (M : PgtableMacros mode) (va : Word) :
    (addressTransform M unmapped va).1 = 0 := by
  rw [addressTransform_eq_walk]
  cases mode with
  | fourLevel => rfl
  | fiveLevel => rfl

/-- A stack with just enough room. -/
def StackFrame.tight (n : BitVec 32) : StackFrame Uaccess.plain :=
  { StackFrame.x86 with room := 16 * n.toNat }

/-- In a memory full of ones, the answer for an address that is not mapped changes every byte
it is written to. -/
theorem not_respectsLength_of_lt {n m : BitVec 32} (hn : 0 ≤ n.toInt)
    (h : max m.toInt 0 < n.toInt) : ¬ RespectsLength n m := by
  intro hrespects
  have hnat := toNat_of_nonneg hn
  have hlt : n.toNat < 2 ^ 32 := n.isLt
  let k := (max m.toInt 0).toNat
  have hk : k < n.toNat := by omega
  let ones : Word → Byte := fun _ ↦ 0xff
  have hfits : (StackFrame.tight n).fits n = true := StackFrame.fits_iff.mpr ⟨hn, le_rfl⟩
  obtain ⟨ret, hcall, _, hresults, _⟩ := myGetPhysicalAddresses_complete .plain
    (.x86 .fourLevel) (.tight n) (ones, unmapped) 0x1000 n 0x1000 m hfits rfl rfl
  have hzero : readWord ret.state.1 (0x1000 + BitVec.ofNat 64 (8 * k)) = 0 :=
    (hresults k hk).trans (addressTransform_unmapped _ _)
  have hones : readWord ret.state.1 (0x1000 + BitVec.ofNat 64 (8 * k)) =
      wordOfBytes fun _ ↦ 0xff := by
    apply wordOfBytes_congr
    intro j hj
    refine hrespects _ .plain .fourLevel (.x86 .fourLevel) (.tight n) (ones, unmapped)
      0x1000 0x1000 ret hcall _ ?_
    rw [BitVec.add_assoc, ← BitVec.ofNat_add, BitVec.toNat_add, BitVec.toNat_ofNat]
    change 0x1000 + 8 * k ≤ (0x1000 + (8 * k + j) % 2 ^ 64) % 2 ^ 64
    omega
  rw [hones] at hzero
  exact absurd hzero (by decide)

/-- The result buffer is respected exactly when no more addresses are requested than it
holds. -/
theorem respectsLength_iff (n m : BitVec 32) (hn : 0 ≤ n.toInt) :
    RespectsLength n m ↔ n.toInt ≤ max m.toInt 0 := by
  constructor
  · intro hrespects
    by_contra hlt
    exact not_respectsLength_of_lt hn (by omega) hrespects
  · exact respectsLength_of_le

theorem respectsLength_iff_three_two :
    RespectsLength 3 2 ↔ (3 : BitVec 32).toInt ≤ max (2 : BitVec 32).toInt 0 :=
  respectsLength_iff 3 2 (by decide)

/-- Three answers in a buffer for two: the word behind the buffer becomes zero. -/
theorem three_answers_overrun :
    ∃ ret, myGetPhysicalAddresses .plain (.x86 .fourLevel) .x86 (fun _ ↦ 0xff, unmapped)
        0x1000 3 0x2000 2 = some ret ∧
      readWord (fun _ ↦ 0xff) (0x2010 : Word) = 0xffffffffffffffff ∧
      readWord ret.state.1 0x2010 = 0 := by
  obtain ⟨ret, hcall, _, hresults, _⟩ := myGetPhysicalAddresses_complete .plain
    (.x86 .fourLevel) .x86 (fun _ ↦ 0xff, unmapped) 0x1000 3 0x2000 2 (by decide) rfl rfl
  exact ⟨ret, hcall, by decide, (hresults 2 (by decide)).trans (addressTransform_unmapped _ _)⟩

/-! ## The length of the list -/

/-- `THREAD_SIZE`. -/
def threadSize : ℤ := 16384

/-- `sizeof(virtual_address)`, and of `physical_address`. -/
def arraySize (n : BitVec 32) : ℤ := 8 * n.toInt

/-- Either the call fails before anything happens, or the length is not negative, the byte
count of the copies is the size of an array, and the arrays fit the stack. -/
def LengthChecked {σ : Type} (U : Uaccess σ) {mode : PagingMode} (M : PgtableMacros mode)
    (F : StackFrame U) (s : σ) (initial : Word) (n : BitVec 32) (result : Word)
    (m : BitVec 32) : Prop :=
  (∃ ret, myGetPhysicalAddresses U M F s initial n result m = some ret ∧ ret.value < 0 ∧
      ret.state = s ∧ ret.log = []) ∨
    (0 ≤ n.toInt ∧ ((byteCount n).toNat : ℤ) = arraySize n ∧
      arraySize n + arraySize n ≤ threadSize)

section

variable {σ : Type} (U : Uaccess σ) {mode : PagingMode} (M : PgtableMacros mode)

/-- No length makes the call fail. -/
theorem not_refused (F : StackFrame U) (s : σ) (initial : Word) (n : BitVec 32) (result : Word)
    (m : BitVec 32) {ret : SyscallReturn σ}
    (h : myGetPhysicalAddresses U M F s initial n result m = some ret) : ret.value = 0 := by
  obtain ⟨ret', hcall, hzero, _⟩ :=
    myGetPhysicalAddresses_state U M F s initial n result m (fits_of_returns h)
  obtain rfl : ret' = ret := Option.some.inj (hcall.symm.trans h)
  exact hzero

/-- The length arithmetic is right for the lengths from 0 to 1024 and no others. -/
theorem lengthChecked_iff (F : StackFrame U) (s : σ) (initial : Word) (n : BitVec 32)
    (result : Word) (m : BitVec 32) :
    LengthChecked U M F s initial n result m ↔ 0 ≤ n.toInt ∧ n.toInt ≤ 1024 := by
  constructor
  · rintro (⟨ret, hcall, hnegative, _⟩ | ⟨hn, _, hroom⟩)
    · have hzero := not_refused U M F s initial n result m hcall
      omega
    · simp only [arraySize, threadSize] at hroom
      omega
  · rintro ⟨hn, hle⟩
    refine .inr ⟨hn, ?_, ?_⟩
    · rw [byteCount_toNat hn, arraySize, ← toNat_of_nonneg hn]
      push_cast
      rfl
    · simp only [arraySize, threadSize]
      omega

end

/-- A length of -1 is not refused; its byte count is almost the whole address space, and the
arrays for 2048 addresses are twice as large as the stack. -/
theorem negative_length_not_refused :
    (byteCount (-1)).toNat = 18446744073709551608 ∧
      ¬ LengthChecked .plain (.x86 .fourLevel) .x86 (zeroMemory, unmapped) 0x1000 (-1)
        0x2000 (-1) ∧
      arraySize 2048 + arraySize 2048 = 2 * threadSize ∧
      ¬ LengthChecked .plain (.x86 .fourLevel) .x86 (zeroMemory, unmapped) 0x1000 2048
        0x2000 2048 := by
  refine ⟨by decide, ?_, by decide, ?_⟩
  · rintro (⟨ret, hcall, hnegative, _⟩ | ⟨hn, _, _⟩)
    · have hzero := not_refused _ _ _ _ _ _ _ _ hcall
      omega
    · exact absurd hn (by decide)
  · rintro (⟨ret, hcall, hnegative, _⟩ | ⟨_, _, hroom⟩)
    · have hzero := not_refused _ _ _ _ _ _ _ _ hcall
      omega
    · exact absurd hroom (by decide)

end NcuKernel.Paging
