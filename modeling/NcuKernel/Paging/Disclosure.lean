import NcuKernel.Paging.PhysicalAddresses

/-!
# What a caller can learn

`ADDRESS_TRANSFORM` does not test whether an address belongs to the user half or is
canonical. Its result depends on the translated bits of the address only, and the
half of the top-level table that is walked is the one these bits select.
-/

namespace NcuKernel.Paging

open Radix Bytes

variable {mode : PagingMode} (M : PgtableMacros mode)

/-- The top-level index of the address selects the user half. -/
def userTop (mode : PagingMode) (va : Word) : Prop := (indexAt mode.pgdShift va).toNat < 256

instance (mode : PagingMode) (va : Word) : Decidable (userTop mode va) :=
  inferInstanceAs (Decidable ((indexAt mode.pgdShift va).toNat < 256))

def childOf (table : Word → Frame) (e : Word) : Option Frame :=
  if e = 0 then none else some (table e)

/-- The levels below the top-level table, as the function descends them. -/
def lowerChildren : List (Word → Option Frame) :=
  match mode with
  | .fourLevel => [childOf M.pudTable, childOf M.pmdTable, childOf frame]
  | .fiveLevel => [childOf frame, childOf M.pudTable, childOf M.pmdTable, childOf frame]

/-- The hierarchies agree on the user half of the top-level table and on everything
reachable from it. -/
def SameUserHalf (mm mm' : Mm) : Prop :=
  ∀ i : BitVec 9, i.toNat < 256 → mm.mem mm.pgd i = mm'.mem mm'.pgd i ∧
    ∀ t, childOf frame (mm.mem mm.pgd i) = some t → SameBelow mm.mem mm'.mem (lowerChildren M) t

theorem zeroLevel_child {shift : ℕ} {table : Word → Frame} {va e : Word} {t : Frame}
    (h : (zeroLevel shift table).decode va e = .table t) : childOf table e = some t := by
  by_cases he : e = 0
  · simp [zeroLevel, he] at h
  · have hentry : (zeroLevel shift table).decode va e = .table (table e) := if_neg he
    rw [hentry] at h
    have ht : table e = t := by injection h
    rw [childOf, if_neg he, ht]

theorem zeroLastLevel_child {page : Word → Word → Word} {va e : Word} {t : Frame}
    (h : (zeroLastLevel page).decode va e = .table t) : childOf frame e = some t := by
  by_cases he : e = 0
  · simp [zeroLastLevel, he] at h
  · have hentry : (zeroLastLevel page).decode va e = .page (page va e) := if_neg he
    rw [hentry] at h
    injection h

def lowerLevels : List PageLevel :=
  match mode with
  | .fourLevel => [zeroLevel 30 M.pudTable, zeroLevel 21 M.pmdTable,
      zeroLastLevel (ptePhysical M)]
  | .fiveLevel => [zeroLevel 39 frame, zeroLevel 30 M.pudTable, zeroLevel 21 M.pmdTable,
      zeroLastLevel (ptePhysical M)]

theorem transformLevels_eq :
    transformLevels M = zeroLevel mode.pgdShift frame :: lowerLevels M := by
  cases mode <;> rfl

theorem lowerLevels_children (va : Word) :
    List.Forall₂ (fun l child ↦ ∀ e t, l.decode va e = .table t → child e = some t)
      (lowerLevels M) (lowerChildren M) := by
  have hlower : List.Forall₂
      (fun (l : PageLevel) (child : Word → Option Frame) ↦
        ∀ e t, l.decode va e = .table t → child e = some t)
      [zeroLevel 30 M.pudTable, zeroLevel 21 M.pmdTable, zeroLastLevel (ptePhysical M)]
      [childOf M.pudTable, childOf M.pmdTable, childOf frame] :=
    .cons (fun _ _ ↦ zeroLevel_child) (.cons (fun _ _ ↦ zeroLevel_child)
      (.cons (fun _ _ ↦ zeroLastLevel_child) .nil))
  cases mode with
  | fourLevel => exact hlower
  | fiveLevel => exact .cons (fun _ _ ↦ zeroLevel_child) hlower

theorem addressTransform_eq_of_sameUserHalf {mm mm' : Mm} (hsame : SameUserHalf M mm mm')
    {va : Word} (hva : userTop mode va) :
    (addressTransform M mm va).1 = (addressTransform M mm' va).1 := by
  obtain ⟨hentry, hbelow⟩ := hsame (indexAt mode.pgdShift va) hva
  rw [addressTransform_eq_walk, addressTransform_eq_walk, transformLevels_eq, walk_zeroLevel,
    walk_zeroLevel, ← hentry]
  by_cases hzero : mm.mem mm.pgd (indexAt mode.pgdShift va) = 0
  · rw [if_pos hzero, if_pos hzero]
  · rw [if_neg hzero, if_neg hzero]
    have hchild : childOf frame (mm.mem mm.pgd (indexAt mode.pgdShift va)) =
        some (frame (mm.mem mm.pgd (indexAt mode.pgdShift va))) := if_neg hzero
    exact congrArg (Option.getD · 0)
      (walk_eq_of_sameBelow (lowerLevels_children M va) (hbelow _ hchild))

/-! ## The bits that are not translated -/

theorem indexAt_congr {va va' : Word} {n shift : ℕ} (h : va.setWidth n = va'.setWidth n)
    (hshift : shift + 9 ≤ n) : indexAt shift va = indexAt shift va' := by
  apply BitVec.eq_of_getLsbD_eq
  intro i hi
  have hbit := congrArg (BitVec.getLsbD · (shift + i)) h
  have hlt : shift + i < n := by omega
  simpa [indexAt, hi, hlt] using hbit

theorem pageOffset_congr {va va' : Word} {n : ℕ} (h : va.setWidth n = va'.setWidth n)
    (hn : 12 ≤ n) : va &&& ~~~pageMask = va' &&& ~~~pageMask := by
  apply BitVec.eq_of_getLsbD_eq
  intro i hi
  by_cases hlow : i < 12
  · have hbit := congrArg (BitVec.getLsbD · i) h
    have hlt : i < n := by omega
    simp only [BitVec.getLsbD_setWidth, hlt, decide_true, Bool.true_and] at hbit
    rw [BitVec.getLsbD_and, BitVec.getLsbD_and, hbit]
  · have hmask : (~~~pageMask).getLsbD i = false := by
      have hsmall : (~~~pageMask : Word).toNat < 2 ^ i :=
        lt_of_lt_of_le (show (~~~pageMask : Word).toNat < 2 ^ 12 by decide)
          (Nat.pow_le_pow_right (by decide) (by omega))
      exact Nat.testBit_lt_two_pow hsmall
    rw [BitVec.getLsbD_and, BitVec.getLsbD_and, hmask, Bool.and_false, Bool.and_false]

/-- Addresses with the same translated bits have the same result, canonical or not. -/
theorem addressTransform_congr (mm : Mm) {va va' : Word}
    (h : va.setWidth mode.bits = va'.setWidth mode.bits) :
    (addressTransform M mm va).1 = (addressTransform M mm va').1 := by
  have hindex : ∀ shift, shift + 9 ≤ mode.bits → indexAt shift va = indexAt shift va' :=
    fun _ ↦ indexAt_congr h
  have hoffset : va &&& ~~~pageMask = va' &&& ~~~pageMask :=
    pageOffset_congr h (by cases mode <;> decide)
  rw [addressTransform_eq_walk, addressTransform_eq_walk]
  cases mode with
  | fourLevel =>
      simp only [transformLevels, zeroLevels, walk_zeroLevel, walk_zeroLastLevel, ptePhysical,
        hoffset, hindex 39 (by decide), hindex 30 (by decide), hindex 21 (by decide),
        hindex 12 (by decide)]
  | fiveLevel =>
      simp only [transformLevels, zeroLevels, walk_zeroLevel, walk_zeroLastLevel, ptePhysical,
        hoffset, hindex 48 (by decide), hindex 39 (by decide), hindex 30 (by decide),
        hindex 21 (by decide), hindex 12 (by decide)]

/-! ## The system call -/

/-- Two calls that read the same list and whose hierarchies agree on the user half leave
the same user memory, for every list of addresses that select the user half; and the
result for any address is that of every address with the same translated bits. -/
theorem myGetPhysicalAddresses_discloses {σ : Type} (U : Uaccess σ) (F : StackFrame U)
    (s s' : σ) (initial : Word) (n : BitVec 32) (result : Word) (m : BitVec 32)
    (hfits : F.fits n = true) (hmemory : U.memory s = U.memory s')
    (hunread : U.unread s initial (8 * n.toNat) = U.unread s' initial (8 * n.toNat))
    (hunwritten : U.unwritten (transformState U s initial n) result (8 * n.toNat) =
      U.unwritten (transformState U s' initial n) result (8 * n.toNat))
    (hsame : SameUserHalf M (U.tables (transformState U s initial n))
      (U.tables (transformState U s' initial n)))
    (huser : ∀ va ∈ virtualAddresses U s initial n, userTop mode va) :
    (∃ ret ret', myGetPhysicalAddresses U M F s initial n result m = some ret ∧
        myGetPhysicalAddresses U M F s' initial n result m = some ret' ∧
        U.memory ret.state = U.memory ret'.state) ∧
      ∀ mm va va', va.setWidth mode.bits = va'.setWidth mode.bits →
        (addressTransform M mm va).1 = (addressTransform M mm va').1 := by
  refine ⟨?_, fun mm va va' ↦ addressTransform_congr M mm⟩
  obtain ⟨ret, hcall, _, hret⟩ := myGetPhysicalAddresses_eq U M F s initial n result m hfits
  obtain ⟨ret', hcall', _, hret'⟩ := myGetPhysicalAddresses_eq U M F s' initial n result m hfits
  have hvirtual : virtualAddresses U s' initial n = virtualAddresses U s initial n := by
    simp only [virtualAddresses, copyFromUser, hmemory, hunread]
  have hphysical : physicalAddresses U M s initial n = physicalAddresses U M s' initial n := by
    unfold physicalAddresses
    rw [hvirtual]
    apply List.map_congr_left
    intro va hva
    exact addressTransform_eq_of_sameUserHalf M hsame (huser va hva)
  refine ⟨ret, ret', hcall, hcall', ?_⟩
  rw [hret, hret', hmemory, hphysical, hunwritten]

/-- The first entry of the user half leads to frame 3 and that of the kernel half, if it is
set, to frame 2; the entries of these frames all lead back to them. -/
def userMapped (kernelEntry : Word) : Mm where
  mem t i :=
    if t = 1 then if i = 0 then 0x3067 else if i = 256 then kernelEntry else 0
    else if t = 2 then 0x2067
    else 0x3067
  pgd := 1

theorem sameBelow_userMapped (k k' : Word) {children : List (Word → Option Frame)}
    (hchild : ∀ child ∈ children, ∀ t, child 0x3067 = some t → t = 3) :
    SameBelow (userMapped k).mem (userMapped k').mem children 3 := by
  induction children with
  | nil => trivial
  | cons child children ih =>
      refine fun i ↦ ⟨rfl, fun t ht ↦ ?_⟩
      rw [hchild child (by simp) t ht]
      exact ih fun c hc ↦ hchild c (by simp [hc])

theorem userMapped_sameUserHalf (k k' : Word) :
    SameUserHalf (.x86 .fourLevel) (userMapped k) (userMapped k') := by
  intro i hi
  have hne : i ≠ 256 := by
    rintro rfl
    simp at hi
  have hentry : ∀ k, (userMapped k).mem (userMapped k).pgd i = if i = 0 then 0x3067 else 0 := by
    intro k
    change (if (1 : Frame) = 1 then if i = 0 then 0x3067 else if i = 256 then k else 0
      else if (1 : Frame) = 2 then 0x2067 else 0x3067) = (if i = 0 then 0x3067 else 0 : Word)
    rw [if_pos rfl, if_neg hne]
  refine ⟨(hentry k).trans (hentry k').symm, fun t ht ↦ ?_⟩
  rw [hentry k] at ht
  split_ifs at ht
  · obtain rfl : 3 = t := Option.some.inj ht
    refine sameBelow_userMapped k k' fun child hchild t ht ↦ ?_
    simp only [lowerChildren, List.mem_cons, List.not_mem_nil, or_false] at hchild
    rcases hchild with rfl | rfl | rfl <;> exact (Option.some.inj ht).symm
  · simp [childOf] at ht

theorem userTop_threeAddresses (mm : Mm) :
    ∀ va ∈ virtualAddresses .plain (threeAddresses, mm) 0x1000 3, userTop .fourLevel va := by
  intro va hva
  have hread : Uaccess.plain.unread (threeAddresses, mm) 0x1000 (8 * (3 : BitVec 32).toNat) = 0 :=
    rfl
  rw [virtualAddresses_of_read .plain hread] at hva
  obtain ⟨i, hi, rfl⟩ := List.mem_map.mp hva
  have hi' : i < 3 := List.mem_range.mp hi
  change userTop .fourLevel (readWord threeAddresses (0x1000 + BitVec.ofNat 64 (8 * i)))
  rw [readWord_threeAddresses hi']
  obtain rfl | rfl | rfl : i = 0 ∨ i = 1 ∨ i = 2 := by omega
  all_goals decide

/-- Three mapped user addresses, under tables that differ in the kernel half. -/
theorem myGetPhysicalAddresses_discloses_userMapped :
    (∃ ret ret', myGetPhysicalAddresses .plain (.x86 .fourLevel) .x86
          (threeAddresses, userMapped 0) 0x1000 3 0x1008 3 = some ret ∧
        myGetPhysicalAddresses .plain (.x86 .fourLevel) .x86
          (threeAddresses, userMapped 0x2067) 0x1000 3 0x1008 3 = some ret' ∧
        ret.state.1 = ret'.state.1) ∧
      ∀ mm va va', va.setWidth PagingMode.fourLevel.bits = va'.setWidth PagingMode.fourLevel.bits →
        (addressTransform (.x86 .fourLevel) mm va).1 =
          (addressTransform (.x86 .fourLevel) mm va').1 :=
  myGetPhysicalAddresses_discloses (.x86 .fourLevel) .plain .x86 (threeAddresses, userMapped 0)
    (threeAddresses, userMapped 0x2067) 0x1000 3 0x1008 3 (by decide) rfl rfl rfl
    (userMapped_sameUserHalf 0 0x2067) (userTop_threeAddresses (userMapped 0))

/-- Tables with an empty user half; the first entry of the kernel half leads to frame 2,
whose entries all lead back to it. -/
def kernelMapped : Mm :=
  ⟨fun t i ↦ if t = 1 then if i = 256 then 0x2067 else 0 else 0x2067, 1⟩

theorem unmapped_sameUserHalf_kernelMapped :
    SameUserHalf (.x86 .fourLevel) unmapped kernelMapped := by
  intro i hi
  have hne : i ≠ 256 := by
    rintro rfl
    simp at hi
  have hentry : kernelMapped.mem kernelMapped.pgd i = 0 := by
    change (if (1 : Frame) = 1 then if i = 256 then 0x2067 else 0 else 0x2067) = (0 : Word)
    rw [if_pos rfl, if_neg hne]
  refine ⟨hentry.symm, fun t ht ↦ ?_⟩
  simp [childOf, unmapped] at ht

/-- The user halves of `unmapped` and `kernelMapped` are both empty, yet a kernel address,
and a non-canonical address with the same translated bits, are answered differently. -/
theorem kernelMapped_discloses :
    SameUserHalf (.x86 .fourLevel) unmapped kernelMapped ∧
      canonicalUser .fourLevel 0xffff800000000000 = false ∧
      canonical .fourLevel 0x0000800000000000 = false ∧
      (addressTransform (.x86 .fourLevel) unmapped 0xffff800000000000).1 = 0 ∧
      (addressTransform (.x86 .fourLevel) kernelMapped 0xffff800000000000).1 = 0x2000 ∧
      (addressTransform (.x86 .fourLevel) kernelMapped 0x0000800000000000).1 = 0x2000 :=
  ⟨unmapped_sameUserHalf_kernelMapped, by decide, by decide, by decide, by decide, by decide⟩

end NcuKernel.Paging
