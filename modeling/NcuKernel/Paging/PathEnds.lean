import NcuKernel.Paging.AddressTransform

/-!
# Where the walk of an address ends

An entry on the path may be zero, a PTE may be present, a PUD or PMD entry may map a
large page, and an entry may be neither zero nor present. The processor and
`ADDRESS_TRANSFORM` both compute their answer from the entry that ends the path. They
agree on the first two kinds. On the other two the function, which only tests for zero,
takes what the entry points to for a table and goes on.
-/

namespace NcuKernel.Paging

open Radix

inductive LargePage where
  | pud
  | pmd
  deriving DecidableEq, Repr

/-- The entry that ends a path on which no entry is zero. -/
inductive PathEnd where
  | small (e : Word)
  | large (size : LargePage) (e : Word)
  | absent (level : TableLevel) (e : Word)
  deriving DecidableEq, Repr

abbrev EndLevel := Level Word Frame (BitVec 9) Word PathEnd

def endTable (shift : ℕ) (level : TableLevel) : EndLevel where
  index := indexAt shift
  decode _ e :=
    if e = 0 then .empty
    else if present e then .table (frame e)
    else .page (.absent level e)

def endLeaf (shift : ℕ) (level : TableLevel) (size : LargePage) : EndLevel where
  index := indexAt shift
  decode _ e :=
    if e = 0 then .empty
    else if present e then
      if pageSizeBit e then .page (.large size e) else .table (frame e)
    else .page (.absent level e)

def endLast : EndLevel where
  index := indexAt 12
  decode _ e :=
    if e = 0 then .empty
    else if present e then .page (.small e)
    else .page (.absent .pte e)

def endLevels : PagingMode → List EndLevel
  | .fourLevel => [endTable 39 .p4d, endLeaf 30 .pud .pud, endLeaf 21 .pmd .pmd, endLast]
  | .fiveLevel => [endTable 48 .pgd, endTable 39 .p4d, endLeaf 30 .pud .pud, endLeaf 21 .pmd .pmd,
      endLast]

/-- How the walk of an address ends; nothing if it meets an entry that is zero. -/
def pathEnd (mode : PagingMode) (mm : Mm) (va : Word) : Option PathEnd :=
  walk mm.mem va (endLevels mode) mm.pgd

/-! ## The bits of the last entry -/

/-- What the kind of an end says about its entry. -/
def PathEnd.Holds : PathEnd → Prop
  | .small e => present e = true
  | .large _ e => present e = true ∧ pageSizeBit e = true
  | .absent _ e => e ≠ 0 ∧ present e = false

theorem endTable_holds {shift : ℕ} {level : TableLevel} {va e : Word} {p : PathEnd}
    (h : (endTable shift level).decode va e = .page p) : p.Holds := by
  dsimp only [endTable] at h
  split_ifs at h with hzero hpresent
  injection h with h
  subst h
  exact ⟨hzero, by simpa using hpresent⟩

theorem endLeaf_holds {shift : ℕ} {level : TableLevel} {size : LargePage} {va e : Word}
    {p : PathEnd} (h : (endLeaf shift level size).decode va e = .page p) : p.Holds := by
  dsimp only [endLeaf] at h
  split_ifs at h with hzero hpresent hlarge
  · injection h with h
    subst h
    exact ⟨hpresent, hlarge⟩
  · injection h with h
    subst h
    exact ⟨hzero, by simpa using hpresent⟩

theorem endLast_holds {va e : Word} {p : PathEnd} (h : endLast.decode va e = .page p) :
    p.Holds := by
  dsimp only [endLast] at h
  split_ifs at h with hzero hpresent
  · injection h with h
    subst h
    exact hpresent
  · injection h with h
    subst h
    exact ⟨hzero, by simpa using hpresent⟩

theorem pathEnd_holds {mode : PagingMode} {mm : Mm} {va : Word} {p : PathEnd}
    (h : pathEnd mode mm va = some p) : p.Holds := by
  obtain ⟨l, hl, e, he⟩ := exists_page_of_walk h
  cases mode with
  | fourLevel =>
      simp only [endLevels, List.mem_cons, List.not_mem_nil, or_false] at hl
      rcases hl with rfl | rfl | rfl | rfl
      · exact endTable_holds he
      · exact endLeaf_holds he
      · exact endLeaf_holds he
      · exact endLast_holds he
  | fiveLevel =>
      simp only [endLevels, List.mem_cons, List.not_mem_nil, or_false] at hl
      rcases hl with rfl | rfl | rfl | rfl | rfl
      · exact endTable_holds he
      · exact endTable_holds he
      · exact endLeaf_holds he
      · exact endLeaf_holds he
      · exact endLast_holds he

def pageNumber (va : Word) : BitVec 52 := va.extractLsb' 12 52

theorem indexAt_of_pageNumber {va va' : Word} (h : pageNumber va = pageNumber va') {shift : ℕ}
    (hshift : 12 ≤ shift) : indexAt shift va = indexAt shift va' := by
  apply BitVec.eq_of_getLsbD_eq
  intro i hi
  by_cases hlt : shift + i < 64
  · have hbit := congrArg (BitVec.getLsbD · (shift + i - 12)) h
    have hsum : 12 + (shift + i - 12) = shift + i := by omega
    have hpos : shift + i - 12 < 52 := by omega
    simpa [pageNumber, indexAt, hsum, hpos, hi] using hbit
  · simp [indexAt, BitVec.getLsbD_of_ge _ _ (Nat.le_of_not_lt hlt)]

/-- The walk of an address depends on its page only. -/
theorem pathEnd_of_pageNumber (mode : PagingMode) (mm : Mm) {va va' : Word}
    (h : pageNumber va = pageNumber va') : pathEnd mode mm va = pathEnd mode mm va' := by
  apply walk_congr
  intro l hl
  cases mode with
  | fourLevel =>
      simp only [endLevels, List.mem_cons, List.not_mem_nil, or_false] at hl
      rcases hl with rfl | rfl | rfl | rfl <;>
        exact ⟨indexAt_of_pageNumber h (by decide), rfl⟩
  | fiveLevel =>
      simp only [endLevels, List.mem_cons, List.not_mem_nil, or_false] at hl
      rcases hl with rfl | rfl | rfl | rfl | rfl <;>
        exact ⟨indexAt_of_pageNumber h (by decide), rfl⟩

/-! ## The processor -/

def mmuAnswer (va : Word) : PathEnd → Option Word
  | .small e => some (physical 12 (frame e) va)
  | .large .pud e => some (physical 30 (e.extractLsb' 30 22) va)
  | .large .pmd e => some (physical 21 (e.extractLsb' 21 31) va)
  | .absent _ _ => none

variable {mem : Frame → BitVec 9 → Word} {va : Word} {f : PathEnd → Option Word}

theorem resolves_tableLevel {shift : ℕ} {level : TableLevel} {ls : List EndLevel}
    {ms : List PageLevel} (habsent : ∀ e, f (.absent level e) = none)
    (h : Resolves mem va f ls ms) :
    Resolves mem va f (endTable shift level :: ls) (tableLevel shift :: ms) := by
  refine .cons rfl (fun e he ↦ ?_) (fun e t he ↦ ?_) (fun e p he ↦ ?_) h
  · dsimp only [endTable] at he
    split_ifs at he with hzero
    simp [tableLevel, hzero, present]
  · dsimp only [endTable] at he
    split_ifs at he with hzero hpresent
    injection he with ht
    simp [tableLevel, hpresent, ht]
  · dsimp only [endTable] at he
    split_ifs at he with hzero hpresent
    injection he with hp
    rw [← hp, habsent]
    simp [tableLevel, hpresent, resume]

theorem resolves_leafLevel {shift : ℕ} {level : TableLevel} {size : LargePage}
    {ls : List EndLevel} {ms : List PageLevel} (habsent : ∀ e, f (.absent level e) = none)
    (hlarge : ∀ e, f (.large size e) =
      some (physical shift (e.extractLsb' shift (52 - shift)) va))
    (h : Resolves mem va f ls ms) :
    Resolves mem va f (endLeaf shift level size :: ls) (leafLevel shift :: ms) := by
  refine .cons rfl (fun e he ↦ ?_) (fun e t he ↦ ?_) (fun e p he ↦ ?_) h
  · dsimp only [endLeaf] at he
    split_ifs at he with hzero
    simp [leafLevel, hzero, present]
  · dsimp only [endLeaf] at he
    split_ifs at he with hzero hpresent hsize
    injection he with ht
    simp [leafLevel, hpresent, hsize, ht]
  · dsimp only [endLeaf] at he
    split_ifs at he with hzero hpresent hsize
    · injection he with hp
      rw [← hp, hlarge]
      simp [leafLevel, hpresent, hsize, resume]
    · injection he with hp
      rw [← hp, habsent]
      simp [leafLevel, hpresent, resume]

theorem resolves_lastLevel :
    Resolves mem va (mmuAnswer va) [endLast] [lastLevel] := by
  refine .cons rfl (fun e he ↦ ?_) (fun e t he ↦ ?_) (fun e p he ↦ ?_) .nil
  · dsimp only [endLast] at he
    split_ifs at he with hzero
    simp [lastLevel, hzero, present]
  · dsimp only [endLast] at he
    split_ifs at he
  · dsimp only [endLast] at he
    split_ifs at he with hzero hpresent
    · injection he with hp
      rw [← hp]
      simp [lastLevel, hpresent, resume, mmuAnswer]
    · injection he with hp
      rw [← hp]
      simp [lastLevel, hpresent, resume, mmuAnswer]

theorem resolves_mmuLevels (mode : PagingMode) :
    Resolves mem va (mmuAnswer va) (endLevels mode) (mmuLevels mode) := by
  have hlower : Resolves mem va (mmuAnswer va)
      [endLeaf 30 .pud .pud, endLeaf 21 .pmd .pmd, endLast]
      [leafLevel 30, leafLevel 21, lastLevel] :=
    resolves_leafLevel (fun _ ↦ rfl) (fun _ ↦ rfl)
      (resolves_leafLevel (fun _ ↦ rfl) (fun _ ↦ rfl) resolves_lastLevel)
  cases mode with
  | fourLevel => exact resolves_tableLevel (fun _ ↦ rfl) hlower
  | fiveLevel =>
      exact resolves_tableLevel (fun _ ↦ rfl) (resolves_tableLevel (fun _ ↦ rfl) hlower)

theorem mmuWalk_eq_pathEnd {mode : PagingMode} (mm : Mm) {va : Word}
    (hva : canonicalUser mode va = true) :
    mmuWalk mode mm va = (pathEnd mode mm va).bind (mmuAnswer va) := by
  rw [mmuWalk, if_pos (canonical_of_user hva), walk_of_resolves (resolves_mmuLevels mode)]
  rfl

/-! ## The function -/

variable {mode : PagingMode} (M : PgtableMacros mode)

/-- The levels that `ADDRESS_TRANSFORM` still descends after the given one. -/
def levelsBelow : TableLevel → List PageLevel
  | .pgd => [zeroLevel 39 frame, zeroLevel 30 M.pudTable, zeroLevel 21 M.pmdTable,
      zeroLastLevel (ptePhysical M)]
  | .p4d => [zeroLevel 30 M.pudTable, zeroLevel 21 M.pmdTable, zeroLastLevel (ptePhysical M)]
  | .pud => [zeroLevel 21 M.pmdTable, zeroLastLevel (ptePhysical M)]
  | .pmd => [zeroLastLevel (ptePhysical M)]
  | .pte => []

/-- What the function takes for the table that an entry leads to. -/
def tableBelow : TableLevel → Word → Frame
  | .pud, e => M.pudTable e
  | .pmd, e => M.pmdTable e
  | _, e => frame e

def LargePage.level : LargePage → TableLevel
  | .pud => .pud
  | .pmd => .pmd

def transformAnswer (mem : Frame → BitVec 9 → Word) (va : Word) : PathEnd → Option Word
  | .small e => some (physical 12 (frame e) va)
  | .large size e => walk mem va (levelsBelow M size.level) (tableBelow M size.level e)
  | .absent .pte e => some (ptePhysical M va e)
  | .absent level e => walk mem va (levelsBelow M level) (tableBelow M level e)

theorem resolves_zeroLevel {shift : ℕ} {level : TableLevel} {table : Word → Frame}
    {ls : List EndLevel} {ms : List PageLevel}
    (htable : ∀ e, present e = true → table e = frame e)
    (habsent : ∀ e, f (.absent level e) = walk mem va ms (table e))
    (h : Resolves mem va f ls ms) :
    Resolves mem va f (endTable shift level :: ls) (zeroLevel shift table :: ms) := by
  refine .cons rfl (fun e he ↦ ?_) (fun e t he ↦ ?_) (fun e p he ↦ ?_) h
  · dsimp only [endTable] at he
    split_ifs at he with hzero
    exact if_pos hzero
  · dsimp only [endTable] at he
    split_ifs at he with hzero hpresent
    injection he with ht
    rw [zeroLevel_decode_of_ne hzero, htable e hpresent, ht]
  · dsimp only [endTable] at he
    split_ifs at he with hzero hpresent
    injection he with hp
    rw [← hp, habsent, zeroLevel_decode_of_ne hzero]
    rfl

theorem resolves_zeroLeaf {shift : ℕ} {level : TableLevel} {size : LargePage}
    {table : Word → Frame} {ls : List EndLevel} {ms : List PageLevel}
    (htable : ∀ e, pageSizeBit e = false → table e = frame e)
    (habsent : ∀ e, f (.absent level e) = walk mem va ms (table e))
    (hlarge : ∀ e, f (.large size e) = walk mem va ms (table e))
    (h : Resolves mem va f ls ms) :
    Resolves mem va f (endLeaf shift level size :: ls) (zeroLevel shift table :: ms) := by
  refine .cons rfl (fun e he ↦ ?_) (fun e t he ↦ ?_) (fun e p he ↦ ?_) h
  · dsimp only [endLeaf] at he
    split_ifs at he with hzero
    exact if_pos hzero
  · dsimp only [endLeaf] at he
    split_ifs at he with hzero hpresent hsize
    injection he with ht
    rw [zeroLevel_decode_of_ne hzero, htable e (by simpa using hsize), ht]
  · dsimp only [endLeaf] at he
    split_ifs at he with hzero hpresent hsize
    · injection he with hp
      rw [← hp, hlarge, zeroLevel_decode_of_ne hzero]
      rfl
    · injection he with hp
      rw [← hp, habsent, zeroLevel_decode_of_ne hzero]
      rfl

theorem resolves_zeroLast :
    Resolves mem va (transformAnswer M mem va) [endLast] [zeroLastLevel (ptePhysical M)] := by
  refine .cons rfl (fun e he ↦ ?_) (fun e t he ↦ ?_) (fun e p he ↦ ?_) .nil
  · dsimp only [endLast] at he
    split_ifs at he with hzero
    exact if_pos hzero
  · dsimp only [endLast] at he
    split_ifs at he
  · dsimp only [endLast] at he
    split_ifs at he with hzero hpresent
    · injection he with hp
      rw [← hp, zeroLastLevel_decode_of_ne hzero, ptePhysical_of_present M hpresent]
      rfl
    · injection he with hp
      rw [← hp, zeroLastLevel_decode_of_ne hzero]
      rfl

theorem resolves_transformLevels :
    Resolves mem va (transformAnswer M mem va) (endLevels mode) (transformLevels M) := by
  have hlower : Resolves mem va (transformAnswer M mem va)
      [endLeaf 30 .pud .pud, endLeaf 21 .pmd .pmd, endLast] (levelsBelow M .p4d) :=
    resolves_zeroLeaf M.pudTable_eq (fun _ ↦ rfl) (fun _ ↦ rfl)
      (resolves_zeroLeaf M.pmdTable_eq (fun _ ↦ rfl) (fun _ ↦ rfl) (resolves_zeroLast M))
  cases mode with
  | fourLevel => exact resolves_zeroLevel (fun _ _ ↦ rfl) (fun _ ↦ rfl) hlower
  | fiveLevel =>
      exact resolves_zeroLevel (fun _ _ ↦ rfl) (fun _ ↦ rfl)
        (resolves_zeroLevel (fun _ _ ↦ rfl) (fun _ ↦ rfl) hlower)

theorem addressTransform_eq_pathEnd (mm : Mm) (va : Word) :
    (addressTransform M mm va).1 =
      ((pathEnd mode mm va).bind (transformAnswer M mm.mem va)).getD 0 := by
  rw [addressTransform_eq_walk, walk_of_resolves (resolves_transformLevels M)]
  rfl

/-- The function answers like the processor where a zero entry or a present PTE ends the
path. -/
theorem addressTransform_of_small {mm : Mm} {va : Word} (hva : canonicalUser mode va = true)
    (hend : ∀ p, pathEnd mode mm va = some p → ∃ e, p = .small e) :
    (addressTransform M mm va).1 = (mmuWalk mode mm va).getD 0 := by
  rw [addressTransform_eq_pathEnd, mmuWalk_eq_pathEnd mm hva]
  cases h : pathEnd mode mm va with
  | none => rfl
  | some p =>
      obtain ⟨e, rfl⟩ := hend p h
      rfl

end NcuKernel.Paging
