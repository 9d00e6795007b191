import NcuKernel.Paging.Tables

/-!
# `ADDRESS_TRANSFORM`

The function walks the tables of the current process through the macros of
`linux/pgtable.h`. It tests every entry for zero and never for the present bit or
the page size. On tables where the two make no difference it computes what the
processor computes.
-/

namespace NcuKernel.Paging

open Radix

/-! ## The macros -/

/-- `pud_offset` and its relatives index the table whose frame the upper entry holds.
For a PUD or PMD entry with the page-size bit, and for the page of a PTE that is not
present, the headers mask or invert bits; there only that much is fixed. -/
structure PgtableMacros (mode : PagingMode) where
  Page : Type
  pgdIndex : Word → BitVec 9
  p4dIndex : Word → BitVec 9
  pudIndex : Word → BitVec 9
  pmdIndex : Word → BitVec 9
  pteIndex : Word → BitVec 9
  pgdOffset : Frame → Word → Slot
  p4dOffset : Slot → Word → Word → Slot
  pudOffset : Word → Word → Slot
  pmdOffset : Word → Word → Slot
  pteOffsetMap : Word → Word → Slot
  pgdNone : Word → Bool
  p4dNone : Word → Bool
  pudNone : Word → Bool
  pmdNone : Word → Bool
  pteNone : Word → Bool
  pudTable : Word → Frame
  pmdTable : Word → Frame
  ptePage : Word → Page
  pageToPhys : Page → Word
  pgdIndex_eq : ∀ va, pgdIndex va = indexAt mode.pgdShift va
  p4dIndex_eq : mode = .fiveLevel → ∀ va, p4dIndex va = indexAt 39 va
  pudIndex_eq : ∀ va, pudIndex va = indexAt 30 va
  pmdIndex_eq : ∀ va, pmdIndex va = indexAt 21 va
  pteIndex_eq : ∀ va, pteIndex va = indexAt 12 va
  pgdOffset_eq : ∀ top va, pgdOffset top va = (top, pgdIndex va)
  p4dOffset_folded : mode = .fourLevel → ∀ pgd e va, p4dOffset pgd e va = pgd
  p4dOffset_eq : mode = .fiveLevel → ∀ pgd e va, p4dOffset pgd e va = (frame e, p4dIndex va)
  pudOffset_eq : ∀ e va, pudOffset e va = (frame e, pudIndex va)
  pmdOffset_eq : ∀ e va, pmdOffset e va = (pudTable e, pmdIndex va)
  pteOffsetMap_eq : ∀ e va, pteOffsetMap e va = (pmdTable e, pteIndex va)
  pudTable_eq : ∀ e, pageSizeBit e = false → pudTable e = frame e
  pmdTable_eq : ∀ e, pageSizeBit e = false → pmdTable e = frame e
  pgdNone_folded : mode = .fourLevel → ∀ e, pgdNone e = false
  pgdNone_eq : mode = .fiveLevel → ∀ e, pgdNone e = (e == 0)
  p4dNone_eq : ∀ e, p4dNone e = (e == 0)
  pudNone_eq : ∀ e, pudNone e = (e == 0)
  pmdNone_eq : ∀ e, pmdNone e = (e == 0)
  pteNone_eq : ∀ e, pteNone e = (e == 0)
  pageToPhys_eq : ∀ e, present e = true →
    pageToPhys (ptePage e) = (frame e).setWidth 64 <<< 12
  pageToPhys_aligned : ∀ e, pageToPhys (ptePage e) &&& 0xfff = 0

theorem frameAddress_aligned (f : Frame) : (f.setWidth 64 <<< 12) &&& (0xfff : Word) = 0 := by
  apply BitVec.eq_of_toNat_eq
  have hmask : ((f.setWidth 64 <<< 12) &&& (0xfff : Word)).toNat =
      (f.setWidth 64 <<< 12).toNat % 2 ^ 12 := by
    rw [BitVec.toNat_and]
    exact Nat.and_two_pow_sub_one_eq_mod _ 12
  have hf : f.toNat < 2 ^ 40 := f.isLt
  rw [hmask]
  simp only [BitVec.toNat_shiftLeft, BitVec.toNat_setWidth, Nat.shiftLeft_eq]
  change _ = 0
  omega

/-- The macros as the x86 headers define them. An entry with the page-size bit loses
the address bits below its alignment, and the frame of a PTE that is not present is
stored inverted. -/
def PgtableMacros.x86 (mode : PagingMode) : PgtableMacros mode where
  Page := Frame
  pgdIndex := indexAt mode.pgdShift
  p4dIndex va := if mode = .fiveLevel then indexAt 39 va else 0
  pudIndex := indexAt 30
  pmdIndex := indexAt 21
  pteIndex := indexAt 12
  pgdOffset top va := (top, indexAt mode.pgdShift va)
  p4dOffset pgd e va := if mode = .fiveLevel then (frame e, indexAt 39 va) else pgd
  pudOffset e va := (frame e, indexAt 30 va)
  pmdOffset e va :=
    (if pageSizeBit e then frame e &&& ~~~0x3ffff else frame e, indexAt 21 va)
  pteOffsetMap e va :=
    (if pageSizeBit e then frame e &&& ~~~0x1ff else frame e, indexAt 12 va)
  pgdNone e := mode = .fiveLevel && e == 0
  p4dNone e := e == 0
  pudNone e := e == 0
  pmdNone e := e == 0
  pteNone e := e == 0
  pudTable e := if pageSizeBit e then frame e &&& ~~~0x3ffff else frame e
  pmdTable e := if pageSizeBit e then frame e &&& ~~~0x1ff else frame e
  ptePage e := if present e then frame e else frame (~~~e)
  pageToPhys f := f.setWidth 64 <<< 12
  pgdIndex_eq _ := rfl
  p4dIndex_eq h _ := if_pos h
  pudIndex_eq _ := rfl
  pmdIndex_eq _ := rfl
  pteIndex_eq _ := rfl
  pgdOffset_eq _ _ := rfl
  p4dOffset_folded h _ _ _ := by simp [h]
  p4dOffset_eq h _ _ _ := by simp [h]
  pudOffset_eq _ _ := rfl
  pmdOffset_eq _ _ := rfl
  pteOffsetMap_eq _ _ := rfl
  pudTable_eq _ h := by simp [h]
  pmdTable_eq _ h := by simp [h]
  pgdNone_folded h _ := by simp [h]
  pgdNone_eq h _ := by simp [h]
  p4dNone_eq _ := rfl
  pudNone_eq _ := rfl
  pmdNone_eq _ := rfl
  pteNone_eq _ := rfl
  pageToPhys_eq _ h := by simp [h]
  pageToPhys_aligned _ := frameAddress_aligned _

def pageMask : Word := ~~~0xfff

/-! ## The function -/

inductive TableLevel where
  | pgd
  | p4d
  | pud
  | pmd
  | pte
  deriving DecidableEq, Repr

def TableLevel.mapError : TableLevel → String
  | .pgd => "map error: page global directory (pgd)\n"
  | .p4d => "map error: page p4 directory (p4d)\n"
  | .pud => "map error: page upper directory (pud)\n"
  | .pmd => "map error: page middle directory (pmd)\n"
  | .pte => "map error: page table entry (pte)\n"

/-- The calls of `printk`: the value and index of each entry, the error text, the
two parts of the result, and the result; and those of the system call, its length and
the index of each turn of its loop. -/
inductive Printk where
  | entry (level : TableLevel) (value : Word) (index : BitVec 9)
  | error (text : String)
  | page (pageAddress pageOffset : Word)
  | transformed (virtualAddress physicalAddress : Word)
  | length (virtualAddressLength : ℤ)
  | turn (i : ℕ)
  deriving DecidableEq, Repr

variable {mode : PagingMode} (M : PgtableMacros mode) (mm : Mm)

/-- The value returned, and what was logged. -/
def addressTransform (virtualAddress : Word) : Word × List Printk :=
  let pgd := M.pgdOffset mm.pgd virtualAddress
  let log := [.entry .pgd (mm.read pgd) (M.pgdIndex virtualAddress)]
  if M.pgdNone (mm.read pgd) then (0, log ++ [.error TableLevel.pgd.mapError])
  else
    let p4d := M.p4dOffset pgd (mm.read pgd) virtualAddress
    let log := log ++ [.entry .p4d (mm.read p4d) (M.p4dIndex virtualAddress)]
    if M.p4dNone (mm.read p4d) then (0, log ++ [.error TableLevel.p4d.mapError])
    else
      let pud := M.pudOffset (mm.read p4d) virtualAddress
      let log := log ++ [.entry .pud (mm.read pud) (M.pudIndex virtualAddress)]
      if M.pudNone (mm.read pud) then (0, log ++ [.error TableLevel.pud.mapError])
      else
        let pmd := M.pmdOffset (mm.read pud) virtualAddress
        let log := log ++ [.entry .pmd (mm.read pmd) (M.pmdIndex virtualAddress)]
        if M.pmdNone (mm.read pmd) then (0, log ++ [.error TableLevel.pmd.mapError])
        else
          let pte := M.pteOffsetMap (mm.read pmd) virtualAddress
          let log := log ++ [.entry .pte (mm.read pte) (M.pteIndex virtualAddress)]
          if M.pteNone (mm.read pte) then (0, log ++ [.error TableLevel.pte.mapError])
          else
            let resultPage := M.ptePage (mm.read pte)
            let pageAddress := M.pageToPhys resultPage
            let pageOffset := virtualAddress &&& ~~~pageMask
            let physicalAddress := pageAddress ||| pageOffset
            (physicalAddress, log ++ [.page pageAddress pageOffset,
              .transformed virtualAddress physicalAddress])

/-! ## The function as a walk -/

def zeroLevel (shift : ℕ) (table : Word → Frame) : PageLevel where
  index := indexAt shift
  decode _ e := if e = 0 then .empty else .table (table e)

def zeroLastLevel (page : Word → Word → Word) : PageLevel where
  index := indexAt 12
  decode va e := if e = 0 then .empty else .page (page va e)

def ptePhysical (va e : Word) : Word := M.pageToPhys (M.ptePage e) ||| (va &&& ~~~pageMask)

/-- The levels of a mode, with the tables that PUD and PMD entries lead to and the
result at a PTE left open. -/
def zeroLevels (pudTable pmdTable : Word → Frame) (page : Word → Word → Word) :
    PagingMode → List PageLevel
  | .fourLevel => [zeroLevel 39 frame, zeroLevel 30 pudTable, zeroLevel 21 pmdTable,
      zeroLastLevel page]
  | .fiveLevel => [zeroLevel 48 frame, zeroLevel 39 frame, zeroLevel 30 pudTable,
      zeroLevel 21 pmdTable, zeroLastLevel page]

def transformLevels : List PageLevel :=
  zeroLevels M.pudTable M.pmdTable (ptePhysical M) mode

theorem zeroLevel_decode_of_ne {shift : ℕ} {table : Word → Frame} {e : Word} (h : e ≠ 0)
    (va : Word) : (zeroLevel shift table).decode va e = .table (table e) :=
  if_neg h

theorem zeroLastLevel_decode_of_ne {page : Word → Word → Word} {e : Word} (h : e ≠ 0)
    (va : Word) : (zeroLastLevel page).decode va e = .page (page va e) :=
  if_neg h

theorem walk_zeroLevel {mem : Frame → BitVec 9 → Word} {va : Word} {shift : ℕ}
    {table : Word → Frame} {ls : List PageLevel} {t : Frame} :
    walk mem va (zeroLevel shift table :: ls) t =
      if mem t (indexAt shift va) = 0 then none
      else walk mem va ls (table (mem t (indexAt shift va))) := by
  by_cases h : mem t (indexAt shift va) = 0
  · rw [if_pos h]
    exact walk_of_empty (if_pos h)
  · rw [if_neg h]
    exact walk_of_table (if_neg h)

theorem walk_zeroLastLevel {mem : Frame → BitVec 9 → Word} {va : Word}
    {page : Word → Word → Word} {t : Frame} :
    walk mem va [zeroLastLevel page] t =
      if mem t (indexAt 12 va) = 0 then none else some (page va (mem t (indexAt 12 va))) := by
  by_cases h : mem t (indexAt 12 va) = 0
  · rw [if_pos h]
    exact walk_of_empty (if_pos h)
  · rw [if_neg h]
    exact walk_of_page (if_neg h)

/-- The value `ADDRESS_TRANSFORM` returns is a walk that tests for zero. -/
theorem addressTransform_eq_walk (va : Word) :
    (addressTransform M mm va).1 = (walk mm.mem va (transformLevels M) mm.pgd).getD 0 := by
  cases mode with
  | fourLevel =>
      simp only [addressTransform, M.pgdNone_folded rfl, M.p4dOffset_folded rfl, M.pgdOffset_eq,
        M.pudOffset_eq, M.pmdOffset_eq, M.pteOffsetMap_eq, M.pgdIndex_eq, M.pudIndex_eq,
        M.pmdIndex_eq, M.pteIndex_eq, M.p4dNone_eq, M.pudNone_eq, M.pmdNone_eq, M.pteNone_eq,
        Mm.read, transformLevels, zeroLevels, walk_zeroLevel, walk_zeroLastLevel, beq_iff_eq,
        PagingMode.pgdShift, Bool.false_eq_true, if_false]
      split_ifs <;> rfl
  | fiveLevel =>
      simp only [addressTransform, M.pgdNone_eq rfl, M.p4dOffset_eq rfl, M.pgdOffset_eq,
        M.pudOffset_eq, M.pmdOffset_eq, M.pteOffsetMap_eq, M.pgdIndex_eq, M.p4dIndex_eq rfl,
        M.pudIndex_eq, M.pmdIndex_eq, M.pteIndex_eq, M.p4dNone_eq, M.pudNone_eq, M.pmdNone_eq,
        M.pteNone_eq, Mm.read, transformLevels, zeroLevels, walk_zeroLevel, walk_zeroLastLevel,
        beq_iff_eq, PagingMode.pgdShift]
      split_ifs <;> rfl

/-! ## Agreement with the processor -/

def emptyOrPresent (e : Word) : Prop := e = 0 ∨ present e = true

def tableOrEmpty (e : Word) : Prop := emptyOrPresent e ∧ (present e = true → pageSizeBit e = false)

def childTable (e : Word) : Option Frame := if e = 0 then none else some (frame e)

/-- The entries from the PGD level of the processor on: zero or present, and no large
page at the PUD and PMD levels. -/
def entryRules : PagingMode → List ((Word → Prop) × (Word → Option Frame))
  | .fourLevel => [(emptyOrPresent, childTable), (tableOrEmpty, childTable),
      (tableOrEmpty, childTable), (emptyOrPresent, childTable)]
  | .fiveLevel => [(emptyOrPresent, childTable), (emptyOrPresent, childTable),
      (tableOrEmpty, childTable), (tableOrEmpty, childTable), (emptyOrPresent, childTable)]

def WellFormed (mode : PagingMode) (mm : Mm) : Prop := AllEntries mm.mem (entryRules mode) mm.pgd

theorem frameAddress_or_offset (f : Frame) (va : Word) :
    f.setWidth 64 <<< 12 ||| (va &&& ~~~pageMask) = physical 12 f va := by
  have hf : f.toNat < 2 ^ 40 := f.isLt
  have hhigh : (f.setWidth 64 <<< 12 : Word).toNat = f.toNat <<< 12 := by
    simp only [BitVec.toNat_shiftLeft, BitVec.toNat_setWidth, Nat.shiftLeft_eq]
    omega
  have hlow : (va &&& ~~~pageMask).toNat = va.toNat % 2 ^ 12 := by
    rw [pageMask, BitVec.not_not, BitVec.toNat_and]
    exact Nat.and_two_pow_sub_one_eq_mod va.toNat 12
  have hlt : va.toNat % 2 ^ 12 < 2 ^ 12 := Nat.mod_lt _ (by decide)
  apply BitVec.eq_of_toNat_eq
  rw [physical_toNat _ _ (by decide), BitVec.toNat_or, hhigh, hlow,
    ← Nat.shiftLeft_add_eq_or_of_lt hlt, Nat.shiftLeft_eq]

theorem ptePhysical_of_present {e : Word} (he : present e = true) (va : Word) :
    ptePhysical M va e = physical 12 (frame e) va := by
  rw [ptePhysical, M.pageToPhys_eq e he, frameAddress_or_offset]

theorem zeroLevel_decode {shift : ℕ} {table : Word → Frame} {va e : Word}
    (he : emptyOrPresent e) (htable : present e = true → table e = frame e) :
    (zeroLevel shift table).decode va e = (tableLevel shift).decode va e := by
  rcases he with rfl | he
  · simp [zeroLevel, tableLevel, present]
  · have hmmu : (tableLevel shift).decode va e = .table (frame e) := if_pos he
    rw [zeroLevel_decode_of_ne (ne_zero_of_present he), hmmu, htable he]

theorem leafLevel_decode {shift : ℕ} {va e : Word} (he : tableOrEmpty e) :
    (leafLevel shift).decode va e = (tableLevel shift).decode va e := by
  obtain ⟨_, hleaf⟩ := he
  by_cases hp : present e = true
  · simp [leafLevel, tableLevel, hp, hleaf hp]
  · simp [leafLevel, tableLevel, hp]

theorem childTable_of_decode {shift : ℕ} {table : Word → Frame} {va e : Word} {t : Frame}
    (htable : present e = true → table e = frame e) (he : emptyOrPresent e)
    (h : (zeroLevel shift table).decode va e = .table t) : childTable e = some t := by
  rcases he with rfl | he
  · simp [zeroLevel] at h
  · have hne := ne_zero_of_present he
    rw [zeroLevel_decode_of_ne hne, htable he] at h
    have ht : frame e = t := by injection h
    rw [childTable, if_neg hne, ht]

theorem agrees_tableLevel {shift : ℕ} {va : Word} {ls ms : List PageLevel}
    {rest : List ((Word → Prop) × (Word → Option Frame))} (h : Agrees va ls ms rest) :
    Agrees va (zeroLevel shift frame :: ls) (tableLevel shift :: ms)
      ((emptyOrPresent, childTable) :: rest) :=
  .cons rfl (fun _ he ↦ zeroLevel_decode he fun _ ↦ rfl)
    (fun _ _ he hd ↦ childTable_of_decode (fun _ ↦ rfl) he hd) h

theorem agrees_leafLevel {shift : ℕ} {table : Word → Frame} {va : Word}
    (htable : ∀ e, pageSizeBit e = false → table e = frame e) {ls ms : List PageLevel}
    {rest : List ((Word → Prop) × (Word → Option Frame))} (h : Agrees va ls ms rest) :
    Agrees va (zeroLevel shift table :: ls) (leafLevel shift :: ms)
      ((tableOrEmpty, childTable) :: rest) := by
  refine .cons rfl (fun e he ↦ ?_) (fun e t he hd ↦ ?_) h
  · rw [leafLevel_decode he]
    exact zeroLevel_decode he.1 fun hp ↦ htable e (he.2 hp)
  · exact childTable_of_decode (fun hp ↦ htable e (he.2 hp)) he.1 hd

theorem agrees_lastLevel {page : Word → Word → Word} {va : Word}
    (hpage : ∀ e, present e = true → page va e = physical 12 (frame e) va) :
    Agrees va [zeroLastLevel page] [lastLevel] [(emptyOrPresent, childTable)] := by
  refine .cons rfl (fun e he ↦ ?_) (fun e t _ hd ↦ ?_) .nil
  · rcases he with rfl | he
    · simp [zeroLastLevel, lastLevel, present]
    · have hmmu : lastLevel.decode va e = .page (physical 12 (frame e) va) := if_pos he
      rw [zeroLastLevel_decode_of_ne (ne_zero_of_present he), hmmu, hpage e he]
  · by_cases hzero : e = 0
    · simp [zeroLastLevel, hzero] at hd
    · rw [zeroLastLevel_decode_of_ne hzero] at hd
      injection hd

theorem agrees_mmuLevels {pudTable pmdTable : Word → Frame} {page : Word → Word → Word}
    {va : Word} (hpud : ∀ e, pageSizeBit e = false → pudTable e = frame e)
    (hpmd : ∀ e, pageSizeBit e = false → pmdTable e = frame e)
    (hpage : ∀ e, present e = true → page va e = physical 12 (frame e) va) (mode : PagingMode) :
    Agrees va (zeroLevels pudTable pmdTable page mode) (mmuLevels mode) (entryRules mode) := by
  have hlower : Agrees va [zeroLevel 30 pudTable, zeroLevel 21 pmdTable, zeroLastLevel page]
      [leafLevel 30, leafLevel 21, lastLevel]
      [(tableOrEmpty, childTable), (tableOrEmpty, childTable), (emptyOrPresent, childTable)] :=
    agrees_leafLevel hpud (agrees_leafLevel hpmd (agrees_lastLevel hpage))
  cases mode with
  | fourLevel => exact agrees_tableLevel hlower
  | fiveLevel => exact agrees_tableLevel (agrees_tableLevel hlower)

/-! ## The entry at the end of the path -/

/-- The PTE that the walk of an address meets, if no entry on the path is zero. -/
def pteOnPath (mode : PagingMode) (mm : Mm) (va : Word) : Option Word :=
  walk mm.mem va (zeroLevels frame frame (fun _ e ↦ e) mode) mm.pgd

theorem zeroLevel_map (g : Word → Word → Word) (shift : ℕ) (table : Word → Frame) :
    (zeroLevel shift table).map g = zeroLevel shift table := by
  have hdecode : ∀ va e, ((zeroLevel shift table).decode va e).map (g va) =
      (zeroLevel shift table).decode va e := by
    intro va e
    dsimp only [zeroLevel]
    split <;> rfl
  rw [Level.map, funext fun va ↦ funext (hdecode va)]

theorem zeroLastLevel_map (g page : Word → Word → Word) :
    (zeroLastLevel page).map g = zeroLastLevel fun va e ↦ g va (page va e) := by
  have hdecode : ∀ va e, ((zeroLastLevel page).decode va e).map (g va) =
      (zeroLastLevel fun va e ↦ g va (page va e)).decode va e := by
    intro va e
    dsimp only [zeroLastLevel]
    split <;> rfl
  rw [Level.map, funext fun va ↦ funext (hdecode va)]
  rfl

theorem zeroLevels_map (g : Word → Word → Word) (pudTable pmdTable : Word → Frame)
    (page : Word → Word → Word) (mode : PagingMode) :
    (zeroLevels pudTable pmdTable page mode).map (Level.map g) =
      zeroLevels pudTable pmdTable (fun va e ↦ g va (page va e)) mode := by
  cases mode <;> simp [zeroLevels, zeroLevel_map, zeroLastLevel_map]

theorem walk_mmuLevels_eq_pteOnPath {mm : Mm} (hwf : WellFormed mode mm) (va : Word) :
    walk mm.mem va (mmuLevels mode) mm.pgd =
      (pteOnPath mode mm va).map fun e ↦ physical 12 (frame e) va := by
  have hpath : Agrees va (zeroLevels frame frame (fun va e ↦ physical 12 (frame e) va) mode)
      (mmuLevels mode) (entryRules mode) :=
    agrees_mmuLevels (fun _ _ ↦ rfl) (fun _ _ ↦ rfl) (fun _ _ ↦ rfl) mode
  rw [← walk_eq_of_agrees hpath hwf, pteOnPath,
    ← walk_map (fun va e ↦ physical 12 (frame e) va), zeroLevels_map]

/-- On well-formed tables and canonical user addresses `ADDRESS_TRANSFORM` returns what
the processor uses: zero if an entry on the path is zero, and otherwise the frame of
the PTE followed by the offset in the page. -/
theorem addressTransform_eq_mmuWalk (va : Word) (hwf : WellFormed mode mm)
    (hva : canonicalUser mode va = true) :
    (addressTransform M mm va).1 = (mmuWalk mode mm va).getD 0 ∧
      (addressTransform M mm va).1.toNat =
        match pteOnPath mode mm va with
        | none => 0
        | some e => (frame e).toNat * 4096 + va.toNat % 4096 := by
  have hmmu : mmuWalk mode mm va = walk mm.mem va (mmuLevels mode) mm.pgd :=
    if_pos (canonical_of_user hva)
  have hagree := agrees_mmuLevels M.pudTable_eq M.pmdTable_eq
    (fun e he ↦ ptePhysical_of_present M he va) mode
  have hvalue : (addressTransform M mm va).1 = (mmuWalk mode mm va).getD 0 := by
    rw [addressTransform_eq_walk, hmmu]
    exact congrArg (Option.getD · 0) (walk_eq_of_agrees hagree hwf)
  refine ⟨hvalue, ?_⟩
  rw [hvalue, hmmu, walk_mmuLevels_eq_pteOnPath hwf]
  cases pteOnPath mode mm va with
  | none => rfl
  | some e => exact physical_toNat (frame e) va (by decide)

/-- One table in frame 1, whose entry 0 leads back to it. -/
def selfMapped : Mm := ⟨fun _ i ↦ if i = 0 then 0x1067 else 0, 1⟩

theorem selfMapped_wellFormed (mode : PagingMode) : WellFormed mode selfMapped := by
  have hentry : ∀ t i, tableOrEmpty (selfMapped.mem t i) := by
    intro t i
    by_cases hi : i = 0
    · have hself : selfMapped.mem t i = 0x1067 := if_pos hi
      rw [hself]
      exact ⟨.inr (by decide), fun _ ↦ by decide⟩
    · have hzero : selfMapped.mem t i = 0 := if_neg hi
      rw [hzero]
      exact ⟨.inl rfl, fun _ ↦ by decide⟩
  unfold WellFormed
  generalize selfMapped.pgd = top
  cases mode with
  | fourLevel =>
      exact fun i ↦ ⟨(hentry _ i).1, fun t _ i ↦ ⟨hentry t i, fun t _ i ↦ ⟨hentry t i,
        fun t _ i ↦ ⟨(hentry t i).1, fun _ _ ↦ trivial⟩⟩⟩⟩
  | fiveLevel =>
      exact fun i ↦ ⟨(hentry _ i).1, fun t _ i ↦ ⟨(hentry t i).1, fun t _ i ↦ ⟨hentry t i,
        fun t _ i ↦ ⟨hentry t i, fun t _ i ↦ ⟨(hentry t i).1, fun _ _ ↦ trivial⟩⟩⟩⟩⟩

theorem addressTransform_selfMapped :
    (addressTransform (.x86 .fiveLevel) selfMapped 0x123).1 =
        (mmuWalk .fiveLevel selfMapped 0x123).getD 0 ∧
      (addressTransform (.x86 .fiveLevel) selfMapped 0x123).1.toNat =
        match pteOnPath .fiveLevel selfMapped 0x123 with
        | none => 0
        | some e => (frame e).toNat * 4096 + (0x123 : Word).toNat % 4096 :=
  addressTransform_eq_mmuWalk (.x86 .fiveLevel) selfMapped 0x123 (selfMapped_wellFormed _)
    (by decide)

example : (addressTransform (.x86 .fourLevel) selfMapped 0x123).1 = 0x1123 := by decide

end NcuKernel.Paging
