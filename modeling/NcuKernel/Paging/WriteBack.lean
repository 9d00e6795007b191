import NcuKernel.Paging.PathEnds
import NcuKernel.Paging.PhysicalAddresses

/-!
# The page tables at the return

The call changes the page tables it reports on. Reading the list installs frames for its
pages, which happens before the translations are computed. Writing the results back may
install frames too, and happens after. Hence the answers are those of the moment between
the copies.
-/

namespace NcuKernel.Paging

open Radix Bytes

/-! ## Faults taken by a copy -/

/-- The address lies on a page of the `n` bytes from `a` on. -/
def OnPageOf (a : Word) (n : ℕ) (va : Word) : Prop :=
  ∃ i < n, pageNumber (a + BitVec.ofNat 64 i) = pageNumber va

def writable (e : Word) : Bool := e.getLsbD 1

def SmallOrEmpty (o : Option PathEnd) : Prop := ∀ p, o = some p → ∃ e, p = .small e

def smallFrame : Option PathEnd → Option Frame
  | some (.small e) => some (frame e)
  | _ => none

/-- What a complete read does to the tables. A page with a frame keeps it. An empty page of
the range gets one, be it new, the zero page or a page of a file, and the fault may map
empty pages around it as well. -/
structure FaultsIn (mode : PagingMode) (mm mm' : Mm) (a : Word) (n : ℕ) : Prop where
  kept : ∀ va e, canonicalUser mode va = true → pathEnd mode mm va = some (.small e) →
    smallFrame (pathEnd mode mm' va) = some (frame e)
  installed : ∀ va, canonicalUser mode va = true → OnPageOf a n va →
    pathEnd mode mm va = none → ∃ e, pathEnd mode mm' va = some (.small e)
  around : ∀ va, canonicalUser mode va = true → ¬OnPageOf a n va →
    pathEnd mode mm va = none → SmallOrEmpty (pathEnd mode mm' va)

/-- The PTE is empty, or it is write-protected and the page is to be copied on a write. The
protection alone does not say so: it may also be there to notice the first write to a page
that stays shared. -/
def NeedsFrameToWrite (copyOnWrite : Prop) : Option PathEnd → Prop
  | none => True
  | some (.small e) => writable e = false ∧ copyOnWrite
  | some _ => False

/-- What a complete write does to the tables: the pages of its range that need a frame get
one that is not the frame they had, and all other pages keep theirs. -/
structure Installs (mode : PagingMode) (copyOnWrite : BitVec 52 → Prop) (mm mm' : Mm) (a : Word)
    (n : ℕ) : Prop where
  kept : ∀ va, canonicalUser mode va = true → SmallOrEmpty (pathEnd mode mm va) →
    ¬(OnPageOf a n va ∧ NeedsFrameToWrite (copyOnWrite (pageNumber va)) (pathEnd mode mm va)) →
      SmallOrEmpty (pathEnd mode mm' va) ∧
        smallFrame (pathEnd mode mm' va) = smallFrame (pathEnd mode mm va)
  installed : ∀ va, canonicalUser mode va = true → OnPageOf a n va →
    NeedsFrameToWrite (copyOnWrite (pageNumber va)) (pathEnd mode mm va) →
      ∃ e, pathEnd mode mm' va = some (.small e) ∧ frame e ≠ 0 ∧
        smallFrame (pathEnd mode mm va) ≠ some (frame e)

/-- How `copy_from_user` and `copy_to_user` treat the tables, where `copyOnWrite s` holds the
pages that are shared in state `s` until they are written. -/
structure DemandPaging {σ : Type} (U : Uaccess σ) (mode : PagingMode)
    (copyOnWrite : σ → BitVec 52 → Prop) : Prop where
  read : ∀ s a n, U.unread s a n = 0 →
    FaultsIn mode (U.tables s) (U.tables (U.afterRead s a n)) a n
  write : ∀ s a bs, U.unwritten s a bs.length = 0 →
    Installs mode (copyOnWrite s) (U.tables s) (U.tables (U.afterWrite s a bs)) a bs.length
  kernel : ∀ s a bs, U.kernelAddress a = true → U.tables (U.afterWrite s a bs) = U.tables s

/-! ## Translations -/

/-- The address the processor uses, and 0 if there is none. -/
def translation (mode : PagingMode) (mm : Mm) (va : Word) : Word := (mmuWalk mode mm va).getD 0

variable {mode : PagingMode}

theorem translation_eq_smallFrame {mm : Mm} {va : Word} (hva : canonicalUser mode va = true)
    (hsmall : SmallOrEmpty (pathEnd mode mm va)) :
    translation mode mm va = ((smallFrame (pathEnd mode mm va)).map (physical 12 · va)).getD 0 := by
  rw [translation, mmuWalk_eq_pathEnd mm hva]
  cases h : pathEnd mode mm va with
  | none => rfl
  | some p =>
      obtain ⟨e, rfl⟩ := hsmall p h
      rfl

theorem smallOrEmpty_small (e : Word) : SmallOrEmpty (some (.small e)) := by
  intro p h
  exact ⟨e, (Option.some.inj h).symm⟩

theorem smallOrEmpty_of_smallFrame {o : Option PathEnd} {f : Frame} (h : smallFrame o = some f) :
    SmallOrEmpty o := by
  match o, h with
  | some (.small e), _ => exact smallOrEmpty_small e

theorem FaultsIn.smallOrEmpty {mm mm' : Mm} {a : Word} {n : ℕ} (h : FaultsIn mode mm mm' a n)
    {va : Word} (hva : canonicalUser mode va = true) (hsmall : SmallOrEmpty (pathEnd mode mm va)) :
    SmallOrEmpty (pathEnd mode mm' va) := by
  cases hend : pathEnd mode mm va with
  | some p =>
      obtain ⟨e, rfl⟩ := hsmall p hend
      exact smallOrEmpty_of_smallFrame (h.kept va e hva hend)
  | none =>
      by_cases hpage : OnPageOf a n va
      · obtain ⟨e, he⟩ := h.installed va hva hpage hend
        rw [he]
        exact smallOrEmpty_small e
      · exact h.around va hva hpage hend

section

variable {copyOnWrite : BitVec 52 → Prop} {mm mm' : Mm} {a : Word} {n : ℕ}

theorem Installs.smallOrEmpty (h : Installs mode copyOnWrite mm mm' a n) {va : Word}
    (hva : canonicalUser mode va = true) (hsmall : SmallOrEmpty (pathEnd mode mm va)) :
    SmallOrEmpty (pathEnd mode mm' va) := by
  by_cases hfault : OnPageOf a n va ∧
      NeedsFrameToWrite (copyOnWrite (pageNumber va)) (pathEnd mode mm va)
  · obtain ⟨e, he, _⟩ := h.installed va hva hfault.1 hfault.2
    rw [he]
    exact smallOrEmpty_small e
  · exact (h.kept va hva hsmall hfault).1

/-- A write changes the translation of exactly those addresses whose page it gives a frame. -/
theorem Installs.translation_eq_iff (h : Installs mode copyOnWrite mm mm' a n) {va : Word}
    (hva : canonicalUser mode va = true) (hsmall : SmallOrEmpty (pathEnd mode mm va)) :
    translation mode mm va = translation mode mm' va ↔
      ¬(OnPageOf a n va ∧
        NeedsFrameToWrite (copyOnWrite (pageNumber va)) (pathEnd mode mm va)) := by
  rw [translation_eq_smallFrame hva hsmall,
    translation_eq_smallFrame hva (h.smallOrEmpty hva hsmall)]
  constructor
  · rintro heq ⟨hpage, hneeds⟩
    obtain ⟨e, he, hzero, hnew⟩ := h.installed va hva hpage hneeds
    have hframe : smallFrame (pathEnd mode mm' va) = some (frame e) := by
      rw [he]
      rfl
    rw [hframe, Option.map_some, Option.getD_some] at heq
    cases hold : smallFrame (pathEnd mode mm va) with
    | none =>
        rw [hold] at heq
        exact hzero (physical_eq_zero_iff.mp heq.symm).1
    | some f =>
        rw [hold, Option.map_some, Option.getD_some] at heq
        exact hnew (hold.trans (congrArg some (physical_eq_iff.mp heq).1))
  · intro hnot
    rw [(h.kept va hva hsmall hnot).2]

end

/-! ## The call -/

section Call

variable {σ : Type} (U : Uaccess σ) (M : PgtableMacros mode) {copyOnWrite : σ → BitVec 52 → Prop}

/-- The tables at the return are those that the second copy left. -/
theorem tables_at_return (hpaging : DemandPaging U mode copyOnWrite) (F : StackFrame U) (s : σ)
    (initial : Word) (n : BitVec 32) (result : Word)
    (hwrite : U.unwritten (transformState U s initial n) result (8 * n.toNat) = 0) :
    Installs mode (copyOnWrite (transformState U s initial n))
      (U.tables (transformState U s initial n))
      (U.tables (U.afterWrite (U.afterWrite (transformState U s initial n) result
        (bytesOfWords (physicalAddresses U M s initial n))) F.lengthAddress
          ((bytesOfWord (n.setWidth 64)).take 4))) result (8 * n.toNat) := by
  have hlen : (bytesOfWords (physicalAddresses U M s initial n)).length = 8 * n.toNat := by
    rw [bytesOfWords_length, physicalAddresses_length]
  rw [hpaging.kernel _ _ _ F.lengthAddress_kernel, ← hlen]
  exact hpaging.write _ _ _ (by rw [hlen]; exact hwrite)

/-- When both bulk copies are complete, every answer is the translation under the tables that
the read of the list left. It is the translation at the return exactly for the addresses
that do not lie on a page of the result that was empty, or to be copied on a write, when the
write began. -/
theorem answers_at_return (hpaging : DemandPaging U mode copyOnWrite) (F : StackFrame U) (s : σ)
    (initial : Word) (n : BitVec 32) (result : Word) (m : BitVec 32) (hfits : F.fits n = true)
    (hread : U.unread s initial (8 * n.toNat) = 0)
    (hwrite : U.unwritten (transformState U s initial n) result (8 * n.toNat) = 0)
    (huser : ∀ i < n.toNat, canonicalUser mode (requestedAddress U s initial i) = true)
    (hsmall : ∀ i < n.toNat,
      SmallOrEmpty (pathEnd mode (U.tables s) (requestedAddress U s initial i))) :
    ∃ ret, myGetPhysicalAddresses U M F s initial n result m = some ret ∧
      ∀ i < n.toNat,
        readWord (U.memory ret.state) (result + BitVec.ofNat 64 (8 * i)) =
            translation mode (U.tables (transformState U s initial n))
              (requestedAddress U s initial i) ∧
          (readWord (U.memory ret.state) (result + BitVec.ofNat 64 (8 * i)) =
              translation mode (U.tables ret.state) (requestedAddress U s initial i) ↔
            ¬(OnPageOf result (8 * n.toNat) (requestedAddress U s initial i) ∧
              NeedsFrameToWrite
                (copyOnWrite (transformState U s initial n)
                  (pageNumber (requestedAddress U s initial i)))
                (pathEnd mode (U.tables (transformState U s initial n))
                  (requestedAddress U s initial i)))) := by
  obtain ⟨ret, hcall, hstate, hresults, _⟩ :=
    myGetPhysicalAddresses_complete U M F s initial n result m hfits hread hwrite
  have hinstalls := tables_at_return U M hpaging F s initial n result hwrite
  rw [← hstate] at hinstalls
  refine ⟨ret, hcall, fun i hi ↦ ?_⟩
  have hsmall' : SmallOrEmpty (pathEnd mode (U.tables (transformState U s initial n))
      (requestedAddress U s initial i)) :=
    (hpaging.read s initial _ hread).smallOrEmpty (huser i hi) (hsmall i hi)
  have hresult : readWord (U.memory ret.state) (result + BitVec.ofNat 64 (8 * i)) =
      translation mode (U.tables (transformState U s initial n))
        (requestedAddress U s initial i) := by
    rw [hresults i hi]
    exact addressTransform_of_small M (huser i hi) hsmall'
  refine ⟨hresult, ?_⟩
  rw [hresult]
  exact hinstalls.translation_eq_iff (huser i hi) hsmall'

end Call

/-! ## A process after a fork -/

/-- Tables in the frames 1 to 4, of which the last holds the given PTEs. -/
def chainTables (ptes : BitVec 9 → Word) : Mm where
  mem t i :=
    if t = 4 then ptes i
    else if i = 0 then if t = 1 then 0x2067 else if t = 2 then 0x3067 else 0x4067
    else 0
  pgd := 1

theorem walk_chainTables {ptes : BitVec 9 → Word} {l : EndLevel} {ls : List EndLevel} {va : Word}
    (t t' : Frame) (ht : t ≠ 4) (hempty : l.decode va 0 = .empty)
    (htable : l.decode va ((chainTables ptes).mem t 0) = .table t') :
    walk (chainTables ptes).mem va (l :: ls) t =
      if l.index va = 0 then walk (chainTables ptes).mem va ls t' else none := by
  by_cases hindex : l.index va = 0
  · rw [if_pos hindex]
    exact walk_of_table (hindex.symm ▸ htable)
  · have hzero : (chainTables ptes).mem t (l.index va) = 0 := by
      change (if t = 4 then _ else if l.index va = 0 then _ else 0) = (0 : Word)
      rw [if_neg ht, if_neg hindex]
    rw [if_neg hindex]
    exact walk_of_empty (hzero.symm ▸ hempty)

theorem pathEnd_chainTables (ptes : BitVec 9 → Word) (va : Word) :
    pathEnd .fourLevel (chainTables ptes) va =
      if indexAt 39 va = 0 then
        if indexAt 30 va = 0 then
          if indexAt 21 va = 0 then
            walk (chainTables ptes).mem va [endLast] 4
          else none
        else none
      else none := by
  have hpgd : (endTable 39 .p4d).decode va 0x2067 = .table 2 := rfl
  have hpud : (endLeaf 30 .pud .pud).decode va 0x3067 = .table 3 := rfl
  have hpmd : (endLeaf 21 .pmd .pmd).decode va 0x4067 = .table 4 := rfl
  have h39 : walk (chainTables ptes).mem va
      [endTable 39 .p4d, endLeaf 30 .pud .pud, endLeaf 21 .pmd .pmd, endLast] 1 = _ :=
    walk_chainTables 1 2 (by decide) rfl hpgd
  have h30 : walk (chainTables ptes).mem va
      [endLeaf 30 .pud .pud, endLeaf 21 .pmd .pmd, endLast] 2 = _ :=
    walk_chainTables 2 3 (by decide) rfl hpud
  have h21 : walk (chainTables ptes).mem va [endLeaf 21 .pmd .pmd, endLast] 3 = _ :=
    walk_chainTables 3 4 (by decide) rfl hpmd
  exact h39.trans (by rw [h30, h21]; rfl)

theorem pageNumber_of_indices {va : Word} (hva : canonicalUser .fourLevel va = true)
    (h39 : indexAt 39 va = 0) (h30 : indexAt 30 va = 0) (h21 : indexAt 21 va = 0) :
    (pageNumber va).toNat = (indexAt 12 va).toNat := by
  have hlt : va.toNat < 2 ^ 47 := of_decide_eq_true hva
  have h39' := congrArg BitVec.toNat h39
  have h30' := congrArg BitVec.toNat h30
  have h21' := congrArg BitVec.toNat h21
  simp only [indexAt, pageNumber, BitVec.extractLsb'_toNat, Nat.shiftRight_eq_div_pow,
    BitVec.ofNat_eq_ofNat, BitVec.toNat_ofNat] at *
  omega

def privatePte (copied : Bool) : Word := if copied then 0x11067 else 0x10065

def sharedPte (noticed : Bool) : Word := if noticed then 0x20067 else 0x20065

/-- A child after a fork. Page 1 is copied when the child first writes to it; page 2 stays
shared, and its protection only serves to notice the first write. -/
def forkedTables (copied noticed : Bool) : Mm :=
  chainTables fun i ↦ if i = 1 then privatePte copied else if i = 2 then sharedPte noticed else 0

section

variable {va : Word} (copied noticed : Bool)

theorem pathEnd_private (hpage : pageNumber va = 1) :
    pathEnd .fourLevel (forkedTables copied noticed) va = some (.small (privatePte copied)) := by
  have hsame : pageNumber va = pageNumber 0x1000 := hpage
  rw [pathEnd_of_pageNumber _ _ hsame]
  cases copied <;> cases noticed <;> decide

theorem pathEnd_shared (hpage : pageNumber va = 2) :
    pathEnd .fourLevel (forkedTables copied noticed) va = some (.small (sharedPte noticed)) := by
  have hsame : pageNumber va = pageNumber 0x2000 := hpage
  rw [pathEnd_of_pageNumber _ _ hsame]
  cases copied <;> cases noticed <;> decide

theorem pathEnd_elsewhere (hva : canonicalUser .fourLevel va = true) (hone : pageNumber va ≠ 1)
    (htwo : pageNumber va ≠ 2) :
    pathEnd .fourLevel (forkedTables copied noticed) va = none := by
  rw [forkedTables, pathEnd_chainTables]
  split_ifs with h39 h30 h21
  · have hindex : ∀ i : BitVec 9, pageNumber va ≠ i.setWidth 52 → indexAt 12 va ≠ i := by
      intro i hpage h
      apply hpage
      apply BitVec.eq_of_toNat_eq
      rw [pageNumber_of_indices hva h39 h30 h21, h, BitVec.toNat_setWidth]
      exact (Nat.mod_eq_of_lt (lt_trans i.isLt (by decide))).symm
    refine walk_of_empty (if_pos ?_)
    exact (if_neg (hindex 1 hone)).trans (if_neg (hindex 2 htwo))
  all_goals rfl

end

/-- The bytes from `a` on lie on the two pages. -/
def mayUse (a : Word) (n : ℕ) : Bool :=
  (List.range n).all fun i ↦
    pageNumber (a + BitVec.ofNat 64 i) = 1 ∨ pageNumber (a + BitVec.ofNat 64 i) = 2

def touches (page : BitVec 52) (a : Word) (n : ℕ) : Bool :=
  (List.range n).any fun i ↦ pageNumber (a + BitVec.ofNat 64 i) = page

theorem page_of_mayUse {a va : Word} {n : ℕ} (h : (if mayUse a n then 0 else n) = 0)
    (hpage : OnPageOf a n va) : mayUse a n = true ∧ (pageNumber va = 1 ∨ pageNumber va = 2) := by
  obtain ⟨i, hi, hsame⟩ := hpage
  have huse : mayUse a n = true := by
    by_contra hno
    rw [if_neg hno] at h
    omega
  refine ⟨huse, ?_⟩
  rw [← hsame]
  have hall : ∀ i < n, pageNumber (a + BitVec.ofNat 64 i) = 1 ∨
      pageNumber (a + BitVec.ofNat 64 i) = 2 := by simpa [mayUse] using huse
  exact hall i hi

theorem touches_iff {page : BitVec 52} {a : Word} {n : ℕ} :
    touches page a n = true ↔ ∃ i < n, pageNumber (a + BitVec.ofNat 64 i) = page := by
  simp [touches]

theorem mayUse_of_msb {a : Word} {n : ℕ} (h : a.msb = true) (hn : n ≠ 0) : mayUse a n = false := by
  rw [Bool.eq_false_iff]
  intro huse
  have hfirst : pageNumber a = 1 ∨ pageNumber a = 2 := by
    have hall : ∀ i < n, pageNumber (a + BitVec.ofNat 64 i) = 1 ∨
        pageNumber (a + BitVec.ofNat 64 i) = 2 := by simpa [mayUse] using huse
    simpa using hall 0 (by omega)
  have hmsb : 2 ^ 63 ≤ a.toNat := by simpa [BitVec.msb_eq_decide] using h
  have hlt : a.toNat < 2 ^ 64 := a.isLt
  rcases hfirst with hpage | hpage <;>
  · have hnat := congrArg BitVec.toNat hpage
    simp only [pageNumber, BitVec.extractLsb'_toNat, Nat.shiftRight_eq_div_pow,
      BitVec.ofNat_eq_ofNat, BitVec.toNat_ofNat] at hnat
    omega

/-- User memory of that child: a copy that leaves the two pages copies nothing. -/
def Uaccess.forked : Uaccess ((Word → Byte) × Bool × Bool) where
  memory s := s.1
  tables s := forkedTables s.2.1 s.2.2
  kernelAddress a := a.msb
  unread _ a n := if mayUse a n then 0 else n
  unwritten _ a n := if mayUse a n then 0 else n
  afterRead s _ _ := s
  afterWrite s a bs :=
    (writeBytes s.1 a (bs.take (bs.length - if mayUse a bs.length then 0 else bs.length)),
      s.2.1 || (mayUse a bs.length && touches 1 a bs.length),
      s.2.2 || (mayUse a bs.length && touches 2 a bs.length))
  unread_le _ a n := by
    cases mayUse a n <;> simp
  unwritten_le _ a n := by
    cases mayUse a n <;> simp
  memory_afterRead _ _ _ := rfl
  memory_afterWrite _ _ _ := rfl
  unwritten_kernel _ a n h := by
    by_cases hn : n = 0
    · simp [hn]
    · rw [mayUse_of_msb h hn]
      rfl

/-- Page 1, until the child has written to it. -/
def forkedPages (s : (Word → Byte) × Bool × Bool) (page : BitVec 52) : Prop :=
  page = 1 ∧ s.2.1 = false

theorem forkedTables_read (copied noticed : Bool) {a : Word} {n : ℕ}
    (hcomplete : (if mayUse a n then 0 else n) = 0) :
    FaultsIn .fourLevel (forkedTables copied noticed) (forkedTables copied noticed) a n := by
  refine ⟨fun va e _ hend ↦ by rw [hend]; rfl, fun va _ hpage hend ↦ ?_, fun va _ _ hend ↦ ?_⟩
  · rcases (page_of_mayUse hcomplete hpage).2 with hone | htwo
    · exact ⟨_, pathEnd_private copied noticed hone⟩
    · exact ⟨_, pathEnd_shared copied noticed htwo⟩
  · rw [hend]
    exact fun p hp ↦ by simp at hp

theorem forked_write (s : (Word → Byte) × Bool × Bool) {a : Word} {n : ℕ}
    (hcomplete : (if mayUse a n then 0 else n) = 0) :
    Installs .fourLevel (forkedPages s) (forkedTables s.2.1 s.2.2)
      (forkedTables (s.2.1 || (mayUse a n && touches 1 a n))
        (s.2.2 || (mayUse a n && touches 2 a n))) a n := by
  obtain ⟨memory, copied, noticed⟩ := s
  refine ⟨fun va hva _ hnot ↦ ?_, fun va hva hpage hneeds ↦ ?_⟩
  · by_cases hone : pageNumber va = 1
    · -- page 1 keeps its frame only if it was copied before or is not touched
      have hsame : (copied || (mayUse a n && touches 1 a n)) = copied := by
        cases copied with
        | true => rfl
        | false =>
            rw [Bool.false_or, Bool.eq_false_iff, ne_eq, Bool.and_eq_true]
            rintro ⟨_, htouch⟩
            obtain ⟨i, hi, hi'⟩ := touches_iff.mp htouch
            refine hnot ⟨⟨i, hi, hi'.trans hone.symm⟩, ?_⟩
            have hprotected : writable (privatePte false) = false := by decide
            rw [pathEnd_private _ _ hone]
            exact ⟨hprotected, hone, rfl⟩
      rw [hsame, pathEnd_private _ _ hone, pathEnd_private _ _ hone]
      exact ⟨smallOrEmpty_small _, rfl⟩
    · by_cases htwo : pageNumber va = 2
      · rw [pathEnd_shared _ _ htwo, pathEnd_shared _ _ htwo]
        refine ⟨smallOrEmpty_small _, ?_⟩
        have hframe : ∀ b, frame (sharedPte b) = 0x20 := by decide
        simp only [smallFrame, hframe]
      · rw [pathEnd_elsewhere _ _ hva hone htwo, pathEnd_elsewhere _ _ hva hone htwo]
        exact ⟨fun p hp ↦ by simp at hp, rfl⟩
  · obtain ⟨huse, hone | htwo⟩ := page_of_mayUse hcomplete hpage
    · obtain ⟨i, hi, hi'⟩ := hpage
      have htouch : touches 1 a n = true := touches_iff.mpr ⟨i, hi, hi'.trans hone⟩
      rw [pathEnd_private _ _ hone] at hneeds
      obtain rfl : copied = false := hneeds.2.2
      have hnew :
          smallFrame (some (.small (privatePte false))) ≠ some (frame (privatePte true)) := by
        decide
      rw [huse, htouch, pathEnd_private _ _ hone, pathEnd_private _ _ hone]
      exact ⟨privatePte true, rfl, by decide, hnew⟩
    · rw [pathEnd_shared _ _ htwo] at hneeds
      exact absurd (htwo.symm.trans hneeds.2.1) (by decide)

theorem forked_demandPaging : DemandPaging .forked .fourLevel forkedPages where
  read s _ _ hcomplete := forkedTables_read s.2.1 s.2.2 hcomplete
  write s _ _ hcomplete := forked_write s hcomplete
  kernel s a bs h := by
    have hnone : ∀ page, (mayUse a bs.length && touches page a bs.length) = false := by
      intro page
      by_cases hn : bs.length = 0
      · simp [hn, touches]
      · rw [mayUse_of_msb h hn]
        rfl
    change forkedTables (s.2.1 || (mayUse a bs.length && touches 1 a bs.length))
      (s.2.2 || (mayUse a bs.length && touches 2 a bs.length)) = forkedTables s.2.1 s.2.2
    rw [hnone, hnone, Bool.or_false, Bool.or_false]

def StackFrame.forked : StackFrame Uaccess.forked where
  room := 16384
  lengthAddress := 0xffffc90000003e00
  garbage _ := 0
  lengthAddress_kernel := by decide

/-- The list at 0x1000 asks for the addresses 0x1100 and 0x2100. -/
def listMemory : Word → Byte := fun x ↦ if x = 0x1001 then 0x11 else if x = 0x1009 then 0x21 else 0

def forkedChild : (Word → Byte) × Bool × Bool := (listMemory, false, false)

theorem requestedAddress_forkedChild :
    requestedAddress .forked forkedChild 0x1000 0 = 0x1100 ∧
      requestedAddress .forked forkedChild 0x1000 1 = 0x2100 := by decide

/-- Two addresses, one on each page; the result begins on page 1 and ends on page 2. -/
theorem answers_at_return_forked :
    ∃ ret, myGetPhysicalAddresses .forked (.x86 .fourLevel) .forked forkedChild
        0x1000 2 0x1ff8 2 = some ret ∧
      ∀ i < (2 : BitVec 32).toNat,
        readWord (Uaccess.forked.memory ret.state) (0x1ff8 + BitVec.ofNat 64 (8 * i)) =
            translation .fourLevel (Uaccess.forked.tables (transformState .forked forkedChild
              0x1000 2)) (requestedAddress .forked forkedChild 0x1000 i) ∧
          (readWord (Uaccess.forked.memory ret.state) (0x1ff8 + BitVec.ofNat 64 (8 * i)) =
              translation .fourLevel (Uaccess.forked.tables ret.state)
                (requestedAddress .forked forkedChild 0x1000 i) ↔
            ¬(OnPageOf 0x1ff8 (8 * (2 : BitVec 32).toNat)
                (requestedAddress .forked forkedChild 0x1000 i) ∧
              NeedsFrameToWrite
                (forkedPages (transformState .forked forkedChild 0x1000 2)
                  (pageNumber (requestedAddress .forked forkedChild 0x1000 i)))
                (pathEnd .fourLevel (Uaccess.forked.tables (transformState .forked forkedChild
                  0x1000 2)) (requestedAddress .forked forkedChild 0x1000 i)))) := by
  obtain ⟨hzero, hone⟩ := requestedAddress_forkedChild
  refine answers_at_return .forked (.x86 .fourLevel) forked_demandPaging .forked
    forkedChild 0x1000 2 0x1ff8 2 (by decide) (by decide) (by decide) ?_ ?_
  · intro i hi
    obtain rfl | rfl : i = 0 ∨ i = 1 := by have : i < 2 := hi; omega
    · rw [hzero]
      decide
    · rw [hone]
      decide
  · intro i hi
    obtain rfl | rfl : i = 0 ∨ i = 1 := by have : i < 2 := hi; omega
    · rw [hzero]
      exact fun p hp ↦ ⟨_, Option.some.inj (hp.symm.trans (pathEnd_private false false rfl))⟩
    · rw [hone]
      exact fun p hp ↦ ⟨_, Option.some.inj (hp.symm.trans (pathEnd_shared false false rfl))⟩

/-- The child asks for addresses on the pages of its result. The first answer is the frame it
still shared with the parent when the translation was computed; writing the answer gave the
child a frame of its own. -/
theorem forked_answer_outdated :
    ∃ ret, myGetPhysicalAddresses .forked (.x86 .fourLevel) .forked forkedChild
        0x1000 2 0x1ff8 2 = some ret ∧
      requestedAddress .forked forkedChild 0x1000 0 = 0x1100 ∧
      readWord (Uaccess.forked.memory ret.state) 0x1ff8 = 0x10100 ∧
      translation .fourLevel (Uaccess.forked.tables ret.state) 0x1100 = 0x11100 := by
  obtain ⟨hrequested, _⟩ := requestedAddress_forkedChild
  obtain ⟨ret, hcall, hstate, hresults, _⟩ :=
    myGetPhysicalAddresses_complete .forked (.x86 .fourLevel) .forked forkedChild
      0x1000 2 0x1ff8 2 (by decide) (by decide) (by decide)
  refine ⟨ret, hcall, hrequested, ?_, ?_⟩
  · have hresult := hresults 0 (by decide)
    rw [hrequested] at hresult
    exact hresult.trans (by decide)
  · have hcopied : ret.state.2.1 = true := by
      rw [hstate]
      decide
    change translation .fourLevel (forkedTables ret.state.2.1 ret.state.2.2) 0x1100 = 0x11100
    rw [hcopied]
    cases ret.state.2.2 <;> decide

end NcuKernel.Paging
