import Mathlib.Data.Nat.Bitwise
import Mathlib.Tactic.Ring
import NcuKernel.Library.RadixWalk

/-!
# Page tables of x86-64

Memory is read as tables: a frame number and a 9-bit index select a 64-bit entry.
The reference is the walk of the processor in the two paging modes. The macros of
the kernel that the repository calls are a structure: what each of them computes
is a field, and the fields that follow say what is known of it.
-/

namespace NcuKernel.Paging

open Radix

abbrev Word := BitVec 64

abbrev Frame := BitVec 40

abbrev Slot := Frame × BitVec 9

inductive PagingMode where
  | fourLevel
  | fiveLevel
  deriving DecidableEq, Repr

/-- The memory that tables live in, and the frame of the top-level table. -/
structure Mm where
  mem : Frame → BitVec 9 → Word
  pgd : Frame

def Mm.read (mm : Mm) (slot : Slot) : Word := mm.mem slot.1 slot.2

/-! ## Entries and addresses -/

def frame (e : Word) : Frame := e.extractLsb' 12 40

def present (e : Word) : Bool := e.getLsbD 0

theorem ne_zero_of_present {e : Word} (he : present e = true) : e ≠ 0 := by
  rintro rfl
  simp [present] at he

def pageSizeBit (e : Word) : Bool := e.getLsbD 7

def indexAt (shift : ℕ) (va : Word) : BitVec 9 := va.extractLsb' shift 9

def PagingMode.pgdShift : PagingMode → ℕ
  | .fourLevel => 39
  | .fiveLevel => 48

def PagingMode.bits (mode : PagingMode) : ℕ := mode.pgdShift + 9

/-- All bits from the highest translated one on are equal. -/
def canonical (mode : PagingMode) (va : Word) : Bool :=
  va.toNat < 2 ^ (mode.bits - 1) || 2 ^ 64 - 2 ^ (mode.bits - 1) ≤ va.toNat

def canonicalUser (mode : PagingMode) (va : Word) : Bool := va.toNat < 2 ^ (mode.bits - 1)

theorem canonical_of_user {mode : PagingMode} {va : Word} (h : canonicalUser mode va = true) :
    canonical mode va = true := by
  have hlt : va.toNat < 2 ^ (mode.bits - 1) := by simpa [canonicalUser] using h
  simp [canonical, hlt]

/-- The address with the given base and the low `n` bits of `va`. -/
def physical {w : ℕ} (n : ℕ) (base : BitVec w) (va : Word) : Word :=
  (base ++ va.extractLsb' 0 n).setWidth 64

theorem physical_toNat {w n : ℕ} (base : BitVec w) (va : Word) (h : w + n ≤ 64) :
    (physical n base va).toNat = base.toNat * 2 ^ n + va.toNat % 2 ^ n := by
  have hlow : (va.extractLsb' 0 n).toNat = va.toNat % 2 ^ n := by simp
  have hlt : va.toNat % 2 ^ n < 2 ^ n := Nat.mod_lt _ (Nat.two_pow_pos n)
  have hbase : base.toNat < 2 ^ w := base.isLt
  have hpow : 2 ^ (w + n) ≤ 2 ^ 64 := Nat.pow_le_pow_right (by decide) h
  have hsum : base.toNat * 2 ^ n + va.toNat % 2 ^ n < 2 ^ 64 := by
    calc
      base.toNat * 2 ^ n + va.toNat % 2 ^ n < base.toNat * 2 ^ n + 2 ^ n := by omega
      _ = (base.toNat + 1) * 2 ^ n := by ring
      _ ≤ 2 ^ w * 2 ^ n := Nat.mul_le_mul_right _ hbase
      _ = 2 ^ (w + n) := (pow_add 2 w n).symm
      _ ≤ 2 ^ 64 := hpow
  unfold physical
  rw [BitVec.toNat_setWidth, BitVec.toNat_append, hlow, ← Nat.shiftLeft_add_eq_or_of_lt hlt,
    Nat.shiftLeft_eq, Nat.mod_eq_of_lt hsum]

theorem physical_eq_iff {f f' : Frame} {va va' : Word} :
    physical 12 f va = physical 12 f' va' ↔
      f = f' ∧ va.toNat % 4096 = va'.toNat % 4096 := by
  have hva := physical_toNat f va (show 40 + 12 ≤ 64 by decide)
  have hva' := physical_toNat f' va' (show 40 + 12 ≤ 64 by decide)
  constructor
  · intro h
    rw [h] at hva
    refine ⟨BitVec.eq_of_toNat_eq ?_, ?_⟩ <;> omega
  · rintro ⟨rfl, hlow⟩
    apply BitVec.eq_of_toNat_eq
    omega

theorem physical_eq_zero_iff {f : Frame} {va : Word} :
    physical 12 f va = 0 ↔ f = 0 ∧ va.toNat % 4096 = 0 := by
  have hzero : physical 12 (0 : Frame) 0 = 0 := by decide
  rw [← hzero]
  exact physical_eq_iff

/-! ## The walk of the processor -/

abbrev PageLevel := Level Word Frame (BitVec 9) Word Word

def tableLevel (shift : ℕ) : PageLevel where
  index := indexAt shift
  decode _ e := if present e then .table (frame e) else .empty

/-- A level at which a set page-size bit ends the walk with a large page. -/
def leafLevel (shift : ℕ) : PageLevel where
  index := indexAt shift
  decode va e :=
    if present e then
      if pageSizeBit e then .page (physical shift (e.extractLsb' shift (52 - shift)) va)
      else .table (frame e)
    else .empty

def lastLevel : PageLevel where
  index := indexAt 12
  decode va e := if present e then .page (physical 12 (frame e) va) else .empty

def mmuLevels : PagingMode → List PageLevel
  | .fourLevel => [tableLevel 39, leafLevel 30, leafLevel 21, lastLevel]
  | .fiveLevel => [tableLevel 48, tableLevel 39, leafLevel 30, leafLevel 21, lastLevel]

/-- The physical address the processor uses, or nothing if it faults. -/
def mmuWalk (mode : PagingMode) (mm : Mm) (va : Word) : Option Word :=
  if canonical mode va then walk mm.mem va (mmuLevels mode) mm.pgd else none

end NcuKernel.Paging
