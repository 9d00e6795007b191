import NcuKernel.Library.Bytes
import NcuKernel.Paging.AddressTransform

/-!
# `my_get_physical_addresses`

The system call copies a list of addresses in, transforms each of them, and copies
the results out. It keeps what the three copies return in variables that it never
reads, and returns 0.
-/

namespace NcuKernel.Paging

open Bytes

/-! ## User memory -/

/-- The user side of a system call: the memory, the page tables, and the outcome of
each copy. `unread` and `unwritten` are the numbers of bytes a copy leaves; faults
taken on the way may change the tables. -/
structure Uaccess (σ : Type) where
  memory : σ → Word → Byte
  tables : σ → Mm
  kernelAddress : Word → Bool
  unread : σ → Word → ℕ → ℕ
  unwritten : σ → Word → ℕ → ℕ
  afterRead : σ → Word → ℕ → σ
  afterWrite : σ → Word → List Byte → σ
  unread_le : ∀ s a n, unread s a n ≤ n
  unwritten_le : ∀ s a n, unwritten s a n ≤ n
  memory_afterRead : ∀ s a n, memory (afterRead s a n) = memory s
  memory_afterWrite : ∀ s a bs, memory (afterWrite s a bs) =
    writeBytes (memory s) a (bs.take (bs.length - unwritten s a bs.length))
  unwritten_kernel : ∀ s a n, kernelAddress a = true → unwritten s a n = n

variable {σ : Type} (U : Uaccess σ)

/-- The bytes of the destination, with the part that could not be read zeroed, and the
number of bytes not copied. -/
def copyFromUser (s : σ) (src : Word) (n : ℕ) : σ × List Byte × ℕ :=
  let left := U.unread s src n
  (U.afterRead s src n, readBytes (U.memory s) src (n - left) ++ List.replicate left 0, left)

def copyToUser (s : σ) (dst : Word) (bs : List Byte) : σ × ℕ :=
  (U.afterWrite s dst bs, U.unwritten s dst bs.length)

/-! ## The system call -/

/-- The stack frame of the call: the room that is left for the two arrays, the address
of the parameter `physical_address_length`, and what the arrays hold at first. -/
structure StackFrame where
  room : ℕ
  lengthAddress : Word
  garbage : ℕ → Word
  lengthAddress_kernel : U.kernelAddress lengthAddress = true

/-- `sizeof(unsigned long)*virtual_address_length`: the `int` is converted first. -/
def byteCount (virtualAddressLength : BitVec 32) : Word :=
  8 * virtualAddressLength.signExtend 64

def StackFrame.fits {U : Uaccess σ} (F : StackFrame U) (virtualAddressLength : BitVec 32) : Bool :=
  0 ≤ virtualAddressLength.toInt && 16 * virtualAddressLength.toNat ≤ F.room

variable {mode : PagingMode} (M : PgtableMacros mode)

/-- The loop from turn `i` on, with the number of turns left. -/
def transformLoop (mm : Mm) (virtualAddress : List Word) :
    ℕ → ℕ → List Word × List Printk → List Word × List Printk
  | _, 0, acc => acc
  | i, k + 1, (physicalAddress, log) =>
      let r := addressTransform M mm (virtualAddress.getD i 0)
      transformLoop mm virtualAddress (i + 1) k
        (physicalAddress.set i r.1, log ++ .turn i :: r.2)

structure SyscallReturn (σ : Type) where
  state : σ
  value : ℤ
  log : List Printk

/-- There is no result when C gives the arrays no meaning: their length is negative or
the stack does not hold them. -/
def myGetPhysicalAddresses (F : StackFrame U) (s : σ) (initial : Word)
    (virtualAddressLength : BitVec 32) (result : Word) (_physicalAddressLength : BitVec 32) :
    Option (SyscallReturn σ) :=
  if F.fits virtualAddressLength then
    let n := virtualAddressLength.toNat
    let size := (byteCount virtualAddressLength).toNat
    let (s, bytes, _copyVirtualAddress) := copyFromUser U s initial size
    let virtualAddress := wordsOfBytes n bytes
    let (physicalAddress, log) := transformLoop M (U.tables s) virtualAddress 0 n
      ((List.range n).map F.garbage, [.length virtualAddressLength.toInt])
    let (s, _copyPhysicalAddress) :=
      copyToUser U s result ((bytesOfWords physicalAddress).take size)
    let (s, _copyPhysicalLength) :=
      copyToUser U s F.lengthAddress
        ((bytesOfWord (virtualAddressLength.setWidth 64)).take 4)
    some ⟨s, 0, log⟩
  else none

/-! ## What the parts compute -/

theorem byteCount_toNat {n : BitVec 32} (hpos : 0 ≤ n.toInt) :
    (byteCount n).toNat = 8 * n.toNat := by
  have hmsb : n.msb = false := by
    rw [BitVec.msb_eq_toInt]
    simpa using hpos
  have hlt : n.toNat < 2 ^ 32 := n.isLt
  have hext : (n.signExtend 64).toNat = n.toNat := by
    rw [BitVec.signExtend_eq_setWidth_of_msb_false hmsb, BitVec.toNat_setWidth]
    omega
  rw [byteCount, BitVec.toNat_mul, hext]
  change 8 * n.toNat % 2 ^ 64 = 8 * n.toNat
  omega

theorem StackFrame.fits_iff {U : Uaccess σ} {F : StackFrame U} {n : BitVec 32} :
    F.fits n = true ↔ 0 ≤ n.toInt ∧ 16 * n.toNat ≤ F.room := by
  simp [fits]

/-- The invariant of the loop: the results of the turns taken stand in front. -/
theorem transformLoop_fst (mm : Mm) (va : List Word) (k : ℕ) {i : ℕ} {pa : List Word}
    {log : List Printk} (hpa : pa.length = va.length) (hk : i + k = va.length) :
    (transformLoop M mm va i k (pa, log)).1 =
      pa.take i ++ (va.drop i).map fun a ↦ (addressTransform M mm a).1 := by
  induction k generalizing i pa log with
  | zero =>
      have hi : i = va.length := by omega
      have hdrop : va.drop i = [] := List.drop_eq_nil_of_le (by omega)
      have htake : pa.take i = pa := List.take_of_length_le (by omega)
      simp [transformLoop, hdrop, htake]
  | succ k ih =>
      have hi : i < va.length := by omega
      have hipa : i < pa.length := by omega
      have hget : va.getD i 0 = va[i] := by simp [List.getD, hi]
      have hdrop : va.drop i = va[i] :: va.drop (i + 1) := List.drop_eq_getElem_cons hi
      have hlen : (pa.set i (addressTransform M mm (va.getD i 0)).1).length = va.length := by
        simpa using hpa
      have hprefix : (pa.set i (addressTransform M mm (va.getD i 0)).1).take (i + 1) =
          pa.take i ++ [(addressTransform M mm (va.getD i 0)).1] := by
        rw [List.take_succ_eq_append_getElem (by simpa using hipa), List.getElem_set_self,
          List.take_set_of_le (le_refl i)]
      rw [transformLoop, ih hlen (by omega), hprefix, hdrop, hget, List.map_cons,
        List.append_assoc]
      rfl

def transformState (s : σ) (initial : Word) (n : BitVec 32) : σ :=
  U.afterRead s initial (8 * n.toNat)

/-- What the array `virtual_address` holds when the loop starts. -/
def virtualAddresses (s : σ) (initial : Word) (n : BitVec 32) : List Word :=
  wordsOfBytes n.toNat (copyFromUser U s initial (8 * n.toNat)).2.1

/-- What the array `physical_address` holds when the loop ends. -/
def physicalAddresses (s : σ) (initial : Word) (n : BitVec 32) : List Word :=
  (virtualAddresses U s initial n).map fun va ↦
    (addressTransform M (U.tables (transformState U s initial n)) va).1

theorem virtualAddresses_length (s : σ) (initial : Word) (n : BitVec 32) :
    (virtualAddresses U s initial n).length = n.toNat := by
  simp [virtualAddresses, wordsOfBytes]

theorem physicalAddresses_length (s : σ) (initial : Word) (n : BitVec 32) :
    (physicalAddresses U M s initial n).length = n.toNat := by
  rw [physicalAddresses, List.length_map, virtualAddresses_length]

/-- A call whose arrays fit returns 0, after the two copies to user memory. -/
theorem myGetPhysicalAddresses_state (F : StackFrame U) (s : σ) (initial : Word) (n : BitVec 32)
    (result : Word) (m : BitVec 32) (hfits : F.fits n = true) :
    ∃ ret, myGetPhysicalAddresses U M F s initial n result m = some ret ∧ ret.value = 0 ∧
      ret.state = U.afterWrite (U.afterWrite (transformState U s initial n) result
        (bytesOfWords (physicalAddresses U M s initial n))) F.lengthAddress
          ((bytesOfWord (n.setWidth 64)).take 4) := by
  have hloop : (transformLoop M (U.tables (transformState U s initial n))
      (virtualAddresses U s initial n) 0 n.toNat
      ((List.range n.toNat).map F.garbage, [.length n.toInt])).1 =
        physicalAddresses U M s initial n := by
    have hvirtual := virtualAddresses_length U s initial n
    rw [transformLoop_fst M _ _ n.toNat (by simp [hvirtual]) (by omega)]
    rfl
  have hall : (bytesOfWords (physicalAddresses U M s initial n)).take (8 * n.toNat) =
      bytesOfWords (physicalAddresses U M s initial n) := by
    apply List.take_of_length_le
    rw [bytesOfWords_length, physicalAddresses_length]
  unfold myGetPhysicalAddresses
  rw [if_pos hfits, byteCount_toNat (StackFrame.fits_iff.mp hfits).1]
  refine ⟨_, rfl, rfl, ?_⟩
  rw [← hall, ← hloop]
  rfl

/-- Of the results the bytes that the second copy could write are in user memory. The
third copy writes nothing. -/
theorem myGetPhysicalAddresses_eq (F : StackFrame U) (s : σ) (initial : Word) (n : BitVec 32)
    (result : Word) (m : BitVec 32) (hfits : F.fits n = true) :
    ∃ ret, myGetPhysicalAddresses U M F s initial n result m = some ret ∧ ret.value = 0 ∧
      U.memory ret.state = writeBytes (U.memory s) result
        ((bytesOfWords (physicalAddresses U M s initial n)).take
          (8 * n.toNat - U.unwritten (transformState U s initial n) result (8 * n.toNat))) := by
  obtain ⟨ret, hcall, hzero, hstate⟩ :=
    myGetPhysicalAddresses_state U M F s initial n result m hfits
  have hlen : (bytesOfWords (physicalAddresses U M s initial n)).length = 8 * n.toNat := by
    rw [bytesOfWords_length, physicalAddresses_length]
  refine ⟨ret, hcall, hzero, ?_⟩
  rw [hstate, U.memory_afterWrite, U.unwritten_kernel _ _ _ F.lengthAddress_kernel,
    Nat.sub_self, List.take_zero, writeBytes_nil, U.memory_afterWrite, hlen]
  congr 1
  exact U.memory_afterRead s initial _

def requestedAddress (s : σ) (initial : Word) (i : ℕ) : Word :=
  readWord (U.memory s) (initial + BitVec.ofNat 64 (8 * i))

theorem virtualAddresses_of_read {s : σ} {initial : Word} {n : BitVec 32}
    (hread : U.unread s initial (8 * n.toNat) = 0) :
    virtualAddresses U s initial n =
      (List.range n.toNat).map fun i ↦
        readWord (U.memory s) (initial + BitVec.ofNat 64 (8 * i)) := by
  have hbytes : (copyFromUser U s initial (8 * n.toNat)).2.1 =
      readBytes (U.memory s) initial (8 * n.toNat) := by
    simp [copyFromUser, hread]
  rw [virtualAddresses, hbytes, wordsOfBytes_readBytes]

/-! ## The call end to end -/

/-- If both bulk copies succeed, every result is the transform of the address that stood in
the list before the call, under the tables that the first copy left, however the two
buffers overlap. No other byte of user memory changes. -/
theorem myGetPhysicalAddresses_complete (F : StackFrame U) (s : σ) (initial : Word)
    (n : BitVec 32) (result : Word) (m : BitVec 32) (hfits : F.fits n = true)
    (hread : U.unread s initial (8 * n.toNat) = 0)
    (hwrite : U.unwritten (transformState U s initial n) result (8 * n.toNat) = 0) :
    ∃ ret, myGetPhysicalAddresses U M F s initial n result m = some ret ∧
      ret.state = U.afterWrite (U.afterWrite (transformState U s initial n) result
        (bytesOfWords (physicalAddresses U M s initial n))) F.lengthAddress
          ((bytesOfWord (n.setWidth 64)).take 4) ∧
      (∀ i < n.toNat, readWord (U.memory ret.state) (result + BitVec.ofNat 64 (8 * i)) =
        (addressTransform M (U.tables (transformState U s initial n))
          (requestedAddress U s initial i)).1) ∧
      ∀ x : Word, 8 * n.toNat ≤ (x - result).toNat → U.memory ret.state x = U.memory s x := by
  obtain ⟨ret, hcall, _, hstate⟩ := myGetPhysicalAddresses_state U M F s initial n result m hfits
  obtain ⟨ret', hcall', _, hmemory⟩ := myGetPhysicalAddresses_eq U M F s initial n result m hfits
  obtain rfl : ret' = ret := Option.some.inj (hcall'.symm.trans hcall)
  have hlength := physicalAddresses_length U M s initial n
  have hlen : (bytesOfWords (physicalAddresses U M s initial n)).length = 8 * n.toNat := by
    rw [bytesOfWords_length, hlength]
  rw [hwrite, Nat.sub_zero, List.take_of_length_le (le_of_eq hlen)] at hmemory
  refine ⟨ret', hcall, hstate, fun i hi ↦ ?_, fun x hx ↦ ?_⟩
  · have hsmall : 8 * (physicalAddresses U M s initial n).length ≤ 2 ^ 64 := by
      have hlt : n.toNat < 2 ^ 32 := n.isLt
      omega
    rw [hmemory, readWord_writeBytes _ _ _ hsmall (by omega) 0, physicalAddresses,
      virtualAddresses_of_read U hread]
    simp [List.getD, hi, requestedAddress]
  · rw [hmemory]
    exact writeBytes_of_le (by omega)

/-- If moreover the tables do not change during the call, the results are those of the
tables before it. -/
theorem myGetPhysicalAddresses_end_to_end (F : StackFrame U) (s : σ) (initial : Word)
    (n : BitVec 32) (result : Word) (m : BitVec 32) (hfits : F.fits n = true)
    (hread : U.unread s initial (8 * n.toNat) = 0)
    (hwrite : U.unwritten (transformState U s initial n) result (8 * n.toNat) = 0)
    (htables : U.tables (transformState U s initial n) = U.tables s) :
    ∃ ret, myGetPhysicalAddresses U M F s initial n result m = some ret ∧
      (∀ i < n.toNat, readWord (U.memory ret.state) (result + BitVec.ofNat 64 (8 * i)) =
        (addressTransform M (U.tables s)
          (readWord (U.memory s) (initial + BitVec.ofNat 64 (8 * i)))).1) ∧
      ∀ x : Word, 8 * n.toNat ≤ (x - result).toNat → U.memory ret.state x = U.memory s x := by
  obtain ⟨ret, hcall, _, hresults, hframe⟩ :=
    myGetPhysicalAddresses_complete U M F s initial n result m hfits hread hwrite
  refine ⟨ret, hcall, fun i hi ↦ ?_, hframe⟩
  rw [hresults i hi, htables]
  rfl

/-- User memory whose lower half can be read and written throughout, beside page tables
that no copy changes. -/
def Uaccess.plain : Uaccess ((Word → Byte) × Mm) where
  memory s := s.1
  tables s := s.2
  kernelAddress a := a.msb
  unread _ _ _ := 0
  unwritten _ a n := if a.msb then n else 0
  afterRead s _ _ := s
  afterWrite s a bs :=
    (writeBytes s.1 a (bs.take (bs.length - if a.msb then bs.length else 0)), s.2)
  unread_le _ _ _ := Nat.zero_le _
  unwritten_le _ a n := by
    cases a.msb <;> simp
  memory_afterRead _ _ _ := rfl
  memory_afterWrite _ _ _ := rfl
  unwritten_kernel _ _ _ h := if_pos h

/-- The 16 KiB stack of an x86-64 kernel. -/
def StackFrame.x86 : StackFrame Uaccess.plain where
  room := 16384
  lengthAddress := 0xffffc90000003e00
  garbage _ := 0
  lengthAddress_kernel := by decide

def zeroMemory : Word → Byte := fun _ ↦ 0

/-- A list of three addresses at 0x1000, the second of which `selfMapped` does not map. -/
def threeAddresses : Word → Byte :=
  writeBytes zeroMemory 0x1000 (bytesOfWords [0x123, 0x1123, 0xabc])

theorem readWord_threeAddresses {i : ℕ} (hi : i < 3) :
    readWord threeAddresses (0x1000 + BitVec.ofNat 64 (8 * i)) =
      [0x123, 0x1123, 0xabc].getD i 0 :=
  readWord_writeBytes zeroMemory 0x1000 _ (by decide) hi 0

/-- The result begins at the second word of the list, which is read before it is overwritten. -/
theorem myGetPhysicalAddresses_shifted :
    ∃ ret, myGetPhysicalAddresses .plain (.x86 .fourLevel) .x86
        (threeAddresses, selfMapped) 0x1000 3 0x1008 3 = some ret ∧
      (∀ i < 3, readWord ret.state.1 (0x1008 + BitVec.ofNat 64 (8 * i)) =
        [0x1123, 0, 0x1abc].getD i 0) ∧
      ∀ x : Word, 24 ≤ (x - 0x1008).toNat → ret.state.1 x = threeAddresses x := by
  obtain ⟨ret, hcall, hresults, hframe⟩ :=
    myGetPhysicalAddresses_end_to_end .plain (.x86 .fourLevel) .x86 (threeAddresses, selfMapped)
      0x1000 3 0x1008 3 (by decide) rfl rfl rfl
  refine ⟨ret, hcall, fun i hi ↦ (hresults i hi).trans ?_, hframe⟩
  change (addressTransform (.x86 .fourLevel) selfMapped
    (readWord threeAddresses (0x1000 + BitVec.ofNat 64 (8 * i)))).1 = _
  rw [readWord_threeAddresses hi]
  obtain rfl | rfl | rfl : i = 0 ∨ i = 1 ∨ i = 2 := by omega
  all_goals decide

/-! ## Errors -/

/-- Both bulk copies are complete and every requested address has a translation. -/
def NothingFails (mode : PagingMode) (s : σ) (initial : Word) (n : BitVec 32) (result : Word) :
    Prop :=
  U.unread s initial (8 * n.toNat) = 0 ∧
    U.unwritten (transformState U s initial n) result (8 * n.toNat) = 0 ∧
    ∀ i < n.toNat, (mmuWalk mode (U.tables (transformState U s initial n))
      (requestedAddress U s initial i)).isSome

/-- The value is negative if something fails and 0 otherwise, and nothing is written to
the result after an incomplete read. -/
structure ErrorsReported (mode : PagingMode) (s : σ) (initial : Word) (n : BitVec 32)
    (result : Word) (ret : SyscallReturn σ) : Prop where
  negative : ¬ NothingFails U mode s initial n result → ret.value < 0
  zero : NothingFails U mode s initial n result → ret.value = 0
  atomic : U.unread s initial (8 * n.toNat) ≠ 0 →
    ∀ x : Word, (x - result).toNat < 8 * n.toNat → U.memory ret.state x = U.memory s x

theorem errorsReported_iff (F : StackFrame U) (s : σ) (initial : Word) (n : BitVec 32)
    (result : Word) (m : BitVec 32) (hfits : F.fits n = true) :
    ∃ ret, myGetPhysicalAddresses U M F s initial n result m = some ret ∧
      (ErrorsReported U mode s initial n result ret ↔
        NothingFails U mode s initial n result) := by
  obtain ⟨ret, hcall, hzero, _⟩ := myGetPhysicalAddresses_eq U M F s initial n result m hfits
  refine ⟨ret, hcall, ?_, ?_⟩
  · intro hreported
    by_contra hfails
    have hnegative := hreported.negative hfails
    omega
  · intro hnothing
    exact ⟨fun hfails ↦ absurd hnothing hfails, fun _ ↦ hzero,
      fun hread ↦ absurd hnothing.1 hread⟩

theorem errorsReported_iff_shifted :
    ∃ ret, myGetPhysicalAddresses .plain (.x86 .fourLevel) .x86
        (threeAddresses, selfMapped) 0x1000 3 0x1008 3 = some ret ∧
      (ErrorsReported .plain .fourLevel (threeAddresses, selfMapped) 0x1000 3 0x1008 ret ↔
        NothingFails .plain .fourLevel (threeAddresses, selfMapped) 0x1000 3 0x1008) :=
  errorsReported_iff .plain (.x86 .fourLevel) .x86 (threeAddresses, selfMapped) 0x1000 3 0x1008 3
    (by decide)

def unmapped : Mm := ⟨fun _ _ ↦ 0, 1⟩

/-- A request for an address that is not mapped returns 0. -/
theorem unmapped_not_reported :
    ∃ ret, myGetPhysicalAddresses .plain (.x86 .fourLevel) .x86
        (zeroMemory, unmapped) 0x1000 1 0x2000 1 = some ret ∧ ret.value = 0 ∧
      mmuWalk .fourLevel unmapped
        (requestedAddress .plain (zeroMemory, unmapped) 0x1000 0) = none ∧
      ¬ ErrorsReported .plain .fourLevel (zeroMemory, unmapped) 0x1000 1 0x2000 ret := by
  obtain ⟨ret, hcall, hzero, _⟩ := myGetPhysicalAddresses_eq .plain (.x86 .fourLevel) .x86
    (zeroMemory, unmapped) 0x1000 1 0x2000 1 (by decide)
  have hnone : mmuWalk .fourLevel unmapped
      (requestedAddress .plain (zeroMemory, unmapped) 0x1000 0) = none := by decide
  have hfails : ¬ NothingFails .plain .fourLevel (zeroMemory, unmapped) 0x1000 1 0x2000 := by
    intro hnothing
    have hsome : (mmuWalk .fourLevel unmapped
        (requestedAddress .plain (zeroMemory, unmapped) 0x1000 0)).isSome :=
      hnothing.2.2 0 (by decide)
    rw [hnone] at hsome
    exact absurd hsome (by decide)
  refine ⟨ret, hcall, hzero, hnone, fun hreported ↦ ?_⟩
  have hnegative := hreported.negative hfails
  omega

end NcuKernel.Paging
