import Mathlib.Data.List.GetD
import Mathlib.Data.List.Range
import Mathlib.Tactic.Ring

/-!
# Byte memories

A memory maps every address to a byte. Ranges wrap around at the end of the address
space, so whether an address lies in a range is decided by its offset from the start.
Words are little-endian.
-/

namespace NcuKernel.Bytes

abbrev Byte := BitVec 8

variable {w : ℕ}

def readBytes (m : BitVec w → Byte) (a : BitVec w) (n : ℕ) : List Byte :=
  (List.range n).map fun i ↦ m (a + BitVec.ofNat w i)

def writeBytes (m : BitVec w → Byte) (a : BitVec w) (bs : List Byte) : BitVec w → Byte :=
  fun x ↦ bs.getD (x - a).toNat (m x)

theorem toNat_add_sub_self (a : BitVec w) {i : ℕ} (hi : i < 2 ^ w) :
    (a + BitVec.ofNat w i - a).toNat = i := by
  have hcancel : a + BitVec.ofNat w i - a = BitVec.ofNat w i := by
    rw [BitVec.add_comm, BitVec.add_sub_cancel]
  rw [hcancel, BitVec.toNat_ofNat, Nat.mod_eq_of_lt hi]

theorem readBytes_getD (m : BitVec w → Byte) (a : BitVec w) {n i : ℕ} (hi : i < n) (d : Byte) :
    (readBytes m a n).getD i d = m (a + BitVec.ofNat w i) := by
  simp [readBytes, List.getD, hi]

theorem writeBytes_of_le {m : BitVec w → Byte} {a x : BitVec w} {bs : List Byte}
    (h : bs.length ≤ (x - a).toNat) : writeBytes m a bs x = m x := by
  unfold writeBytes
  exact List.getD_eq_default _ _ h

theorem writeBytes_add {m : BitVec w → Byte} {a : BitVec w} {bs : List Byte} {i : ℕ}
    (hi : i < 2 ^ w) (d : Byte) (hlt : i < bs.length) :
    writeBytes m a bs (a + BitVec.ofNat w i) = bs.getD i d := by
  unfold writeBytes
  rw [toNat_add_sub_self a hi]
  simp [List.getD, hlt]

@[simp] theorem writeBytes_nil (m : BitVec w → Byte) (a : BitVec w) : writeBytes m a [] = m := by
  funext x
  exact writeBytes_of_le (Nat.zero_le _)

/-! ## Words -/

def byteOf (x : BitVec 64) (j : ℕ) : Byte := x.extractLsb' (8 * j) 8

def wordOfBytes (f : ℕ → Byte) : BitVec 64 :=
  f 7 ++ (f 6 ++ (f 5 ++ (f 4 ++ (f 3 ++ (f 2 ++ (f 1 ++ f 0))))))

theorem wordOfBytes_byteOf (x : BitVec 64) : wordOfBytes (byteOf x) = x := by
  unfold wordOfBytes byteOf
  ext i hi
  simp only [BitVec.getElem_append, BitVec.getElem_extractLsb']
  split_ifs <;> grind

def bytesOfWord (x : BitVec 64) : List Byte := (List.range 8).map (byteOf x)

def bytesOfWords (ws : List (BitVec 64)) : List Byte := ws.flatMap bytesOfWord

def wordsOfBytes (n : ℕ) (bs : List Byte) : List (BitVec 64) :=
  (List.range n).map fun i ↦ wordOfBytes fun j ↦ bs.getD (8 * i + j) 0

def readWord (m : BitVec w → Byte) (a : BitVec w) : BitVec 64 :=
  wordOfBytes fun j ↦ m (a + BitVec.ofNat w j)

theorem wordOfBytes_congr {f g : ℕ → Byte} (h : ∀ j < 8, f j = g j) :
    wordOfBytes f = wordOfBytes g := by
  unfold wordOfBytes
  rw [h 0 (by decide), h 1 (by decide), h 2 (by decide), h 3 (by decide), h 4 (by decide),
    h 5 (by decide), h 6 (by decide), h 7 (by decide)]

theorem bytesOfWord_length (x : BitVec 64) : (bytesOfWord x).length = 8 := by
  simp [bytesOfWord]

theorem bytesOfWords_length (ws : List (BitVec 64)) :
    (bytesOfWords ws).length = 8 * ws.length := by
  induction ws with
  | nil => rfl
  | cons x ws ih =>
      have hcons : bytesOfWords (x :: ws) = bytesOfWord x ++ bytesOfWords ws := rfl
      rw [hcons, List.length_append, bytesOfWord_length, ih, List.length_cons]
      ring

theorem bytesOfWords_getD (ws : List (BitVec 64)) {i j : ℕ} (hi : i < ws.length) (hj : j < 8)
    (d : Byte) (e : BitVec 64) :
    (bytesOfWords ws).getD (8 * i + j) d = byteOf (ws.getD i e) j := by
  induction ws generalizing i with
  | nil => simp at hi
  | cons x ws ih =>
      have hcons : bytesOfWords (x :: ws) = bytesOfWord x ++ bytesOfWords ws := rfl
      rw [hcons]
      cases i with
      | zero =>
          have hfirst : 8 * 0 + j < (bytesOfWord x).length := by
            rw [bytesOfWord_length]
            omega
          rw [List.getD_append _ _ _ _ hfirst]
          simp [bytesOfWord, List.getD, hj]
      | succ i =>
          have hlater : (bytesOfWord x).length ≤ 8 * (i + 1) + j := by
            rw [bytesOfWord_length]
            omega
          have hi' : i < ws.length := by simpa using hi
          have hindex : 8 * (i + 1) + j - (bytesOfWord x).length = 8 * i + j := by
            rw [bytesOfWord_length]
            omega
          rw [List.getD_append_right _ _ _ _ hlater, hindex, ih hi']
          simp

/-- What was written as words is read back word by word. -/
theorem readWord_writeBytes (m : BitVec 64 → Byte) (a : BitVec 64) (ws : List (BitVec 64))
    (hlen : 8 * ws.length ≤ 2 ^ 64) {i : ℕ} (hi : i < ws.length) (e : BitVec 64) :
    readWord (writeBytes m a (bytesOfWords ws)) (a + BitVec.ofNat 64 (8 * i)) = ws.getD i e := by
  have hbyte : ∀ j < 8, writeBytes m a (bytesOfWords ws)
      (a + BitVec.ofNat 64 (8 * i) + BitVec.ofNat 64 j) = byteOf (ws.getD i e) j := by
    intro j hj
    have haddr : a + BitVec.ofNat 64 (8 * i) + BitVec.ofNat 64 j =
        a + BitVec.ofNat 64 (8 * i + j) := by
      rw [BitVec.add_assoc, BitVec.ofNat_add]
    have hlt : 8 * i + j < (bytesOfWords ws).length := by
      rw [bytesOfWords_length]
      omega
    rw [haddr, writeBytes_add (by omega) 0 hlt, bytesOfWords_getD ws hi hj 0 e]
  unfold readWord
  rw [wordOfBytes_congr hbyte, wordOfBytes_byteOf]

/-- Words decoded from bytes that were read are the words of the memory. -/
theorem wordsOfBytes_readBytes (m : BitVec 64 → Byte) (a : BitVec 64) (n : ℕ) :
    wordsOfBytes n (readBytes m a (8 * n)) =
      (List.range n).map fun i ↦ readWord m (a + BitVec.ofNat 64 (8 * i)) := by
  apply List.map_congr_left
  intro i hi
  have hi' : i < n := List.mem_range.mp hi
  apply wordOfBytes_congr
  intro j hj
  rw [readBytes_getD m a (by omega), BitVec.add_assoc, BitVec.ofNat_add]

end NcuKernel.Bytes
