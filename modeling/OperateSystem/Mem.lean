import Mathlib

/-!
# Byte memory

A memory object (a disk, a buffer, a page) is a function from addresses to
bytes. Copying is `blit`, clearing is `fill`, and a little-endian word is read
by `word` and laid out by `wordBytes`.
-/

namespace OperateSystem
variable {dst m src : Mem} {a d k n s : Nat}

abbrev Mem := Nat → UInt8

def blit (dst : Mem) (d : Nat) (src : Mem) (s n : Nat) : Mem := fun k =>
  if d ≤ k ∧ k < d + n then src (s + (k - d)) else dst k

def fill (m : Mem) (a n : Nat) (v : UInt8) : Mem := fun k =>
  if a ≤ k ∧ k < a + n then v else m k

theorem blit_in (h1 : d ≤ k) (h2 : k < d + n) :
    blit dst d src s n k = src (s + (k - d)) := if_pos ⟨h1, h2⟩

theorem blit_out (h : k < d ∨ d + n ≤ k) : blit dst d src s n k = dst k :=
  if_neg (by omega)

theorem fill_in {v : UInt8} (h1 : a ≤ k) (h2 : k < a + n) : fill m a n v k = v :=
  if_pos ⟨h1, h2⟩

theorem fill_out {v : UInt8} (h : k < a ∨ a + n ≤ k) : fill m a n v k = m k :=
  if_neg (by omega)

theorem fill_eq_blit (m : Mem) (a n : Nat) (v : UInt8) : fill m a n v = blit m a (fun _ => v) 0 n := rfl

theorem blit_patch (m buf src : Mem) {off len : Nat} (h : off + n ≤ len) :
    blit m a (blit (blit buf 0 m a len) off src 0 n) 0 len = blit m (a + off) src 0 n := by
  funext k
  by_cases hk : a ≤ k ∧ k < a + len
  · rw [blit_in hk.1 hk.2]
    by_cases hp : a + off ≤ k ∧ k < a + off + n
    · rw [blit_in (by omega) (by omega), blit_in hp.1 hp.2]
      congr 1; omega
    · rw [blit_out (by omega), blit_in (by omega) (by omega), blit_out (by omega)]
      congr 1; omega
  · rw [blit_out (by omega), blit_out (by omega)]

/-! ## Little-endian words -/

def word (m : Mem) (a : Nat) : UInt32 :=
  .ofNat ((m a).toNat + 256 * (m (a + 1)).toNat + 65536 * (m (a + 2)).toNat + 16777216 * (m (a + 3)).toNat)

def wordByte (w : UInt32) (j : Nat) : UInt8 := .ofNat (w.toNat / 256 ^ j)

def wordBytes (w : Nat → UInt32) : Mem := fun k => wordByte (w (k / 4)) (k % 4)

theorem word_congr {m' : Mem} {a' : Nat} (h : ∀ j < 4, m (a + j) = m' (a' + j)) : word m a = word m' a' := by
  unfold word
  have h0 := h 0 (by omega)
  rw [Nat.add_zero, Nat.add_zero] at h0
  rw [h0, h 1 (by omega), h 2 (by omega), h 3 (by omega)]

theorem word_of_bytes {w : UInt32} (h : ∀ j < 4, m (a + j) = wordByte w j) : word m a = w := by
  have h0 := h 0 (by omega)
  rw [Nat.add_zero] at h0
  have hw := w.toNat_lt
  apply UInt32.toNat.inj
  unfold word
  rw [h0, h 1 (by omega), h 2 (by omega), h 3 (by omega)]
  simp only [wordByte, UInt32.toNat_ofNat', UInt8.toNat_ofNat']
  omega

theorem word_wordBytes (w : Nat → UInt32) (i : Nat) : word (wordBytes w) (4 * i) = w i := by
  apply word_of_bytes
  intro j hj
  unfold wordBytes
  rw [show (4 * i + j) / 4 = i by omega, show (4 * i + j) % 4 = j by omega]

theorem word_blit_in (h1 : d ≤ a) (h2 : a + 4 ≤ d + n) :
    word (blit dst d src s n) a = word src (s + (a - d)) :=
  word_congr fun j hj => by rw [blit_in (by omega) (by omega)]; congr 1; omega

/-! ## Masks -/

theorem and_mask (n k m : Nat) : n &&& (2 ^ m - 1) <<< k = n / 2 ^ k % 2 ^ m * 2 ^ k := by
  refine Nat.eq_of_testBit_eq fun i => ?_
  rw [Nat.testBit_and, Nat.testBit_shiftLeft, Nat.testBit_two_pow_sub_one, Nat.testBit_mul_two_pow, Nat.testBit_mod_two_pow,
    Nat.testBit_div_two_pow]
  by_cases hk : k ≤ i
  · rw [Nat.sub_add_cancel hk]
    simp [hk, Bool.and_comm]
  · simp [hk]

/-! ## Signed and unsigned words -/

theorem toInt_sub_small {p q : Int32} (h : -2 ^ 31 ≤ p.toInt - q.toInt) (h' : p.toInt - q.toInt < 2 ^ 31) :
    (p - q).toInt = p.toInt - q.toInt := by
  rw [Int32.toInt_sub]
  exact Int.bmod_eq_of_le (by omega) (by omega)

theorem toNat_toUInt32 {p : Int32} (h : 0 ≤ p.toInt) : p.toUInt32.toNat = p.toInt.toNat := by
  show p.toBitVec.toNat = p.toBitVec.toInt.toNat
  have h : 0 ≤ p.toBitVec.toInt := h
  rw [BitVec.toInt_eq_toNat_cond] at *
  split at * <;> omega

theorem toInt_toInt32 (n : UInt32) : n.toInt32.toInt = if n.toNat < 2 ^ 31 then (n.toNat : Int) else n.toNat - 2 ^ 32 := by
  show n.toBitVec.toInt = if n.toBitVec.toNat < 2 ^ 31 then (n.toBitVec.toNat : Int) else n.toBitVec.toNat - 2 ^ 32
  rw [BitVec.toInt_eq_toNat_cond]
  split <;> split <;> omega

theorem toUInt32_le_of_lt_size {n : UInt32} {k : Int32} (h : ¬ (k < 0 ∨ k > n.toInt32 - 1)) : k.toUInt32 ≤ n := by
  have h0 := Int32.le_iff_toInt_le.mp (Int32.not_lt.mp fun e => h (.inl e))
  have h1 := Int32.le_iff_toInt_le.mp (Int32.not_lt.mp fun e => h (.inr e))
  have hn := toInt_toInt32 n
  have hlt := n.toNat_lt
  have hk := k.toInt_lt
  rw [UInt32.le_iff_toNat_le, toNat_toUInt32 h0]
  by_cases hmin : n.toNat = 2 ^ 31
  · omega
  · have hone : (1 : Int32).toInt = 1 := rfl
    have hsub : (n.toInt32 - 1).toInt = n.toInt32.toInt - (1 : Int32).toInt := toInt_sub_small (by split at hn <;> omega) (by split at hn <;> omega)
    rw [hsub] at h1
    split at hn <;> omega

end OperateSystem
