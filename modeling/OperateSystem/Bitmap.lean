import OperateSystem.Exec
import OperateSystem.Mem

/-!
# Bitmaps

`lib/kernel/bitmap.c`. `bits` is the memory at the bitmap's address, so a scan
that runs past `btmp_bytes_len` reads whatever lies behind the bitmap.
-/

namespace OperateSystem
variable {btmp : Bitmap} {b : Build} {cnt i s : Nat}

structure Bitmap where
  btmpBytesLen : Nat
  bits : Mem
  /-- Every bitmap lies in kernel memory, so its bit indices fit an `int`. -/
  len_lt : btmpBytesLen < 2 ^ 28

def Bitmap.ofBytes (len : Nat) (bits : Mem) : Bitmap := ⟨len % 2 ^ 28, bits, Nat.mod_lt _ (by decide)⟩

def Bitmap.bit (btmp : Bitmap) (i : Nat) : Bool := (btmp.bits (i / 8)).toBitVec.getLsbD (i % 8)

def bitmapInit (btmp : Bitmap) : Bitmap := { btmp with bits := fill btmp.bits 0 btmp.btmpBytesLen 0 }

def bitMask (k : Nat) : UInt8 := 1 <<< UInt8.ofNat k

def bitmapScanTest (btmp : Bitmap) (bitIdx : Nat) : Bool :=
  btmp.bits (bitIdx / 8) &&& bitMask (bitIdx % 8) != 0

/-- `value` is `0` or `1` in every call, as the function's `ASSERT` demands. -/
def bitmapSet (btmp : Bitmap) (bitIdx : Nat) (value : Bool) : Bitmap :=
  { btmp with bits := fun a =>
      if a = bitIdx / 8 then
        if value then btmp.bits a ||| bitMask (bitIdx % 8) else btmp.bits a &&& ~~~bitMask (bitIdx % 8)
      else btmp.bits a }

/-- The first loop of `bitmap_scan`: skip bytes without a clear bit. -/
def skipFull (bits : Mem) : Nat → Nat → Nat
  | 0, idxByte => idxByte
  | n + 1, idxByte => if bits idxByte = 0xff then skipFull bits n (idxByte + 1) else idxByte

def lowClear (byte : UInt8) : Nat → Nat → Nat
  | 0, idxBit => idxBit
  | n + 1, idxBit => if bitMask idxBit &&& byte ≠ 0 then lowClear byte n (idxBit + 1) else idxBit

/-- The third loop: extend the run of `count` clear bits that ends before
`nextBit`, starting over behind every set bit. -/
def scanRun (btmp : Bitmap) (cnt : Nat) : Nat → Nat → Nat → Option Nat
  | 0, _, _ => none
  | bitLeft + 1, nextBit, count =>
    let count := if bitmapScanTest btmp nextBit then 0 else count + 1
    if count = cnt then some (nextBit + 1 - cnt) else scanRun btmp cnt bitLeft (nextBit + 1) count

/-- `none` is the return value `-1`. -/
def bitmapScan (b : Build) (btmp : Bitmap) (cnt : Nat) : Exec (Option Nat) := do
  let idxByte := skipFull btmp.bits btmp.btmpBytesLen 0
  assert b (idxByte < btmp.btmpBytesLen) "idx_byte < btmp->btmp_bytes_len"
  if idxByte = btmp.btmpBytesLen then
    return none
  let bitIdxStart := idxByte * 8 + lowClear (btmp.bits idxByte) 8 0
  if cnt = 1 then
    return some bitIdxStart
  return scanRun btmp cnt (btmp.btmpBytesLen * 8 - bitIdxStart) (bitIdxStart + 1) 1

/-! ## Single bits -/

theorem mask_getLsbD {k j : Nat} (hk : k < 8) (hj : j < 8) : (bitMask k).toBitVec.getLsbD j = decide (j = k) := by
  have : ∀ k < 8, ∀ j < 8, (bitMask k).toBitVec.getLsbD j = decide (j = k) := by decide
  exact this k hk j hj

theorem and_mask_ne_zero {x : UInt8} {k : Nat} (hk : k < 8) :
    x &&& bitMask k ≠ 0 ↔ x.toBitVec.getLsbD k = true := by
  rw [Ne, ← UInt8.toBitVec_inj, BitVec.eq_of_getLsbD_eq_iff]
  simp only [UInt8.toBitVec_and, BitVec.getLsbD_and, UInt8.toBitVec_ofNat, BitVec.getLsbD_zero]
  constructor
  · intro h
    by_contra hx
    refine h fun i hi => ?_
    rw [mask_getLsbD hk hi]
    by_cases hik : i = k
    · subst hik; simp [hx]
    · simp [hik]
  · intro hx h
    have := h k hk
    rw [mask_getLsbD hk hk, hx] at this
    simp at this

theorem scanTest_eq (btmp : Bitmap) (i : Nat) : bitmapScanTest btmp i = btmp.bit i := by
  unfold bitmapScanTest Bitmap.bit
  rw [Bool.eq_iff_iff, bne_iff_ne]
  exact and_mask_ne_zero (Nat.mod_lt _ (by omega))

theorem bitmapSet_len (btmp : Bitmap) (i : Nat) (v : Bool) : (bitmapSet btmp i v).btmpBytesLen = btmp.btmpBytesLen :=
  rfl

theorem bit_bitmapSet (btmp : Bitmap) (i j : Nat) (v : Bool) :
    (bitmapSet btmp i v).bit j = if j = i then v else btmp.bit j := by
  have hi : i % 8 < 8 := Nat.mod_lt _ (by omega)
  have hj : j % 8 < 8 := Nat.mod_lt _ (by omega)
  unfold Bitmap.bit bitmapSet
  by_cases hb : j / 8 = i / 8
  · have hij : j % 8 = i % 8 ↔ j = i := by omega
    cases v <;>
      simp only [hb, ite_true, Bool.false_eq_true, ite_false, UInt8.toBitVec_or, UInt8.toBitVec_and,
        UInt8.toBitVec_not, BitVec.getLsbD_or, BitVec.getLsbD_and, BitVec.getLsbD_not, mask_getLsbD hi hj,
        hij, hj, decide_true, Bool.true_and]
    · by_cases h : j = i <;> simp [h]
    · by_cases h : j = i <;> simp [h]
  · have : j ≠ i := fun h => hb (by rw [h])
    simp [hb, this]

theorem Bitmap.ext_bit {b1 b2 : Bitmap} (hlen : b1.btmpBytesLen = b2.btmpBytesLen) (h : ∀ i, b1.bit i = b2.bit i) :
    b1 = b2 := by
  have hb : b1.bits = b2.bits := by
    funext a
    rw [← UInt8.toBitVec_inj, BitVec.eq_of_getLsbD_eq_iff]
    intro j hj
    have := h (8 * a + j)
    unfold Bitmap.bit at this
    rwa [show (8 * a + j) / 8 = a by omega, show (8 * a + j) % 8 = j by omega] at this
  cases b1; cases b2
  subst hlen hb
  rfl

theorem bitmapSet_undo (h : btmp.bit i = false) : bitmapSet (bitmapSet btmp i true) i false = btmp := by
  refine Bitmap.ext_bit rfl fun j => ?_
  rw [bit_bitmapSet, bit_bitmapSet]
  split
  · rename_i hj
    rw [hj, h]
  · rfl

theorem bitmapSet_same (h : btmp.bit i = true) : bitmapSet btmp i true = btmp := by
  refine Bitmap.ext_bit rfl fun j => ?_
  rw [bit_bitmapSet]
  split
  · rename_i hj
    rw [hj, h]
  · rfl

/-! ## Scanning -/

theorem skipFull_spec (bits : Mem) : ∀ n idx, idx ≤ skipFull bits n idx ∧ skipFull bits n idx ≤ idx + n ∧
    (skipFull bits n idx < idx + n → bits (skipFull bits n idx) ≠ 0xff)
  | 0, idx => by simp [skipFull]
  | n + 1, idx => by
    have ih := skipFull_spec bits n (idx + 1)
    by_cases h : bits idx = 0xff
    · simp only [skipFull, h, ite_true]
      exact ⟨by omega, by omega, fun hl => ih.2.2 (by omega)⟩
    · simp [skipFull, h]

theorem lowClear_spec (byte : UInt8) : ∀ n k, k + n = 8 → (∃ j, k ≤ j ∧ j < 8 ∧ byte.toBitVec.getLsbD j = false) →
    lowClear byte n k < 8 ∧ byte.toBitVec.getLsbD (lowClear byte n k) = false
  | 0, k, hk, ⟨j, h1, h2, _⟩ => by omega
  | n + 1, k, hk, ⟨j, h1, h2, h3⟩ => by
    have hm := and_mask_ne_zero (x := byte) (k := k) (by omega)
    rw [UInt8.and_comm] at hm
    unfold lowClear
    split
    · rename_i h
      have hj : k ≠ j := fun e => by subst e; rw [hm.mp h] at h3; cases h3
      exact lowClear_spec byte n (k + 1) (by omega) ⟨j, by omega, h2, h3⟩
    · rename_i h
      exact ⟨by omega, by simpa using fun e => h (hm.mpr e)⟩

theorem exists_clear_bit {x : UInt8} (h : x ≠ 0xff) : ∃ j, 0 ≤ j ∧ j < 8 ∧ x.toBitVec.getLsbD j = false := by
  by_contra hn
  apply h
  rw [← UInt8.toBitVec_inj, BitVec.eq_of_getLsbD_eq_iff]
  intro i hi
  have hx : x.toBitVec.getLsbD i = true := by
    cases hb : x.toBitVec.getLsbD i with
    | true => rfl
    | false => exact absurd ⟨i, Nat.zero_le _, hi, hb⟩ hn
  rw [hx]
  have : ∀ i < 8, true = (0xff : UInt8).toBitVec.getLsbD i := by decide
  exact this i hi

theorem scanRun_sound (btmp : Bitmap) (cnt : Nat) : ∀ n next count, count ≤ next →
    (∀ i, next - count ≤ i → i < next → btmp.bit i = false) →
    ∀ s, scanRun btmp cnt n next count = some s → s + cnt ≤ next + n ∧ ∀ i, s ≤ i → i < s + cnt → btmp.bit i = false
  | 0, _, _, _, _, s, h => by simp [scanRun] at h
  | n + 1, next, count, hle, hrun, s, h => by
    simp only [scanRun, scanTest_eq] at h
    have hs : ∀ i, next + 1 - (if btmp.bit next then 0 else count + 1) ≤ i → i < next + 1 →
        btmp.bit i = false := by
      intro i h1 h2
      split at h1
      · omega
      · rename_i hb
        by_cases hi : i = next
        · subst hi; simpa using hb
        · exact hrun i (by omega) (by omega)
    have hle' : (if btmp.bit next then 0 else count + 1) ≤ next + 1 := by split <;> omega
    generalize (if btmp.bit next = true then 0 else count + 1) = count' at *
    split at h
    · rename_i hc
      cases h
      rw [hc] at hs hle'
      exact ⟨by omega, fun i h1 h2 => hs i h1 (by omega)⟩
    · have := scanRun_sound btmp cnt n (next + 1) _ hle' hs s h
      exact ⟨by omega, this.2⟩

/-- **Soundness of `bitmap_scan`.** A returned run of at least one bit is
clear; it may end one bit behind the bitmap, except for a single bit. -/
theorem bitmapScan_sound (h : bitmapScan b btmp cnt = .ok (some s)) :
    (∀ i, s ≤ i → i < s + cnt → btmp.bit i = false) ∧ (cnt = 1 → s < 8 * btmp.btmpBytesLen) := by
  unfold bitmapScan at h
  rw [bind_ok] at h
  obtain ⟨_, _, h⟩ := h
  obtain ⟨_, hle, hne⟩ := skipFull_spec btmp.bits btmp.btmpBytesLen 0
  generalize skipFull btmp.bits btmp.btmpBytesLen 0 = idx at *
  split at h
  · simp at h
  rename_i hlen
  have hlow := lowClear_spec (btmp.bits idx) 8 0 rfl (exists_clear_bit (hne (by omega)))
  generalize lowClear (btmp.bits idx) 8 0 = k at *
  have hbit : btmp.bit (idx * 8 + k) = false := by
    unfold Bitmap.bit
    rw [show (idx * 8 + k) / 8 = idx by omega, show (idx * 8 + k) % 8 = k by omega]
    exact hlow.2
  split at h
  · rename_i hone
    simp only [pure_ok, Except.ok.injEq, Option.some.injEq] at h
    refine ⟨fun i h1 h2 => ?_, fun _ => by omega⟩
    rw [show i = idx * 8 + k by omega]; exact hbit
  · rename_i hone
    simp only [pure_ok, Except.ok.injEq] at h
    have := scanRun_sound btmp cnt _ (idx * 8 + k + 1) 1 (by omega)
      (fun i h1 h2 => by rw [show i = idx * 8 + k by omega]; exact hbit) s h
    exact ⟨this.2, fun e => absurd e hone⟩

theorem scanRun_bound (btmp : Bitmap) (cnt : Nat) : ∀ n next count s, count ≤ next → scanRun btmp cnt n next count = some s →
    s + cnt ≤ next + n
  | 0, _, _, _, _, h => by cases h
  | n + 1, next, count, s, hle, h => by
    unfold scanRun at h
    dsimp only at h
    have hc : (if bitmapScanTest btmp next then 0 else count + 1) ≤ next + 1 := by split <;> omega
    generalize (if bitmapScanTest btmp next then 0 else count + 1) = c at h hc
    split at h
    · cases h
      omega
    · have := scanRun_bound btmp cnt n (next + 1) c s hc h
      omega

theorem bitmapScan_bound (h : bitmapScan b btmp cnt = .ok (some s)) :
    s + cnt ≤ 8 * btmp.btmpBytesLen + 1 := by
  have hone := (bitmapScan_sound h).2
  by_cases h1 : cnt = 1
  · omega
  obtain ⟨-, -, h⟩ := bind_ok.mp h
  obtain ⟨-, hle, hne⟩ := skipFull_spec btmp.bits btmp.btmpBytesLen 0
  generalize skipFull btmp.bits btmp.btmpBytesLen 0 = idx at *
  split at h
  · cases h
  · next hlen =>
    have hlow := lowClear_spec (btmp.bits idx) 8 0 rfl (exists_clear_bit (hne (by omega)))
    simp only [pure_ok, Except.ok.injEq] at h
    have := scanRun_bound btmp cnt _ _ 1 s (by omega) h
    omega

theorem bitmapScan_error {f : Fault} (h : bitmapScan b btmp cnt = .error f) :
    f = .assertion "idx_byte < btmp->btmp_bytes_len" := by
  unfold bitmapScan at h
  dsimp only at h
  generalize skipFull btmp.bits btmp.btmpBytesLen 0 = idx at h
  cases ha : assert b (idx < btmp.btmpBytesLen) "idx_byte < btmp->btmp_bytes_len" with
  | error e =>
    rw [ha, error_bind] at h
    cases h
    exact assert_error ha
  | ok u =>
    rw [ha, ok_bind] at h
    split at h
    · simp at h
    · split at h <;> simp at h

theorem bitmapScan_one (btmp : Bitmap) : bitmapScan .debug btmp 1 ≠ .ok none := by
  intro h
  unfold bitmapScan at h
  rw [bind_ok] at h
  obtain ⟨_, hlt, h⟩ := h
  rw [assert_debug_ok] at hlt
  rw [if_neg (by omega)] at h
  cases h

/-! ## The free bits -/

def Bitmap.freeBits (btmp : Bitmap) : List Nat := (List.range (8 * btmp.btmpBytesLen)).filter fun i => btmp.bit i = false

theorem skipFull_full (bits : Mem) : ∀ n idx j, idx ≤ j → j < skipFull bits n idx → bits j = 0xff
  | 0, idx, j, h1, h2 => by
    unfold skipFull at h2
    omega
  | n + 1, idx, j, h1, h2 => by
    unfold skipFull at h2
    split at h2
    · rename_i h
      by_cases hj : j = idx
      · rwa [hj]
      · exact skipFull_full bits n (idx + 1) j (by omega) h2
    · omega

theorem lowClear_set (byte : UInt8) : ∀ n k j, k + n ≤ 8 → k ≤ j → j < lowClear byte n k → byte.toBitVec.getLsbD j = true
  | 0, k, j, hk, h1, h2 => by
    unfold lowClear at h2
    omega
  | n + 1, k, j, hk, h1, h2 => by
    have hm := and_mask_ne_zero (x := byte) (k := k) (by omega)
    rw [UInt8.and_comm] at hm
    unfold lowClear at h2
    split at h2
    · rename_i h
      by_cases hj : j = k
      · rw [hj]
        exact hm.mp h
      · exact lowClear_set byte n (k + 1) j (by omega) (by omega) h2
    · omega

theorem bitmapScan_lowest (h : bitmapScan b btmp 1 = .ok (some s)) :
    ∀ j < s, btmp.bit j = true := by
  obtain ⟨_, -, h⟩ := bind_ok.mp h
  have hf := skipFull_full btmp.bits btmp.btmpBytesLen 0
  obtain ⟨-, hle, hne⟩ := skipFull_spec btmp.bits btmp.btmpBytesLen 0
  generalize skipFull btmp.bits btmp.btmpBytesLen 0 = idx at *
  split at h
  · cases h
  have hset := lowClear_set (btmp.bits idx) 8 0
  have hlow := (lowClear_spec (btmp.bits idx) 8 0 rfl (exists_clear_bit (hne (by omega)))).1
  simp only [ite_true, pure_ok, Except.ok.injEq, Option.some.injEq] at h
  intro j hj
  unfold Bitmap.bit
  by_cases hb : j / 8 < idx
  · rw [hf _ (Nat.zero_le _) hb]
    have : ∀ i < 8, (0xff : UInt8).toBitVec.getLsbD i = true := by decide
    exact this _ (by omega)
  · rw [show j / 8 = idx by omega]
    exact hset _ le_rfl (Nat.zero_le _) (by omega)

theorem Bitmap.mem_freeBits : i ∈ btmp.freeBits ↔ i < 8 * btmp.btmpBytesLen ∧ btmp.bit i = false := by
  simp [freeBits]

theorem Bitmap.freeBits_sorted (btmp : Bitmap) : btmp.freeBits.Pairwise (· < ·) := List.pairwise_lt_range.filter _

theorem Bitmap.freeBits_scan (h : bitmapScan b btmp 1 = .ok (some s)) :
    btmp.freeBits = s :: (bitmapSet btmp s true).freeBits := by
  obtain ⟨hc, hlt⟩ := bitmapScan_sound h
  have hbit := hc s le_rfl (by omega)
  refine (btmp.freeBits_sorted).eq_of_mem_iff ?_ fun i => ?_
  · refine List.pairwise_cons.mpr ⟨fun i hi => ?_, (bitmapSet btmp s true).freeBits_sorted⟩
    obtain ⟨-, hi⟩ := mem_freeBits.mp hi
    rw [bit_bitmapSet] at hi
    by_contra hle
    rcases Nat.lt_or_eq_of_le (Nat.not_lt.mp hle) with hlow | rfl
    · rw [if_neg (by omega), bitmapScan_lowest h i hlow] at hi
      cases hi
    · simp at hi
  · rw [List.mem_cons, mem_freeBits, mem_freeBits, bit_bitmapSet, bitmapSet_len]
    by_cases his : i = s
    · simp [his, hlt, hbit]
    · simp [his]

end OperateSystem
