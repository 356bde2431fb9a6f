import OperateSystem.Bitmap

/-!
# Runs of clear bits

`bitmap_scan` skips full bytes, finds the first clear bit, and from there extends
a run of clear bits that starts over behind every set bit. What it returns is the
first run of the length asked for. It looks at one bit behind the bitmap, and a
bitmap without a clear bit fails its `ASSERT`.
-/

namespace OperateSystem

variable {btmp : Bitmap} {cnt : Nat}

def Bitmap.Clear (btmp : Bitmap) (s cnt : Nat) : Prop := ∀ i, s ≤ i → i < s + cnt → btmp.bit i = false

/-! ## The first clear bit -/

theorem skipFull_cases (btmp : Bitmap) :
    (skipFull btmp.bits btmp.btmpBytesLen 0 = btmp.btmpBytesLen ∧ ∀ i < 8 * btmp.btmpBytesLen, btmp.bit i = true) ∨
    ∃ k, skipFull btmp.bits btmp.btmpBytesLen 0 < btmp.btmpBytesLen ∧
      skipFull btmp.bits btmp.btmpBytesLen 0 * 8 + lowClear (btmp.bits (skipFull btmp.bits btmp.btmpBytesLen 0)) 8 0 = k ∧
      k < 8 * btmp.btmpBytesLen ∧ btmp.bit k = false ∧ ∀ j < k, btmp.bit j = true := by
  have hf := skipFull_full btmp.bits btmp.btmpBytesLen 0
  obtain ⟨-, hle, hne⟩ := skipFull_spec btmp.bits btmp.btmpBytesLen 0
  have hall : ∀ i < 8, (0xff : UInt8).toBitVec.getLsbD i = true := by decide
  have hb : ∀ j, j / 8 < skipFull btmp.bits btmp.btmpBytesLen 0 → btmp.bit j = true := fun j hj => by
    unfold Bitmap.bit
    rw [hf _ (Nat.zero_le _) hj]
    exact hall _ (by omega)
  generalize skipFull btmp.bits btmp.btmpBytesLen 0 = idx at *
  by_cases hend : idx = btmp.btmpBytesLen
  · exact .inl ⟨hend, fun i hi => hb i (by omega)⟩
  have hset := lowClear_set (btmp.bits idx) 8 0
  obtain ⟨hlt, hc⟩ := lowClear_spec (btmp.bits idx) 8 0 rfl (exists_clear_bit (hne (by omega)))
  generalize lowClear (btmp.bits idx) 8 0 = k at *
  refine .inr ⟨idx * 8 + k, by omega, rfl, by omega, ?_, fun j hj => ?_⟩
  · unfold Bitmap.bit
    rw [show (idx * 8 + k) / 8 = idx by omega, show (idx * 8 + k) % 8 = k by omega]
    exact hc
  · by_cases hby : j / 8 < idx
    · exact hb j hby
    · unfold Bitmap.bit
      rw [show j / 8 = idx by omega]
      exact hset _ le_rfl (Nat.zero_le _) (by omega)

/-! ## The run -/

/-- The clear run before `next` that the third loop has counted. -/
structure RunSoFar (btmp : Bitmap) (cnt next count : Nat) : Prop where
  short : count < cnt
  le : count ≤ next
  clear : btmp.Clear (next - count) count
  front : next = count ∨ btmp.bit (next - count - 1) = true
  none : ∀ t, t + cnt ≤ next → ¬ btmp.Clear t cnt

theorem RunSoFar.from_start {next count : Nat} (h : RunSoFar btmp cnt next count) {t : Nat} (ht : btmp.Clear t cnt) : next - count ≤ t := by
  by_contra hlt
  have hle := h.le
  rcases Nat.lt_or_ge next (t + cnt) with hend | hend
  · rcases h.front with hz | hset
    · omega
    · have := ht (next - count - 1) (by omega) (by have := h.short; omega)
      rw [hset] at this
      cases this
  · exact h.none t hend ht

theorem RunSoFar.set {next count : Nat} (h : RunSoFar btmp cnt next count) (hb : btmp.bit next = true) : RunSoFar btmp cnt (next + 1) 0 := by
  have hs := h.short
  refine ⟨by omega, Nat.zero_le _, fun i h1 h2 => by omega, .inr hb, fun t ht hc => ?_⟩
  by_cases hend : t + cnt ≤ next
  · exact h.none t hend hc
  · have := hc next (by omega) (by omega)
    rw [hb] at this
    cases this

theorem RunSoFar.extend {next count : Nat} (h : RunSoFar btmp cnt next count) (hb : btmp.bit next = false) :
    btmp.Clear (next - count) (count + 1) := by
  have hle := h.le
  intro i h1 h2
  by_cases hi : i = next
  · rw [hi]
    exact hb
  · exact h.clear i h1 (by omega)

theorem RunSoFar.clear_step {next count : Nat} (h : RunSoFar btmp cnt next count) (hb : btmp.bit next = false) (hne : count + 1 ≠ cnt) :
    RunSoFar btmp cnt (next + 1) (count + 1) := by
  have hle := h.le
  have hs := h.short
  refine ⟨by omega, by omega, ?_, ?_, fun t ht hc => ?_⟩
  · rw [Nat.add_sub_add_right]
    exact h.extend hb
  · rw [Nat.add_sub_add_right]
    rcases h.front with hz | hset
    · exact .inl (by omega)
    · exact .inr hset
  · have := h.from_start hc
    omega

theorem scanRun_first : ∀ (n next count : Nat), RunSoFar btmp cnt next count →
    (∃ s, scanRun btmp cnt n next count = some s ∧ s + cnt ≤ next + n ∧ btmp.Clear s cnt ∧ ∀ t, btmp.Clear t cnt → s ≤ t) ∨
    (scanRun btmp cnt n next count = none ∧ ∀ t, t + cnt ≤ next + n → ¬ btmp.Clear t cnt)
  | 0, next, count, h => .inr ⟨rfl, h.none⟩
  | n + 1, next, count, h => by
    have hs := h.short
    have hle := h.le
    unfold scanRun
    dsimp only
    rw [scanTest_eq, show next + (n + 1) = next + 1 + n by omega]
    cases hb : btmp.bit next with
    | true =>
      rw [if_pos rfl, if_neg (by omega)]
      exact scanRun_first n (next + 1) 0 (h.set hb)
    | false =>
      simp only [Bool.false_eq_true, if_false]
      by_cases hf : count + 1 = cnt
      · rw [if_pos hf]
        refine .inl ⟨next + 1 - cnt, rfl, by omega, ?_, fun t ht => ?_⟩
        · rw [← hf, Nat.add_sub_add_right]
          exact h.extend hb
        · have := h.from_start ht
          omega
      · rw [if_neg hf]
        exact scanRun_first n (next + 1) (count + 1) (h.clear_step hb hf)

/-! ## `bitmap_scan` -/

theorem bitmapScan_full (h : ∀ i < 8 * btmp.btmpBytesLen, btmp.bit i = true) :
    bitmapScan .debug btmp cnt = .error (.assertion "idx_byte < btmp->btmp_bytes_len") := by
  rcases skipFull_cases btmp with ⟨hend, -⟩ | ⟨k, -, -, hk, hc, -⟩
  · unfold bitmapScan
    dsimp only
    rw [hend]
    unfold assert
    rw [if_neg (Nat.lt_irrefl _)]
    rfl
  · rw [h k hk] at hc
    cases hc

theorem bitmapScan_first (hc : 1 ≤ cnt) (h : ∃ i < 8 * btmp.btmpBytesLen, btmp.bit i = false) :
    (∃ s, bitmapScan .debug btmp cnt = .ok (some s) ∧ btmp.Clear s cnt ∧ ∀ t, btmp.Clear t cnt → s ≤ t) ∨
    (bitmapScan .debug btmp cnt = .ok none ∧ ∀ t, t + cnt ≤ 8 * btmp.btmpBytesLen + 1 → ¬ btmp.Clear t cnt) := by
  obtain ⟨i, hi, hbit⟩ := h
  rcases skipFull_cases btmp with ⟨-, hfu⟩ | ⟨k, hidx, hk, hlt, hcl, hlow⟩
  · rw [hfu i hi] at hbit
    cases hbit
  have hf : ∀ t, btmp.Clear t cnt → k ≤ t := fun t ht => by
    by_contra hc'
    have := ht t le_rfl (by omega)
    rw [hlow t (by omega)] at this
    cases this
  unfold bitmapScan
  dsimp only
  rw [assert_of _ hidx, ok_bind, if_neg (Nat.ne_of_lt hidx), hk]
  by_cases hone : cnt = 1
  · subst hone
    rw [if_pos rfl]
    refine .inl ⟨k, rfl, fun j h1 h2 => ?_, hf⟩
    obtain rfl : j = k := by omega
    exact hcl
  · rw [if_neg hone]
    have hso : RunSoFar btmp cnt (k + 1) 1 := by
      refine ⟨by omega, by omega, fun j h1 h2 => ?_, ?_, fun t ht hrun => ?_⟩
      · obtain rfl : j = k := by omega
        exact hcl
      · by_cases hz : k = 0
        · exact .inl (by omega)
        · exact .inr (hlow _ (by omega))
      · have := hf t hrun
        omega
    rcases scanRun_first (btmp.btmpBytesLen * 8 - k) (k + 1) 1 hso with ⟨s, hs, -, hrun, hmin⟩ | ⟨hs, hn⟩
    · exact .inl ⟨s, by rw [hs]; rfl, hrun, hmin⟩
    · exact .inr ⟨by rw [hs]; rfl, fun t ht => hn t (by omega)⟩

theorem bitmapScan_free (b : Build) (h : btmp.freeBits ≠ []) : ∃ s, bitmapScan b btmp 1 = .ok (some s) := by
  obtain ⟨i, hi⟩ := List.exists_mem_of_ne_nil _ h
  obtain ⟨hlt, hbit⟩ := Bitmap.mem_freeBits.mp hi
  rcases skipFull_cases btmp with ⟨-, hf⟩ | ⟨k, hidx, -⟩
  · rw [hf i hlt] at hbit
    cases hbit
  · unfold bitmapScan
    dsimp only
    rw [assert_of _ hidx, ok_bind, if_neg (Nat.ne_of_lt hidx), if_pos rfl]
    exact ⟨_, rfl⟩

theorem bitmapScan_ndebug_full (h : btmp.freeBits = []) : bitmapScan .ndebug btmp 1 = .ok none := by
  rcases skipFull_cases btmp with ⟨hend, -⟩ | ⟨k, -, -, hk, hc, -⟩
  · unfold bitmapScan
    dsimp only
    rw [assert_ndebug, ok_bind, if_pos hend]
    rfl
  · have := Bitmap.mem_freeBits.mpr ⟨hk, hc⟩
    rw [h] at this
    cases this

/-- **`bitmap_scan` is first-fit.** -/
theorem bitmap_scan_first_fit (hc : 1 ≤ cnt) (h : ∃ t, t + cnt ≤ 8 * btmp.btmpBytesLen ∧ btmp.Clear t cnt) :
    ∃ s, bitmapScan .debug btmp cnt = .ok (some s) ∧ s + cnt ≤ 8 * btmp.btmpBytesLen ∧ btmp.Clear s cnt ∧
      ∀ t, t + cnt ≤ 8 * btmp.btmpBytesLen → btmp.Clear t cnt → s ≤ t := by
  obtain ⟨t, hin, hrun⟩ := h
  rcases bitmapScan_first hc ⟨t, by omega, hrun t le_rfl (by omega)⟩ with ⟨s, hs, hcl, hmin⟩ | ⟨-, hn⟩
  · have := hmin t hrun
    exact ⟨s, hs, by omega, hcl, fun u _ hu => hmin u hu⟩
  · exact absurd hrun (hn t (by omega))

def holeByte : Bitmap := .ofBytes 1 fun _ => 0x0b

theorem bitmap_scan_first_fit_hole : ∃ s, bitmapScan .debug holeByte 3 = .ok (some s) ∧ s + 3 ≤ 8 ∧ holeByte.Clear s 3 ∧
    ∀ t, t + 3 ≤ 8 → holeByte.Clear t 3 → s ≤ t := by
  have hrun : holeByte.Clear 4 3 := fun i h1 h2 => by
    have : ∀ i < 7, 4 ≤ i → holeByte.bit i = false := by decide
    exact this i h2 h1
  exact bitmap_scan_first_fit (by decide) ⟨4, by decide, hrun⟩

def Bitmap.SameBytes (btmp btmp' : Bitmap) : Prop :=
  btmp'.btmpBytesLen = btmp.btmpBytesLen ∧ ∀ a < btmp.btmpBytesLen, btmp'.bits a = btmp.bits a

theorem Bitmap.SameBytes.bit {btmp' : Bitmap} (h : btmp.SameBytes btmp') {i : Nat} (hi : i < 8 * btmp.btmpBytesLen) :
    btmp'.bit i = btmp.bit i := by
  unfold Bitmap.bit
  rw [h.2 _ (by omega)]

def Bitmap.clearBehind (btmp : Bitmap) : Bitmap := { btmp with bits := fun a => if a < btmp.btmpBytesLen then btmp.bits a else 0 }

theorem Bitmap.clearBehind_same (btmp : Bitmap) : btmp.SameBytes btmp.clearBehind := ⟨rfl, fun _ ha => if_pos ha⟩

theorem Bitmap.clearBehind_bit {i : Nat} (hi : 8 * btmp.btmpBytesLen ≤ i) : btmp.clearBehind.bit i = false := by
  unfold Bitmap.bit clearBehind
  dsimp only
  rw [if_neg (by omega)]
  simp

/-- **`bitmap_scan` reports that there is no run**, whatever lies behind the bitmap, iff
there is a clear bit and the last `cnt - 1` bits are not all clear. -/
theorem bitmap_scan_exhausted_iff (hc : 1 ≤ cnt) (hnone : ∀ t, t + cnt ≤ 8 * btmp.btmpBytesLen → ¬ btmp.Clear t cnt) :
    (∀ btmp', btmp.SameBytes btmp' → bitmapScan .debug btmp' cnt = .ok none) ↔
      (∃ i < 8 * btmp.btmpBytesLen, btmp.bit i = false) ∧
        ¬ (cnt ≤ 8 * btmp.btmpBytesLen + 1 ∧ btmp.Clear (8 * btmp.btmpBytesLen + 1 - cnt) (cnt - 1)) := by
  constructor
  · intro h
    have hcl : ∃ i < 8 * btmp.btmpBytesLen, btmp.bit i = false := by
      by_contra hf
      have hall : ∀ i < 8 * btmp.btmpBytesLen, btmp.bit i = true := fun i hi => by
        by_contra hbit
        exact hf ⟨i, hi, by simpa using hbit⟩
      have := h btmp ⟨rfl, fun _ _ => rfl⟩
      rw [bitmapScan_full hall] at this
      cases this
    refine ⟨hcl, fun ⟨hle, ht⟩ => ?_⟩
    -- with a clear bit behind the bitmap the run is long enough
    obtain ⟨i, hi, hbit⟩ := hcl
    have hsa := btmp.clearBehind_same
    have hrun : btmp.clearBehind.Clear (8 * btmp.btmpBytesLen + 1 - cnt) cnt := fun j h1 h2 => by
      by_cases hj : j < 8 * btmp.btmpBytesLen
      · rw [hsa.bit hj]
        exact ht j h1 (by omega)
      · exact Bitmap.clearBehind_bit (by omega)
    have hfr : ∃ i < 8 * btmp.clearBehind.btmpBytesLen, btmp.clearBehind.bit i = false := ⟨i, hi, (hsa.bit hi).trans hbit⟩
    rcases bitmapScan_first hc hfr with ⟨s, hs, -⟩ | ⟨-, hno⟩
    · rw [h _ hsa] at hs
      cases hs
    · refine hno _ ?_ hrun
      show _ ≤ 8 * btmp.btmpBytesLen + 1
      omega
  · rintro ⟨⟨i, hi, hbit⟩, ht⟩ btmp' hsa
    have hlen := hsa.1
    rcases bitmapScan_first hc ⟨i, by rwa [hlen], (hsa.bit hi).trans hbit⟩ with ⟨s, hs, hrun, -⟩ | ⟨hs, -⟩
    · have hb := bitmapScan_bound hs
      rw [hlen] at hb
      by_cases hin : s + cnt ≤ 8 * btmp.btmpBytesLen
      · refine absurd (fun j h1 h2 => ?_) (hnone s hin)
        rw [← hsa.bit (by omega)]
        exact hrun j h1 h2
      · refine absurd ⟨by omega, fun j h1 h2 => ?_⟩ ht
        rw [← hsa.bit (by omega)]
        exact hrun j (by omega) (by omega)
    · exact hs

theorem bitmap_scan_exhausted_hole : holeByte.SameBytes holeByte.clearBehind ∧ bitmapScan .debug holeByte.clearBehind 6 = .ok none := by
  have hset : holeByte.bit 3 = true := by decide
  have hn : ∀ t, t + 6 ≤ 8 * holeByte.btmpBytesLen → ¬ holeByte.Clear t 6 := fun t ht hrun => by
    have ht : t + 6 ≤ 8 := ht
    rw [hrun 3 (by omega) (by omega)] at hset
    cases hset
  have hl : ¬ (6 ≤ 8 * holeByte.btmpBytesLen + 1 ∧ holeByte.Clear (8 * holeByte.btmpBytesLen + 1 - 6) (6 - 1)) := fun hc => by
    rw [hc.2 3 (by decide) (by decide)] at hset
    cases hset
  have hall := (bitmap_scan_exhausted_iff (by decide) hn).mpr ⟨⟨2, by decide, by decide⟩, hl⟩
  exact ⟨holeByte.clearBehind_same, hall _ holeByte.clearBehind_same⟩

def fullByte : Bitmap := .ofBytes 1 fun _ => 0xff

/-- A full bitmap fails the `ASSERT`, and a run at the end counts the bit behind the bitmap. -/
theorem bitmap_scan_not_exhausted :
    (∀ t, t + 1 ≤ 8 → ¬ fullByte.Clear t 1) ∧ (bitmapScan .debug fullByte 1).isOk = false ∧
    (∀ t, t + 5 ≤ 8 → ¬ holeByte.Clear t 5) ∧ bitmapScan .debug holeByte.clearBehind 5 = .ok (some 4) := by
  refine ⟨fun t ht h => ?_, by decide +kernel, fun t ht h => ?_, by decide +kernel⟩
  · have : ∀ i < 8, fullByte.bit i = true := by decide
    have hset := this t (by omega)
    rw [h t le_rfl (by omega)] at hset
    cases hset
  · have hset : holeByte.bit 3 = true := by decide
    rw [h 3 (by omega) (by omega)] at hset
    cases hset

end OperateSystem
