import OperateSystem.FormatSound

/-!
# The registers of the disk controller

`select_sector`, `read_from_sector`, `write2sector` and the loops of `ide_read` and
`ide_write` in `device/ide.c`, down to what they store in the registers. The
device decodes the registers on its own: it transfers as many sectors as the count
says, where 0 means 256. A driver that moves fewer or more bytes hangs.
-/

namespace OperateSystem

open Function

namespace Ide

structure Regs where
  sectCnt : UInt8
  lbaL : UInt8
  lbaM : UInt8
  lbaH : UInt8
  dev : UInt8

def bitDevMbs : UInt32 := 0xa0

def bitDevLba : UInt32 := 0x40

def bitDevDev : UInt32 := 0x10

def selectSector (b : Build) (devNo : Fin 2) (lba : UInt32) (secCnt : UInt8) : Exec Regs := do
  assert b (lba.toNat ≤ maxLba) "lba <= max_lba"
  return ⟨secCnt, lba.toUInt8, (lba >>> 8).toUInt8, (lba >>> 16).toUInt8,
    (bitDevMbs ||| bitDevLba ||| (if devNo = 1 then bitDevDev else 0) ||| lba >>> 24).toUInt8⟩

def sizeInByte (secCnt : UInt8) : Nat := if secCnt = 0 then 256 * 512 else secCnt.toNat * 512

namespace Regs

/-! ## The device -/

def start (r : Regs) : Nat := r.lbaL.toNat + 256 * r.lbaM.toNat + 65536 * r.lbaH.toNat + 16777216 * (r.dev &&& 0xf).toNat

def count (r : Regs) : Nat := if r.sectCnt = 0 then 256 else r.sectCnt.toNat

def devNo (r : Regs) : Fin 2 := if r.dev &&& 0x10 = 0 then 0 else 1

def receive (r : Regs) (disks : Fin 2 → Mem) (data : Mem) (size : Nat) : Exec (Fin 2 → Mem) :=
  if size = 512 * r.count then
    return Function.update disks r.devNo (blit (disks r.devNo) (512 * r.start) data 0 size)
  else .error (.panic "the device waits for data")

def send (r : Regs) (disks : Fin 2 → Mem) (buf : Mem) (at' size : Nat) : Exec Mem :=
  if size = 512 * r.count then return blit buf at' (disks r.devNo) (512 * r.start) size
  else .error (.panic "the device waits to be read")

end Regs

/-! ## The loops -/

/-- The loop of `ide_read` and `ide_write`; a command is followed by a `transfer` of so many bytes. -/
def ideLoop {σ : Type} (b : Build) (devNo : Fin 2) (lba secCnt : UInt32) (transfer : Regs → UInt32 → Nat → σ → Exec σ) :
    Nat → UInt32 → σ → Exec σ
  | 0, _, s => .ok s
  | n + 1, secsDone, s =>
    if secsDone < secCnt then do
      let secsOp := if secsDone + 256 ≤ secCnt then 256 else secCnt - secsDone
      let r ← selectSector b devNo (lba + secsDone) secsOp.toUInt8
      let s ← transfer r secsDone (sizeInByte secsOp.toUInt8) s
      ideLoop b devNo lba secCnt transfer n (secsDone + secsOp) s
    else .ok s

def ideRead (b : Build) (devNo : Fin 2) (disks : Fin 2 → Mem) (lba : UInt32) (buf : Mem) (secCnt : UInt32) : Exec Mem := do
  assert b (lba.toNat ≤ maxLba) "lba <= max_lba"
  assert b (0 < secCnt) "sec_cnt > 0"
  ideLoop b devNo lba secCnt (fun r secsDone size buf => r.send disks buf (512 * secsDone.toNat) size) secCnt.toNat 0 buf

def ideWrite (b : Build) (devNo : Fin 2) (disks : Fin 2 → Mem) (lba : UInt32) (buf : Mem) (secCnt : UInt32) :
    Exec (Fin 2 → Mem) := do
  assert b (lba.toNat ≤ maxLba) "lba <= max_lba"
  assert b (0 < secCnt) "sec_cnt > 0"
  ideLoop b devNo lba secCnt (fun r secsDone size disks => r.receive disks (fun k => buf (512 * secsDone.toNat + k)) size)
    secCnt.toNat 0 disks

/-! ## The device does what the driver asks for -/

theorem selectSector_decodes {b : Build} (devNo : Fin 2) {lba op : UInt32} (hlba : lba.toNat ≤ maxLba) (hpos : 0 < op.toNat)
    (hop : op.toNat ≤ 256) : ∃ r, selectSector b devNo lba op.toUInt8 = .ok r ∧ r.start = lba.toNat ∧ r.count = op.toNat ∧
      r.devNo = devNo ∧ sizeInByte op.toUInt8 = 512 * op.toNat := by
  have hz : op.toUInt8 = 0 ↔ op.toNat = 256 := by
    rw [← UInt8.toNat_inj, UInt32.toNat_toUInt8, show (0 : UInt8).toNat = 0 from rfl]
    omega
  have hcnt : (if op.toUInt8 = 0 then 256 else op.toUInt8.toNat) = op.toNat := by
    rw [UInt32.toNat_toUInt8]
    split
    · rename_i h
      exact (hz.mp h).symm
    · rename_i h
      have := mt hz.mpr h
      omega
  have hh : lba >>> 24 = 0 := by
    rw [← UInt32.toNat_inj, UInt32.toNat_shiftRight]
    simp only [maxLba] at hlba
    show lba.toNat >>> 24 = 0
    rw [Nat.shiftRight_eq_div_pow]
    omega
  have hdev : ∀ d : Fin 2, let dev : UInt8 := (bitDevMbs ||| bitDevLba ||| (if d = 1 then bitDevDev else 0) ||| (0 : UInt32)).toUInt8
      (dev &&& 0xf).toNat = 0 ∧ (if dev &&& 0x10 = 0 then 0 else 1) = d := by decide
  refine ⟨_, by rw [selectSector, assert_of _ hlba, ok_bind]; rfl, ?_, ?_, ?_, ?_⟩
  · unfold Regs.start
    dsimp only
    rw [hh, (hdev devNo).1]
    simp only [UInt32.toNat_toUInt8, UInt32.toNat_shiftRight]
    simp only [maxLba] at hlba
    show lba.toNat % 256 + 256 * (lba.toNat >>> 8 % 256) + 65536 * (lba.toNat >>> 16 % 256) + _ = _
    rw [Nat.shiftRight_eq_div_pow, Nat.shiftRight_eq_div_pow]
    omega
  · exact hcnt
  · unfold Regs.devNo
    dsimp only
    rw [hh]
    exact (hdev devNo).2
  · have hs : sizeInByte op.toUInt8 = 512 * if op.toUInt8 = 0 then 256 else op.toUInt8.toNat := by
      unfold sizeInByte
      split <;> omega
    rw [hs, hcnt]

theorem ideLoop_inv {σ : Type} {b : Build} {devNo : Fin 2} {lba secCnt : UInt32} {transfer : Regs → UInt32 → Nat → σ → Exec σ}
    (hon : lba.toNat + secCnt.toNat ≤ maxLba + 1) (P : Nat → σ → Prop)
    (hst : ∀ (r : Regs) (d : UInt32) (n : Nat) (s : σ), r.start = lba.toNat + d.toNat → r.count = n → r.devNo = devNo → P d.toNat s →
      ∃ s', transfer r d (512 * n) s = .ok s' ∧ P (d.toNat + n) s') :
    ∀ (n : Nat) (d : UInt32) (s : σ), secCnt.toNat ≤ d.toNat + n → d.toNat ≤ secCnt.toNat → P d.toNat s →
      ∃ s', ideLoop b devNo lba secCnt transfer n d s = .ok s' ∧ P secCnt.toNat s'
  | 0, d, s, hn, hd, h => ⟨s, rfl, by rwa [show secCnt.toNat = d.toNat by omega]⟩
  | n + 1, d, s, hn, hd, h => by
    unfold ideLoop
    split
    · rename_i hlt
      obtain ⟨hpos, hne, hsum, hop⟩ := secsOp_spec hlt (by omega)
      have hadd : (lba + d).toNat = lba.toNat + d.toNat :=
        toNat_add_of_lt (by simp only [maxLba] at hon; omega)
      have hlt := UInt32.lt_iff_toNat_lt.mp hlt
      dsimp only
      generalize (if d + 256 ≤ secCnt then 256 else secCnt - d) = op at *
      obtain ⟨r, hr, hsr, hc, hdev, hsi⟩ := @selectSector_decodes b devNo (lba + d) op (by omega) hpos hop
      obtain ⟨s', hs, h'⟩ := hst r d op.toNat s (by omega) hc hdev h
      rw [hr, ok_bind, hsi, hs, ok_bind]
      exact ideLoop_inv hon P hst n (d + op) s' (by omega) hne (by rwa [hsum])
    · rename_i hge
      have := mt UInt32.lt_iff_toNat_lt.mpr hge
      exact ⟨s, rfl, by rwa [show secCnt.toNat = d.toNat by omega]⟩

section
variable {b : Build} (devNo : Fin 2) (disks : Fin 2 → Mem) {lba secCnt : UInt32} (hpos : 0 < secCnt.toNat)
  (hon : lba.toNat + secCnt.toNat ≤ maxLba + 1)
include hpos hon

theorem ideWrite_eq (buf : Mem) : ideWrite b devNo disks lba buf secCnt =
    .ok (update disks devNo (blit (disks devNo) (512 * lba.toNat) buf 0 (512 * secCnt.toNat))) := by
  obtain ⟨s', hl, hs⟩ := @ideLoop_inv _ b devNo lba secCnt
    (fun r secsDone size disks => r.receive disks (fun k => buf (512 * secsDone.toNat + k)) size) hon
    (fun d s => s = update disks devNo (blit (disks devNo) (512 * lba.toNat) buf 0 (512 * d)))
    (fun r d n s hst hc hdev hs => ⟨_, if_pos (by rw [hc]), by
      rw [hs, hdev, hst, update_self, update_idem, blit_shift,
        blit_extend _ _ (Nat.mul_add ..) (Nat.zero_add _).symm, ← Nat.mul_add]⟩)
    secCnt.toNat 0 disks (Nat.le_add_left _ _) (Nat.zero_le _) (by
      rw [show 512 * (0 : UInt32).toNat = 0 from rfl, blit_none, update_eq_self])
  rw [ideWrite, assert_of _ (by omega), ok_bind, assert_of _ (show 0 < secCnt from UInt32.lt_iff_toNat_lt.mpr hpos), ok_bind, hl, hs]

theorem ideRead_eq (buf : Mem) : ideRead b devNo disks lba buf secCnt =
    .ok (blit buf 0 (disks devNo) (512 * lba.toNat) (512 * secCnt.toNat)) := by
  obtain ⟨s', hl, hs⟩ := @ideLoop_inv _ b devNo lba secCnt (fun r secsDone size buf => r.send disks buf (512 * secsDone.toNat) size) hon
    (fun d s => s = blit buf 0 (disks devNo) (512 * lba.toNat) (512 * d))
    (fun r d n s hst hc hdev hs => ⟨_, if_pos (by rw [hc]), by
      rw [hs, hdev, hst, blit_extend _ _ (Nat.zero_add _).symm (Nat.mul_add ..), ← Nat.mul_add]⟩)
    secCnt.toNat 0 buf (Nat.le_add_left _ _) (Nat.zero_le _) (blit_none ..).symm
  rw [ideRead, assert_of _ (by omega), ok_bind, assert_of _ (show 0 < secCnt from UInt32.lt_iff_toNat_lt.mpr hpos), ok_bind, hl, hs]

/-- What `ideWriteAll` does to a disk is what its registers make the device do. -/
theorem ideWrite_eq_all (buf : Mem) :
    ideWrite .debug devNo disks lba buf secCnt = (ideWriteAll .debug (disks devNo) lba buf secCnt).map (update disks devNo) := by
  obtain ⟨disk', hall⟩ := ideWriteAll_total .debug (disks devNo) lba buf secCnt hpos hon
  rw [ideWrite_eq devNo disks hpos hon buf, hall, (ideWriteAll_ok hall).1]
  rfl

end

/-- **Multi-sector transfers are exact.** -/
theorem transfers_exact (b : Build) (devNo : Fin 2) (disks : Fin 2 → Mem) (lba secCnt : UInt32) (buf buf' : Mem) (hpos : 1 ≤ secCnt.toNat)
    (hon : lba.toNat + secCnt.toNat - 1 ≤ maxLba) :
    (∃ disks', ideWrite b devNo disks lba buf secCnt = .ok disks' ∧
      (∀ i < secCnt.toNat, ∀ k < 512, disks' devNo (512 * (lba.toNat + i) + k) = buf (512 * i + k)) ∧
      (∀ a, a < 512 * lba.toNat ∨ 512 * (lba.toNat + secCnt.toNat) ≤ a → disks' devNo a = disks devNo a) ∧
      (∀ d, d ≠ devNo → disks' d = disks d) ∧
      ∃ m, ideRead b devNo disks' lba buf' secCnt = .ok m ∧ ∀ k < 512 * secCnt.toNat, m k = buf k) ∧
    ∃ m, ideRead b devNo disks lba buf' secCnt = .ok m ∧
      (∀ i < secCnt.toNat, ∀ k < 512, m (512 * i + k) = disks devNo (512 * (lba.toNat + i) + k)) ∧
      ∀ k, 512 * secCnt.toNat ≤ k → m k = buf' k := by
  have hon : lba.toNat + secCnt.toNat ≤ maxLba + 1 := by omega
  refine ⟨⟨_, ideWrite_eq devNo disks hpos hon buf, fun i hi k hk => ?_, fun a ha => ?_, fun d hd => update_of_ne hd .., _,
    ideRead_eq devNo _ hpos hon buf', fun k hk => ?_⟩, _, ideRead_eq devNo disks hpos hon buf', fun i hi k hk => ?_, fun k hk => ?_⟩
  · rw [update_self, blit_in (by omega) (by omega)]
    congr 1
    omega
  · rw [update_self, blit_out (by omega)]
  · rw [update_self, blit_in (by omega) (by omega), blit_in (by omega) (by omega)]
    congr 1
    omega
  · rw [blit_in (by omega) (by omega)]
    congr 1
    omega
  · rw [blit_out (by omega)]

theorem transfers_exact_three_hundred : ∃ disks', ideWrite .debug 1 (fun _ _ => 0) 5 (fun k => .ofNat k) 300 = .ok disks' ∧
    disks' 1 (512 * 304) = .ofNat (512 * 299) := by
  obtain ⟨⟨disks', hrun, hin, -⟩, -⟩ := transfers_exact .debug 1 (fun _ _ => 0) 5 300 (fun k => .ofNat k) (fun _ => 0) (by decide) (by decide)
  exact ⟨disks', hrun, hin 299 (by decide) 0 (by decide)⟩

end Ide

end OperateSystem
