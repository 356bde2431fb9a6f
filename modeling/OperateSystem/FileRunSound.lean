import OperateSystem.FileRun
import OperateSystem.FileSound

/-!
# Runs of writes and releases

Along every run the contents of each live file are the buffers written to it,
and the block bitmap is what it was at the start plus one bit for each slot of
a live file.
-/

namespace OperateSystem

open Function

/-! ## The cache of open inodes -/

theorem findOpen_some {l : List Inode} {no : UInt32} {i : Inode} (h : findOpen l no = some i) : i ∈ l ∧ i.iNo = no :=
  ⟨List.mem_of_find?_eq_some h, by simpa using List.find?_some h⟩

theorem findOpen_storeOpen : ∀ (l : List Inode) (i : Inode) (no : UInt32),
    findOpen (storeOpen l i) no = if no = i.iNo then (findOpen l no).map fun _ => i else findOpen l no
  | [], i, no => by simp [findOpen, storeOpen]
  | x :: l, i, no => by
    have ih := findOpen_storeOpen l i no
    simp only [findOpen, storeOpen, List.map_cons, List.find?_cons] at ih ⊢
    by_cases hx : x.iNo = i.iNo
    · by_cases hn : no = i.iNo
      · simp [hx, hn]
      · have : (i.iNo == no) = false := by simpa using Ne.symm hn
        simp only [hx, ite_true, this, ih, hn, ite_false]
    · by_cases hxn : x.iNo = no
      · have : no ≠ i.iNo := hxn ▸ hx
        simp [hxn, this]
      · have : (x.iNo == no) = false := by simpa using hxn
        simp only [hx, ite_false, this, ih]

theorem findOpen_eraseP : ∀ (l : List Inode) {n no : UInt32}, no ≠ n →
    findOpen (l.eraseP (·.iNo == n)) no = findOpen l no
  | [], _, _, _ => rfl
  | x :: l, n, no, hne => by
    have ih := findOpen_eraseP l hne
    unfold findOpen at ih ⊢
    by_cases hx : x.iNo = n
    · have : (x.iNo == no) = false := by rw [hx]; simpa using hne.symm
      rw [List.eraseP_cons_of_pos (by simpa using hx), List.find?_cons, this]
    · rw [List.eraseP_cons_of_neg (by simpa using hx), List.find?_cons, List.find?_cons, ih]

theorem findOpen_inodeClose (l : List Inode) {i : Inode} {no : UInt32} (hne : no ≠ i.iNo) :
    findOpen (inodeClose l i) no = findOpen l no := by
  unfold inodeClose
  simp only
  split
  · exact findOpen_eraseP l hne
  · rw [findOpen_storeOpen, if_neg (by exact hne)]

/-! ## Releasing a file -/

section
variable {part : Partition} {base : Nat → Prop} {own : UInt32 × Nat → Option Nat} {no : UInt32}

theorem withFile_clear (l : Blocks) (j : Nat) :
    withFile own no (l.set j 0) = update (withFile own no l) (no, j) none := by
  funext ⟨n, k⟩
  by_cases hn : n = no
  · subst hn
    by_cases hk : k = j
    · subst hk; simp [withFile, slotOwner, Blocks.set]
    · simp [withFile, slotOwner, Blocks.set, hk]
  · simp [withFile, hn]

theorem bitmapSync_inode (vol : Volume part) {n : Nat} (hn : n < 4096) :
    ∃ vol', bitmapSync .debug vol n .inodeBitmap = .ok vol' ∧ vol'.blockBitmap = vol.blockBitmap ∧
      ∀ S, SameOutside part S vol.disk vol'.disk := by
  have h1 := part.inode_bitmap_below
  have h2 := part.data_on_disk
  have hlba : part.inodeBitmapLba + n / 4096 ≤ maxLba := by omega
  have hio := ideWrite_eq (b := .debug) vol.disk (fun k => vol.inodeBitmap.bits (n / 4096 * 512 + k)) hlba Nat.one_pos
  have hs : ∀ S, SameOutside part S vol.disk (blit vol.disk (512 * (part.inodeBitmapLba + n / 4096))
      (fun k => vol.inodeBitmap.bits (n / 4096 * 512 + k)) 0 (512 * 1)) := fun S => .blit_below _ _ (by omega)
  generalize blit _ _ _ _ _ = d at hio hs
  exact ⟨{ vol with disk := d }, by simp only [bitmapSync, hio, ok_bind, pure_ok], rfl, hs⟩

theorem freeBlock_spec {vol : Volume part} {l : Blocks} {j : Nat} (h : Books base own no vol l)
    (h0 : base part.dataStartLba) (hj : j ≤ 140) (hne : l j ≠ 0) :
    ∃ vol', freeBlock .debug vol (l j) = .ok vol' ∧ Books base own no vol' (l.set j 0) ∧
      ∀ S, SameOutside part S vol.disk vol'.disk := by
  have hown : withFile own no l (no, j) = some (l j).toNat := by rw [withFile_self, slotOwner_some hj hne]
  have hdom := h.slot_inData hj hne
  have hf := h.fresh hown
  have hidx := hdom.index
  have hpos : 0 < (l j).toNat - part.dataStartLba := by
    have : (l j).toNat ≠ part.dataStartLba := fun e => hf (e ▸ h0)
    have := hdom.1; omega
  have hlt : (l j).toNat - part.dataStartLba < 4096 * part.blockBitmapSects := by
    obtain ⟨h1, h2⟩ := hdom; omega
  generalize hi : (l j).toNat - part.dataStartLba = i at *
  obtain ⟨vol', hs⟩ := bitmapSync_total { vol with blockBitmap := bitmapSet vol.blockBitmap i false } hlt
  obtain ⟨hbm, hsa⟩ := bitmapSync_block hlt hs
  refine ⟨vol', by simp only [freeBlock, hidx, assert_of _ hpos, ok_bind, hs], ?_, hsa⟩
  unfold Books
  rw [withFile_clear]
  refine h.give hown fun x => ?_
  unfold Volume.Used
  rw [hbm, bit_bitmapSet]
  by_cases hx : x - part.dataStartLba = i
  · have : part.dataStartLba ≤ x → x = (l j).toNat := by have := hdom.1; omega
    simp only [hx, ite_true]
    constructor
    · rintro ⟨_, h⟩; cases h
    · rintro ⟨⟨h1, _⟩, h2⟩; exact absurd (this h1) h2
  · have : x ≠ (l j).toNat := fun e => hx (by rw [e]; exact hi)
    simp [hx, this]

theorem freeBlocks_spec (h0 : base part.dataStartLba) (all : Blocks) : ∀ (n k : Nat) (vol : Volume part) (l : Blocks),
    Books base own no vol l → k + n ≤ 140 → (∀ j, k ≤ j → j < k + n → l j = all j) →
    ∃ vol', freeBlocks .debug all n k vol = .ok vol' ∧
      Books base own no vol' (fun j => if k ≤ j ∧ j < k + n then 0 else l j) ∧
      ∀ S, SameOutside part S vol.disk vol'.disk
  | 0, k, vol, l, h, _, _ => by
    refine ⟨vol, rfl, h.congr rfl fun j _ => ?_, fun S => .refl S _⟩
    rw [if_neg (by omega)]
  | n + 1, k, vol, l, h, hle, hall => by
    have hk := hall k le_rfl (by omega)
    unfold freeBlocks
    by_cases hz : all k = 0
    · rw [if_neg (by simpa using hz)]
      obtain ⟨vol', hv, hb, hd⟩ := freeBlocks_spec h0 all n (k + 1) vol l h (by omega)
        (fun j h1 h2 => hall j (by omega) (by omega))
      refine ⟨vol', hv, hb.congr rfl fun j _ => ?_, hd⟩
      by_cases hj : j = k
      · subst hj; rw [if_pos (by omega), if_neg (by omega), hk, hz]
      · by_cases hin : k ≤ j ∧ j < k + (n + 1)
        · rw [if_pos hin, if_pos (by omega)]
        · rw [if_neg hin, if_neg (by omega)]
    · rw [if_pos hz]
      obtain ⟨vol1, hv1, hb1, hd1⟩ := freeBlock_spec h h0 (show k ≤ 140 by omega) (by rw [hk]; exact hz)
      obtain ⟨vol', hv, hb, hd⟩ := freeBlocks_spec h0 all n (k + 1) vol1 (l.set k 0) hb1 (by omega)
        (fun j h1 h2 => by rw [Blocks.set, update_of_ne (by omega)]; exact hall j (by omega) (by omega))
      rw [hk] at hv1
      refine ⟨vol', by simp only [hv1, ok_bind, hv], hb.congr rfl fun j _ => ?_, fun S => (hd1 S).trans (hd S)⟩
      by_cases hj : j = k
      · subst hj; rw [if_pos (by omega), if_neg (by omega), Blocks.set, update_self]
      · rw [Blocks.set, update_of_ne hj]
        by_cases hin : k ≤ j ∧ j < k + (n + 1)
        · rw [if_pos hin, if_pos (by omega)]
        · rw [if_neg hin, if_neg (by omega)]

theorem inodeOpen_cached {b : Build} {s : FsState part} {i : Inode} (h : findOpen s.openInodes no = some i) :
    inodeOpen b s no = .ok ({ i with iOpenCnts := i.iOpenCnts + 1 },
      { s with openInodes := storeOpen s.openInodes { i with iOpenCnts := i.iOpenCnts + 1 } }) := by
  unfold inodeOpen
  rw [h]

theorem freeTable_spec {vol : Volume part} {i : Inode} {F : Mem} (hinv : FileInv vol.disk i F)
    (h0 : base part.dataStartLba) (hbo : Books base own no vol (slotAddr vol.disk i)) :
    ∃ all n vol', freeTable .debug vol i (copySectors i 12 0 fun _ => 0) = .ok (all, n, vol') ∧ n ≤ 140 ∧
      Books base own no vol' ((slotAddr vol.disk i).set 140 0) ∧
      (∀ j < n, all j = slotAddr vol.disk i j) ∧ (∀ j, n ≤ j → j < 140 → slotAddr vol.disk i j = 0) ∧
      ∀ S, SameOutside part S vol.disk vol'.disk := by
  have htab : slotAddr vol.disk i 140 = i.sec 12 := memLayout_table _ _
  have hc : ∀ j < 12, copySectors i 12 0 (fun _ => 0) j = slotAddr vol.disk i j := fun j hj => by
    rw [copySectors_apply, if_pos (by omega), slotAddr, memLayout_low _ _ hj]
  unfold freeTable
  by_cases h12 : i.sec 12 = 0
  · rw [if_neg (by simpa using h12)]
    refine ⟨_, 12, vol, rfl, by omega, hbo.congr rfl fun j _ => ?_, hc, fun j h1 h2 => ?_, fun S => .refl S _⟩
    · by_cases hj : j = 140
      · subst hj; rw [Blocks.set, update_self, htab, h12]
      · rw [Blocks.set, update_of_ne hj]
    · rw [slotAddr, memLayout_mid _ _ h1 h2, tableOf, if_pos h12]
  · rw [if_pos h12]
    have hl := ideRead_eq (b := .debug) vol.disk (fun _ => 0) hinv.table_le (Nat.one_pos)
    obtain ⟨all, hall⟩ : ∃ all, loadTable .debug vol.disk (i.sec 12) (copySectors i 12 0 fun _ => 0) = .ok all :=
      ⟨_, by simp only [loadTable, hl, ok_bind, pure_ok]; rfl⟩
    obtain ⟨vol', hv, hb, hd⟩ := freeBlock_spec hbo h0 le_rfl (by rw [htab]; exact h12)
    rw [htab] at hv
    refine ⟨all, 140, vol', by simp only [hall, ok_bind, hv, pure_ok], le_rfl, hb, fun j hj => ?_,
      fun j h1 h2 => by omega, hd⟩
    by_cases hj' : j < 12
    · rw [loadTable_low hall hj', hc j hj']
    · rw [loadTable_mid h12 hall j (by omega) hj, slotAddr, memLayout_mid _ _ (by omega) hj]

theorem inodeRelease_spec {s : FsState part} {i : Inode} {F : Mem} (hf : findOpen s.openInodes no = some i)
    (hinv : FileInv s.vol.disk i F) (h0 : base part.dataStartLba) (hno : no.toNat < 4096)
    (hb : Books base own no s.vol (slotAddr s.vol.disk i)) :
    ∃ s', inodeRelease .debug s no = .ok s' ∧ Books base own no s'.vol (fun _ => 0) ∧
      (∀ S, SameOutside part S s.vol.disk s'.vol.disk) ∧
      ∀ n, n ≠ no → findOpen s'.openInodes n = findOpen s.openInodes n := by
  have hiNo := (findOpen_some hf).2
  obtain ⟨all, n, vol1, hv1, hn, hb1, hall, hz, hd1⟩ := freeTable_spec hinv h0 hb
  obtain ⟨vol2, hv2, hb2, hd2⟩ := freeBlocks_spec h0 all n 0 vol1 _ hb1 (by omega) (fun j _ hj => by
    rw [Blocks.set, update_of_ne (by omega), hall j (by omega)])
  obtain ⟨vol3, hv3, hbm, hd3⟩ :=
    bitmapSync_inode { vol2 with inodeBitmap := bitmapSet vol2.inodeBitmap no.toNat false } hno
  refine ⟨{ vol := { vol3 with disk := fill vol3.disk (part.inodeAddr no.toNat) 76 0 },
            openInodes := inodeClose (storeOpen s.openInodes { i with iOpenCnts := i.iOpenCnts + 1 })
              { i with iOpenCnts := i.iOpenCnts + 1 } }, ?_, ?_, fun S => ?_, fun m hm => ?_⟩
  · simp only [inodeRelease, inodeOpen_cached hf, ok_bind, assert_of _ hiNo, releaseVolVia, unbounded_delete]
    have hsec : freeTable .debug s.vol { i with iOpenCnts := i.iOpenCnts + 1 }
        (copySectors { i with iOpenCnts := i.iOpenCnts + 1 } 12 0 fun _ => 0) = .ok (all, n, vol1) := hv1
    simp only [hsec, ok_bind, hv2, hv3, inodeDelete_spec part _ _ hno, pure_ok]
  · refine hb2.congr hbm fun j hj => ?_
    by_cases hj' : j = 140
    · subst hj'; rw [if_neg (by omega), Blocks.set, update_self]
    · by_cases hlt : j < n
      · rw [if_pos (by omega)]
      · rw [if_neg (by omega), Blocks.set, update_of_ne hj', hz j (by omega) (by omega)]
  · refine ((hd1 S).trans (hd2 S)).trans ((hd3 S).trans ?_)
    have := part.inode_below (S := S) vol3.disk (fun _ => 0) hno
    exact this
  · have hne : m ≠ i.iNo := by rw [hiNo]; exact hm
    rw [findOpen_inodeClose _ (by exact hne), findOpen_storeOpen, if_neg (by exact hne)]

theorem inodeRelease_lt {s s' : FsState part} (h : inodeRelease .debug s no = .ok s') : no.toNat < 4096 := by
  simp only [inodeRelease, bind_ok, releaseVolVia, unbounded_delete, inodeDelete, inodeDeleteVia, assert_debug_ok] at h
  obtain ⟨_, _, _, _, _, ⟨_, _, _, _, _, _, _, ⟨_, hlt, _⟩, _⟩, _⟩ := h
  exact hlt

end

/-! ## The invariant of runs -/

theorem FileInv.congr_contents {disk F F' : Mem} {i : Inode} (h : FileInv disk i F)
    (hF : ∀ k < i.iSize.toNat, F' k = F k) : FileInv disk i F' :=
  ⟨h.laid, h.empty, h.table_le, h.holds.congr (fun _ _ => rfl) hF (fun _ _ _ _ => rfl)⟩

theorem FileInv.frame {d d' F : Mem} {i : Inode} (h : FileInv d i F) (hd : ∀ j ≤ 140, slotAddr d i j ≠ 0 →
    ∀ t < 512, d' (512 * (slotAddr d i j).toNat + t) = d (512 * (slotAddr d i j).toNat + t)) :
    FileInv d' i F ∧ ∀ j ≤ 140, slotAddr d' i j = slotAddr d i j := by
  have htab : slotAddr d i 140 = i.sec 12 := memLayout_table _ _
  have hs : ∀ j ≤ 140, slotAddr d' i j = slotAddr d i j := slotAddr_congr (fun _ => rfl) fun h12 => by
    exact hd 140 le_rfl h12
  refine ⟨⟨h.laid.congr hs, h.empty, h.table_le, ?_⟩, hs⟩
  refine h.holds.congr (fun k hk => hs _ (by have := h.block_ne_zero hk; omega)) (fun _ _ => rfl) fun k hk => ?_
  obtain ⟨hlt, hne⟩ := h.block_ne_zero hk
  exact hd _ (by omega) hne

section
variable {part : Partition}
variable {l : Blocks} {i : Inode} {d : Mem}

open Classical in
noncomputable def owners (s0 : FsState part) (ops : List FsOp) (s : FsState part) (k : UInt32 × Nat) : Option Nat :=
  if Live s0 ops k.1 then (findOpen s.openInodes k.1).bind fun i => slotOwner (slotAddr s.vol.disk i) k.2 else none

structure FsInv (s0 : FsState part) (ops : List FsOp) (s : FsState part) : Prop where
  file : ∀ no, Live s0 ops no → ∃ i, findOpen s.openInodes no = some i ∧
    i.iSize.toNat = (contents no ops).length ∧ FileInv s.vol.disk i fun k => (contents no ops).getD k 0
  books : Accounted part.InData s0.vol.Used s.vol.Used (owners s0 ops s)

variable {s0 s s' : FsState part} {ops : List FsOp} {no : UInt32}

theorem owners_live (hl : Live s0 ops no) (hi : findOpen s.openInodes no = some i) (j : Nat) :
    owners s0 ops s (no, j) = slotOwner (slotAddr s.vol.disk i) j := by
  unfold owners
  rw [if_pos hl, hi]; rfl

theorem owners_dead (hl : ¬ Live s0 ops no) (j : Nat) : owners s0 ops s (no, j) = none := if_neg hl

theorem FsInv.books_of (h : FsInv s0 ops s) (hl : Live s0 ops no)
    (hi : findOpen s.openInodes no = some i) :
    Books s0.vol.Used (owners s0 ops s) no s.vol (slotAddr s.vol.disk i) := by
  have : withFile (owners s0 ops s) no (slotAddr s.vol.disk i) = owners s0 ops s := by
    funext ⟨n, j⟩
    unfold withFile
    split
    · rename_i hn
      subst hn
      exact (owners_live hl hi j).symm
    · rfl
  unfold Books
  rw [this]
  exact h.books

theorem empty_slots (h : i.Empty) : ∀ j ≤ 140, slotAddr d i j = 0 := by
  have hsec : ∀ k, i.sec k = 0 := fun k => by
    unfold Inode.sec
    split
    · exact h.2 _
    · rfl
  intro j hj
  have hz : memLayout i (fun _ => 0) j = slotAddr d i j := slotAddr_of_no_table (hsec 12) (fun _ _ _ => rfl) j hj
  rw [← hz]
  simp [memLayout, hsec]

theorem FileInv.of_empty {F : Mem} (h : i.Empty) : FileInv d i F := by
  have hz := empty_slots (d := d) h
  have hsz : i.iSize.toNat = 0 := by rw [h.1]; rfl
  have h0 : i.sec 0 = 0 := hz 0 (by omega)
  have h12 : i.sec 12 = 0 := by rw [← memLayout_table i]; exact hz 140 le_rfl
  refine ⟨?_, fun _ => hsz, by rw [h12]; exact Nat.zero_le _, fun k hk => by omega⟩
  rw [if_pos h0]
  exact ⟨by omega, fun j hj => by simp [hz j (by omega)], by simp [hz 140 le_rfl]⟩

theorem slotOwner_of_empty (h : i.Empty) (j : Nat) : slotOwner (slotAddr d i) j = none := by
  rw [slotOwner, if_neg]
  rintro ⟨hj, hne⟩
  exact hne (empty_slots h j hj)

theorem FsInv.start (h : s0.Fresh) : FsInv s0 [] s0 := by
  have he : ∀ {no i}, findOpen s0.openInodes no = some i → i.Empty := fun hi => h _ (findOpen_some hi).1
  refine ⟨fun no hl => ?_, ?_⟩
  · obtain ⟨i, hi⟩ := Option.isSome_iff_exists.mp hl.1
    exact ⟨i, hi, by rw [(he hi).1]; rfl, .of_empty (he hi)⟩
  · have : owners s0 [] s0 = fun _ => none := by
      funext ⟨n, j⟩
      by_cases hl : Live s0 [] n
      · obtain ⟨i, hi⟩ := Option.isSome_iff_exists.mp hl.1
        rw [owners_live hl hi, slotOwner_of_empty (he hi)]
      · exact owners_dead hl j
    rw [this]
    exact .start _ _

theorem contents_snoc (no : UInt32) (ops : List FsOp) (op : FsOp) :
    contents no (ops ++ [op]) = contents no ops ++ op.bytes no := by
  simp [contents]

theorem slotOwner_congr {l' : Blocks} (h : ∀ j ≤ 140, l' j = l j) (j : Nat) :
    slotOwner l' j = slotOwner l j := by
  unfold slotOwner
  by_cases hj : j ≤ 140
  · rw [h j hj]
  · simp [hj]

structure StepOn (s0 : FsState part) (ops : List FsOp) (no : UInt32) (op : FsOp) (l : Blocks)
    (s s' : FsState part) : Prop where
  books : Books s0.vol.Used (owners s0 ops s) no s'.vol l
  disk : SameOutside part (fun x => ∃ j, slotOwner l j = some x) s.vol.disk s'.vol.disk
  find : ∀ m, m ≠ no → findOpen s'.openInodes m = findOpen s.openInodes m
  bytes : ∀ m, m ≠ no → op.bytes m = []
  live : ∀ m, m ≠ no → (Live s0 (ops ++ [op]) m ↔ Live s0 ops m)

theorem StepOn.others {op : FsOp} (h : StepOn s0 ops no op l s s') {n : UInt32} (hn : n ≠ no)
    (hl : Live s0 ops n) {F : Mem} (hi : findOpen s.openInodes n = some i)
    (hinv : FileInv s.vol.disk i F) :
    FileInv s'.vol.disk i F ∧ ∀ j ≤ 140, slotAddr s'.vol.disk i j = slotAddr s.vol.disk i j := by
  refine hinv.frame fun j hj hne => ?_
  have hown : withFile (owners s0 ops s) no l (n, j) = some (slotAddr s.vol.disk i j).toNat := by
    rw [withFile, if_neg hn, owners_live hl hi, slotOwner_some hj hne]
  refine h.disk _ (h.books.in_dom hown).1 ?_
  rintro ⟨k, hk⟩
  have := h.books.inj hown (show withFile (owners s0 ops s) no l (no, k) = _ by rw [withFile_self]; exact hk)
  exact hn (Prod.mk.inj this).1

theorem FsInv.step {op : FsOp} (h : FsInv s0 ops s) (hs : StepOn s0 ops no op l s s')
    (hli : Live s0 (ops ++ [op]) no → ∃ i, findOpen s'.openInodes no = some i ∧
      i.iSize.toNat = (contents no (ops ++ [op])).length ∧
      FileInv s'.vol.disk i (fun k => (contents no (ops ++ [op])).getD k 0) ∧ l = slotAddr s'.vol.disk i)
    (hde : ¬ Live s0 (ops ++ [op]) no → ∀ j, slotOwner l j = none) : FsInv s0 (ops ++ [op]) s' := by
  refine ⟨fun m hl => ?_, ?_⟩
  · by_cases hm : m = no
    · subst hm
      obtain ⟨i, hi, hsi, hinv, _⟩ := hli hl
      exact ⟨i, hi, hsi, hinv⟩
    · have hl := (hs.live m hm).mp hl
      obtain ⟨i, hi, hsi, hinv⟩ := h.file m hl
      rw [contents_snoc, hs.bytes m hm, List.append_nil, hs.find m hm]
      exact ⟨i, hi, hsi, (hs.others hm hl hi hinv).1⟩
  · have hown : owners s0 (ops ++ [op]) s' = withFile (owners s0 ops s) no l := by
      funext ⟨m, j⟩
      by_cases hm : m = no
      · subst hm
        rw [withFile_self]
        by_cases hl : Live s0 (ops ++ [op]) m
        · obtain ⟨i, hi, _, _, rfl⟩ := hli hl
          exact owners_live hl hi j
        · rw [owners_dead hl, hde hl]
      · rw [withFile, if_neg hm]
        by_cases hl : Live s0 ops m
        · obtain ⟨i, hi, _, hinv⟩ := h.file m hl
          rw [owners_live ((hs.live m hm).mpr hl) (by rw [hs.find m hm, hi]), owners_live hl hi]
          exact slotOwner_congr (hs.others hm hl hi hinv).2 j
        · rw [owners_dead (fun hl' => hl ((hs.live m hm).mp hl')), owners_dead hl]
    rw [hown]
    exact hs.books

theorem append_eq_blit (data : List UInt8) (buf : Mem) (c k : Nat) (hk : k < data.length + c) :
    (data ++ (List.range c).map buf).getD k 0 = blit (fun k => data.getD k 0) data.length buf 0 c k := by
  by_cases h : k < data.length
  · rw [blit_out (.inl h), List.getD_eq_getElem?_getD, List.getElem?_append_left h, List.getD_eq_getElem?_getD]
  · rw [blit_in (by omega) hk, List.getD_eq_getElem?_getD, List.getElem?_append_right (by omega)]
    simp [show k - data.length < c by omega]

theorem FsInv.write {pos count : UInt32} {buf : Mem} {mem : Buffers} {n : Nat} (h : FsInv s0 ops s)
    (hl : Live s0 ops no) (hret : writeFile .debug s no pos buf count mem = .ok (s', some n)) :
    FsInv s0 (ops ++ [.write no buf count]) s' := by
  obtain ⟨i, hi, hs, hinv⟩ := h.file no hl
  simp only [writeFile, hi, bind_ok, pure_ok, Except.ok.injEq, Prod.mk.injEq] at hret
  obtain ⟨⟨st, r⟩, hw, rfl, rfl⟩ := hret
  obtain ⟨_, ha⟩ := fileWrite_spec hinv (h.books_of hl hi) hw
  have hl' : ∀ m, Live s0 (ops ++ [.write no buf count]) m ↔ Live s0 ops m := fun m => by simp [Live]
  have hst := ha.iNo.trans (findOpen_some hi).2
  refine h.step ⟨ha.books, ha.disk, fun m hm => ?_, fun m hm => ?_, fun m _ => hl' m⟩ (fun _ => ?_)
    (fun hde => absurd ((hl' no).mpr hl) hde)
  · rw [findOpen_storeOpen, if_neg (by rw [hst]; exact hm)]
  · rw [FsOp.bytes, if_neg (Ne.symm hm)]
  · have hb : FsOp.bytes no (.write no buf count) = (List.range count.toNat).map buf := if_pos rfl
    rw [contents_snoc, hb]
    refine ⟨st.inode, ?_, ?_, ha.inv.congr_contents fun k hk => ?_, rfl⟩
    · rw [findOpen_storeOpen, if_pos hst.symm, hi]; rfl
    · rw [ha.size, hs]; simp
    · rw [ha.size] at hk
      rw [append_eq_blit _ _ _ _ (by omega), hs]

theorem FsInv.release (h : FsInv s0 ops s) (h0 : s0.vol.Used part.dataStartLba) (hli : Live s0 ops no)
    (hno : no.toNat < 4096) :
    ∃ s', inodeRelease .debug s no = .ok s' ∧ FsInv s0 (ops ++ [.release no]) s' := by
  obtain ⟨i, hi, _, hinv⟩ := h.file no hli
  obtain ⟨s', hs', hb, hd, hf⟩ := inodeRelease_spec hi hinv h0 hno (h.books_of hli hi)
  have hde : ¬ Live s0 (ops ++ [.release no]) no := fun hl => hl.2 (by simp)
  refine ⟨s', hs', h.step (l := fun _ => 0) ⟨hb, hd _, hf, fun _ _ => rfl, fun m hm => ?_⟩
    (fun hl => absurd hl hde) (fun _ j => by simp [slotOwner])⟩
  simp [Live, hm]

theorem FsRun.inv (hf : s0.Fresh) (hrun : FsRun s0 ops s)
    (h0 : ∀ no, FsOp.release no ∈ ops → s0.vol.Used part.dataStartLba) : FsInv s0 ops s := by
  induction hrun with
  | start => exact .start hf
  | write _ hl hret ih => exact (ih fun no hno => h0 no (by simp [hno])).write hl hret
  | @release ops s s' no _ hl hret ih =>
    have hinv := ih fun n hn => h0 n (by simp [hn])
    obtain ⟨s'', hs'', hinv'⟩ := hinv.release (h0 no (by simp)) hl (inodeRelease_lt hret)
    rw [hret] at hs''
    cases hs''
    exact hinv'

end

/-! ## Contents -/

/-- **File contents round-trip.** The size of each file is the number of bytes written to it, and
reading returns the slice of those bytes at the position. -/
theorem fileRead_after_writes {part : Partition} (s0 s : FsState part) (ops : List FsOp) (hfresh : s0.Fresh)
    (hwrites : ∀ no, FsOp.release no ∉ ops) (hrun : FsRun s0 ops s) (no : UInt32)
    (hfile : (findOpen s0.openInodes no).isSome) :
    ∃ i, findOpen s.openInodes no = some i ∧ i.iSize.toNat = (contents no ops).length ∧
      ∀ (pos count : UInt32) (buf : Mem) (r : ReadResult), pos < i.iSize → count.toNat < 2 ^ 31 →
        fileRead .debug s.vol.disk i pos buf count ⟨true, true⟩ = .ok r →
        let n := min count.toNat (i.iSize.toNat - pos.toNat)
        r.ret = some n ∧ (List.range n).map r.buf = ((contents no ops).drop pos.toNat).take n ∧
          r.fdPos.toNat = pos.toNat + n := by
  have hinv := hrun.inv hfresh fun no hno => absurd hno (hwrites no)
  obtain ⟨i, hi, hs, hfi⟩ := hinv.file no ⟨hfile, hwrites no⟩
  refine ⟨i, hi, hs, ?_⟩
  intro pos count buf r hpos hc hr n
  obtain ⟨hret, hfd, hb, _⟩ := fileRead_spec hfi hpos hc hr
  refine ⟨hret, List.ext_getElem? fun k => ?_, hfd⟩
  by_cases hk : k < n
  · have hlt : pos.toNat + k < (contents no ops).length := by omega
    rw [List.getElem?_take_of_lt hk, List.getElem?_drop, List.getElem?_map, List.getElem?_range hk, Option.map_some,
      hb k hk, List.getD_eq_getElem?_getD, List.getElem?_eq_getElem hlt]
    rfl
  · rw [List.getElem?_eq_none (by simp; omega), List.getElem?_eq_none (by simp; omega)]

def sampleFs : FsState samplePart where
  vol := {
    disk := fun _ => 0
    blockBitmap := ⟨512, fun k => if k = 0 then 1 else 0, sector_lt⟩
    inodeBitmap := ⟨512, fun _ => 0xff, sector_lt⟩
    block_len := rfl }
  openInodes := [⟨7, 0, 1, 0, fun _ => 0, 0, 0⟩]

theorem sampleFs_fresh : sampleFs.Fresh := by
  intro i hi
  simp only [sampleFs, List.mem_singleton] at hi
  subst hi
  exact ⟨rfl, fun _ => rfl⟩

def sampleBuf : Mem := fun k => .ofNat (k + 65)

def sampleWriteRead : Exec (FsState samplePart × Option Nat × Inode × ReadResult) := do
  let (s, ret) ← writeFile .debug sampleFs 7 0 sampleBuf 3 ⟨true, true⟩
  match findOpen s.openInodes 7 with
  | none => throw .outOfBounds
  | some i =>
    let r ← fileRead .debug s.vol.disk i 1 (fun _ => 0) 5 ⟨true, true⟩
    return (s, ret, i, r)

theorem sampleWriteRead_ok : sampleWriteRead.toOption.any (fun (_, ret, i, _) => ret == some 3 && decide (1 < i.iSize)) = true := by
  decide +kernel

theorem sample_write_read : ∃ s i r, writeFile .debug sampleFs 7 0 sampleBuf 3 ⟨true, true⟩ = .ok (s, some 3) ∧
    findOpen s.openInodes 7 = some i ∧ 1 < i.iSize ∧
    fileRead .debug s.vol.disk i 1 (fun _ => 0) 5 ⟨true, true⟩ = .ok r := by
  obtain ⟨⟨s, ret, i, r⟩, hrun, hok⟩ := exists_of_any sampleWriteRead_ok
  simp only [Bool.and_eq_true, beq_iff_eq, decide_eq_true_eq] at hok
  obtain ⟨rfl, hlt⟩ := hok
  simp only [sampleWriteRead, bind_ok] at hrun
  obtain ⟨⟨s', ret⟩, hw, hrun⟩ := hrun
  split at hrun
  · simp at hrun
  rename_i i' hi'
  simp only [bind_ok, pure_ok, Except.ok.injEq, Prod.mk.injEq] at hrun
  obtain ⟨r', hr, rfl, rfl, rfl, rfl⟩ := hrun
  exact ⟨s', i', r', hw, hi', hlt, hr⟩

theorem fileRead_after_ABC : ∃ s i r, FsRun sampleFs [.write 7 sampleBuf 3] s ∧ findOpen s.openInodes 7 = some i ∧
    fileRead .debug s.vol.disk i 1 (fun _ => 0) 5 ⟨true, true⟩ = .ok r ∧ r.ret = some 2 ∧
    (List.range 2).map r.buf = [66, 67] := by
  obtain ⟨s, i, r, hw, hi, hlt, hr⟩ := sample_write_read
  have hs : FsRun sampleFs ([] ++ [.write 7 sampleBuf 3]) s := .write .start ⟨rfl, by simp⟩ hw
  obtain ⟨j, hj, hsi, hre⟩ := fileRead_after_writes sampleFs s [.write 7 sampleBuf 3] sampleFs_fresh (by simp)
    hs 7 rfl
  rw [hi] at hj
  cases hj
  obtain ⟨hret, hb, _⟩ := hre 1 5 _ r hlt (by decide) hr
  have hlen : i.iSize.toNat = 3 := hsi
  rw [hlen] at hret hb
  exact ⟨s, i, r, hs, hi, hr, hret, hb⟩

/-! ## Accounting -/

section
variable {part : Partition}

theorem writes_books {s s1 : FsState part} {ops : List FsOp} {no : UInt32} {i : Inode}
    (hi : findOpen s.openInodes no = some i) (he : i.Empty) (hrun : FsRun s ops s1)
    (hops : ∀ op ∈ ops, ∃ buf count, op = .write no buf count) :
    ∃ i1 F, findOpen s1.openInodes no = some i1 ∧ FileInv s1.vol.disk i1 F ∧
      Books s.vol.Used (fun _ => none) no s1.vol (slotAddr s1.vol.disk i1) := by
  induction hrun with
  | start =>
    refine ⟨i, fun _ => 0, hi, .of_empty he, ?_⟩
    have : withFile (fun _ => none) no (slotAddr s.vol.disk i) = fun _ => none := by
      funext ⟨n, j⟩
      unfold withFile
      split
      · exact slotOwner_of_empty he j
      · rfl
    unfold Books
    rw [this]
    exact .start _ _
  | @write ops s1 s2 n pos count buf mem _ _ hret ih =>
    obtain ⟨_, _, hop⟩ := hops (.write n buf count) (by simp)
    cases hop
    obtain ⟨i1, F, hi1, hinv, hb⟩ := ih fun op hop => hops op (by simp [hop])
    simp only [writeFile, hi1, bind_ok, pure_ok, Except.ok.injEq, Prod.mk.injEq] at hret
    obtain ⟨⟨st, r⟩, hw, rfl, rfl⟩ := hret
    obtain ⟨_, ha⟩ := fileWrite_spec hinv hb hw
    refine ⟨st.inode, _, ?_, ha.inv, ha.books⟩
    rw [findOpen_storeOpen, if_pos (ha.iNo.trans (findOpen_some hi1).2).symm, hi1]
    rfl
  | @release _ _ _ n =>
    obtain ⟨_, _, hop⟩ := hops (.release n) (by simp)
    cases hop

theorem used_bit (vol : Volume part) (k : Nat) :
    vol.Used (part.dataStartLba + k) ↔ vol.blockBitmap.bit k = true := by
  simp [Volume.Used]

theorem release_restores {s s1 s2 : FsState part} {ops : List FsOp} {no : UInt32} {i : Inode}
    (h0 : s.vol.Used part.dataStartLba) (hi : findOpen s.openInodes no = some i) (he : i.Empty)
    (hops : ∀ op ∈ ops, ∃ buf count, op = .write no buf count) (hrun : FsRun s ops s1)
    (hrel : inodeRelease .debug s1 no = .ok s2) : s2.vol.blockBitmap = s.vol.blockBitmap := by
  obtain ⟨i1, F, hi1, hinv, hbo⟩ := writes_books hi he hrun hops
  obtain ⟨s', hs', hb, _⟩ := inodeRelease_spec hi1 hinv h0 (inodeRelease_lt hrel) hbo
  rw [hrel] at hs'
  cases hs'
  refine Bitmap.ext_bit (by rw [s2.vol.block_len, s.vol.block_len]) fun k => ?_
  have hn : withFile (fun _ => none) no (fun _ => 0) = fun _ => none := by
    funext k
    simp [withFile, slotOwner]
  have := hb.used_iff (part.dataStartLba + k)
  rw [hn, used_bit, used_bit] at this
  rw [Bool.eq_iff_iff, this]
  simp

end

/-- **Block accounting.** No block is referenced twice, referenced blocks are marked, a block that
was free and is not referenced is free, and writing to an empty file and releasing it restores the
bitmap. -/
theorem blocks_accounted {part : Partition} (s0 s : FsState part) (ops : List FsOp) (hfresh : s0.Fresh)
    (hbit0 : s0.vol.blockBitmap.bit 0 = true) (hrun : FsRun s0 ops s) :
    (∀ no i j no' i' j', Live s0 ops no → Live s0 ops no' → findOpen s.openInodes no = some i →
      findOpen s.openInodes no' = some i' → j ≤ 140 → j' ≤ 140 → slotAddr s.vol.disk i j ≠ 0 →
      slotAddr s.vol.disk i j = slotAddr s.vol.disk i' j' → no = no' ∧ j = j') ∧
    (∀ no i j, Live s0 ops no → findOpen s.openInodes no = some i → j ≤ 140 → slotAddr s.vol.disk i j ≠ 0 →
      ∃ k, (slotAddr s.vol.disk i j).toNat = part.dataStartLba + k ∧ s.vol.blockBitmap.bit k = true) ∧
    (∀ k, s0.vol.blockBitmap.bit k = false →
      (∀ no i j, Live s0 ops no → findOpen s.openInodes no = some i → j ≤ 140 → slotAddr s.vol.disk i j ≠ 0 →
        (slotAddr s.vol.disk i j).toNat ≠ part.dataStartLba + k) → s.vol.blockBitmap.bit k = false) ∧
    (∀ no, Live s0 ops no → no.toNat < 4096 → ∃ s', inodeRelease .debug s no = .ok s') ∧
    (∀ no i ops' s1 s2, findOpen s.openInodes no = some i → i.Empty →
      (∀ op ∈ ops', ∃ buf count, op = .write no buf count) → FsRun s ops' s1 → inodeRelease .debug s1 no = .ok s2 →
      s2.vol.blockBitmap = s.vol.blockBitmap) := by
  have h0 := (used_bit s0.vol 0).mpr hbit0
  have hinv := hrun.inv hfresh fun _ _ => h0
  have hs : ∀ {no i j}, Live s0 ops no → findOpen s.openInodes no = some i → j ≤ 140 →
      slotAddr s.vol.disk i j ≠ 0 → owners s0 ops s (no, j) = some (slotAddr s.vol.disk i j).toNat :=
    fun hl hi hj hne => by rw [owners_live hl hi, slotOwner_some hj hne]
  refine ⟨?_, ?_, ?_, ?_, ?_⟩
  · intro no i j no' i' j' hl hl' hi hi' hj hj' hne heq
    have := hinv.books.inj (hs hl hi hj hne) (by rw [heq]; exact hs hl' hi' hj' (heq ▸ hne))
    exact Prod.mk.inj this
  · intro no i j hl hi hj hne
    have hu := hinv.books.held_used (hs hl hi hj hne)
    exact ⟨_, (Nat.add_sub_of_le hu.1).symm, hu.2⟩
  · intro k hk href
    by_contra hbit
    have hu := (used_bit s.vol k).mpr (by simpa using hbit)
    rcases (hinv.books.used_iff _).mp hu with hb | ⟨⟨no, j⟩, hown⟩
    · rw [used_bit, hk] at hb; cases hb
    · by_cases hl : Live s0 ops no
      · obtain ⟨i, hi, _⟩ := hinv.file no hl
        rw [owners_live hl hi] at hown
        obtain ⟨hj, hne, heq⟩ := slotOwner_eq_some.mp hown
        exact href no i j hl hi hj hne heq
      · rw [owners_dead hl] at hown; cases hown
  · intro no hl hno
    obtain ⟨s', hs', _⟩ := hinv.release h0 hl hno
    exact ⟨s', hs'⟩
  · intro no i ops' s1 s2 hi he hops hrun' hrel
    exact release_restores ((hinv.books.used_iff _).mpr (.inl h0)) hi he hops hrun' hrel

theorem blocks_accounted_sample : ∃ s s', FsRun sampleFs [.write 7 sampleBuf 3] s ∧
    inodeRelease .debug s 7 = .ok s' ∧ s'.vol.blockBitmap = sampleFs.vol.blockBitmap := by
  obtain ⟨s, i, r, hw, hi, hlt, hr⟩ := sample_write_read
  have hl : Live sampleFs [] 7 := ⟨rfl, by simp⟩
  have hs : FsRun sampleFs ([] ++ [.write 7 sampleBuf 3]) s := .write .start hl hw
  obtain ⟨s', hs'⟩ := (blocks_accounted sampleFs s _ sampleFs_fresh rfl hs).2.2.2.1 7 ⟨rfl, by simp⟩ (by decide)
  refine ⟨s, s', hs, hs', ?_⟩
  exact (blocks_accounted sampleFs sampleFs [] sampleFs_fresh rfl .start).2.2.2.2 7 _ _ s s' rfl
    (sampleFs_fresh _ (by simp [sampleFs])) (by simp) hs hs'

end OperateSystem
