import OperateSystem.FsEnds
import OperateSystem.FsIo
import OperateSystem.FileSound
import OperateSystem.DirSound

/-!
# Descriptors and positions

A descriptor that is not open reaches the assertion in `fd_local2global` or the
memory behind `fd_table`, unless it is negative.

A slot keeps its inode in the cache: the count of an inode covers the slots that
point to it and the pointers that a running call holds. So the size that a slot's
position is compared with stays that of its file, and it only grows.
-/

namespace OperateSystem

open Function List

/-! ## Sizes -/

section
variable {part : Partition} {b : Build}
variable {ok : Bool} {st : DirWriting part}

theorem syncDirEntry_size {vol : Volume part} {inode : Inode} {e : DirEntry} {ioBuf : Mem}
    (h : syncDirEntry b vol inode e ioBuf = .ok (st, ok)) :
    st.inode.iSize = inode.iSize ∨ st.inode.iSize = inode.iSize + .ofNat dirEntrySize := by
  have hs : ∀ {k : Nat} {buf : Mem} {st0 : DirWriting part}, putEntry b k buf st0 = .ok (st, ok) →
      st.inode.iSize = st0.inode.iSize + .ofNat dirEntrySize := fun h => by
    obtain ⟨d, -, h⟩ := bind_ok.mp h
    cases h
    rfl
  cases syncDirEntry_end h with
  | free _ _ _ _ hput => exact .inr (hs hput)
  | add hk _ _ hadd =>
    cases addBlock_end hk hadd with
    | full => exact .inl rfl
    | direct _ _ hput => exact .inr (hs hput)
    | noTable => exact .inl rfl
    | table _ _ _ hput => exact .inr (hs hput)

def Writing.ends (st : Writing part) : UInt32 × UInt32 := (st.inode.iSize, st.fdPos)

theorem firstBlock_ends {st st' : Writing part} (h : firstBlock b st = .ok (st', ok)) : st'.ends = st.ends := by
  unfold firstBlock at h
  split at h
  · obtain ⟨⟨r, vol⟩, -, h⟩ := bind_ok.mp h
    cases r with
    | none =>
      cases h
      rfl
    | some lba =>
      simp only [bind_ok] at h
      obtain ⟨_, -, vol2, -, h⟩ := h
      cases h
      rfl
  · cases h
    rfl

theorem growBlocks_ends : ∀ (n k : Nat) (st st' : Writing part) (ok : Bool), growBlocks b n k st = .ok (st', ok) → st'.ends = st.ends
  | 0, k, st, st', ok, h => by
    cases h
    rfl
  | n + 1, k, st, st', ok, h => by
    simp only [growBlocks, bind_ok] at h
    obtain ⟨⟨r, vol⟩, -, h⟩ := h
    cases r with
    | none =>
      cases h
      rfl
    | some lba =>
      simp only [bind_ok] at h
      obtain ⟨i, hi, _, -, _, -, h⟩ := h
      rw [growBlocks_ends n _ _ _ _ h, Writing.ends, (setDirect_sameId hi).2]
      rfl

theorem collectBlocks_ends {st st' : Writing part} {has will : Nat}
    (h : collectBlocks b st has will = .ok (st', ok)) : st'.ends = st.ends := by
  have hs : ∀ {st1 : Writing part} {r : Bool} {x : Exec (Writing part × Bool)}, x = .ok (st', ok) →
      x = (if r then do
        let disk ← storeTable b st1.vol.disk (st1.inode.sec 12) st1.all
        return (st1.setDisk disk, true)
      else return (st1, false)) → st'.ends = st1.ends := by
    rintro st1 r x hx rfl
    split at hx
    · obtain ⟨disk, -, hx⟩ := bind_ok.mp hx
      cases hx
      rfl
    · cases hx
      rfl
  unfold collectBlocks at h
  split at h
  · split at h
    · obtain ⟨st1, hk, h⟩ := bind_ok.mp h
      cases h
      rw [keepBlock_ok hk]
      rfl
    · simp only [bind_ok] at h
      obtain ⟨_, -, all, -, h⟩ := h
      cases h
      rfl
  · split at h
    · simp only [bind_ok] at h
      obtain ⟨_, -, _, -, st1, hk, h⟩ := h
      rw [growBlocks_ends _ _ _ _ _ h, keepBlock_ok hk]
      rfl
    · split at h
      · simp only [bind_ok] at h
        obtain ⟨st1, hk, ⟨r, vol⟩, -, h⟩ := h
        rw [keepBlock_ok hk] at h
        cases r with
        | none =>
          cases h
          rfl
        | some lba =>
          simp only [bind_ok] at h
          obtain ⟨_, -, ⟨st2, r⟩, hg, h⟩ := h
          rw [hs h rfl, growBlocks_ends _ _ _ _ _ hg]
          rfl
      · simp only [bind_ok] at h
        obtain ⟨_, -, all, -, ⟨st2, r⟩, hg, h⟩ := h
        rw [hs h rfl, growBlocks_ends _ _ _ _ _ hg]
        rfl

theorem fileWrite_size {vol : Volume part} {i : Inode} {pos count : UInt32} {buf : Mem} {mem : Buffers} {st : Writing part}
    {ret : Option Nat} (h : fileWrite b vol i pos buf count mem = .ok (st, ret)) :
    (ret = none ∧ st.inode.iSize = i.iSize ∧ st.fdPos = pos) ∨
      (st.inode.iSize.toNat = i.iSize.toNat + count.toNat ∧ st.fdPos = st.inode.iSize - 1) := by
  have he : ∀ {st : Writing part}, st.ends = (i.iSize, pos) → st.inode.iSize = i.iSize ∧ st.fdPos = pos := fun e =>
    Prod.mk.inj e
  obtain ⟨hn, hw⟩ | ⟨st₁, -, hw, rfl⟩ := fileWrite_ok h
  · refine .inl ⟨hn, he ?_⟩
    unfold writeBlocks at hw
    split at hw
    · cases hw
      rfl
    split at hw
    · cases hw
      rfl
    obtain ⟨⟨st1, ok1⟩, h1, hw⟩ := bind_ok.mp hw
    cases ok1 with
    | false =>
      cases hw
      exact firstBlock_ends h1
    | true =>
      simp only [Bool.true_eq_false, ite_false, bind_ok] at hw
      obtain ⟨_, -, ⟨st2, ok2⟩, h2, hw⟩ := hw
      cases ok2 with
      | false =>
        cases hw
        exact (collectBlocks_ends h2).trans (firstBlock_ends h1)
      | true =>
        obtain ⟨st3, -, hw⟩ := bind_ok.mp hw
        cases hw
  · obtain ⟨-, st1, st2, h1, h2, h3⟩ := writeBlocks_cases hw
    have e2 := (collectBlocks_ends h2).trans (firstBlock_ends h1)
    obtain ⟨hs, hpos, -⟩ := writeData_ends _ _ _ _ _ h3 (by omega)
    refine .inr ⟨?_, ?_⟩
    · show st₁.inode.iSize.toNat = _
      rw [hs, (he e2).1, Nat.sub_zero]
    · calc st₁.fdPos = (st₁.fdPos - st₁.inode.iSize) + st₁.inode.iSize := by grind
        _ = (st2.inode.iSize - 1 - st2.inode.iSize) + st₁.inode.iSize := by rw [hpos]
        _ = st₁.inode.iSize - 1 := by grind

end

namespace Fs

variable {part : Partition} {b : Build} {s s' : Fs part} {p : Nat} {fd : Int32}
variable {mem : Buffers} {f : File} {g : Fin 32} {P : FsProc} {r : IoEnd part} {buf : Mem}
variable {d : Option (Fin 8)} {count : UInt32}

/-! ## Descriptors that are not open -/

theorem fdLocal2Global_fails (hP : s.procs p = some P) (hfd : P.NotOpen fd) (hpos : ¬ fd < 0) :
    ∃ f, s.fdLocal2Global p fd = .error f := by
  unfold fdLocal2Global
  rw [deref_ok.mpr hP, ok_bind]
  unfold inBounds
  split
  · rename_i hb
    rcases hfd with h | h | ⟨-, h⟩
    · exact absurd h hpos
    · exact absurd hb.2 (Int32.not_lt.mpr h)
    · rw [h]
      exact ⟨_, rfl⟩
  · exact ⟨_, rfl⟩

theorem not_refused_error {f : Fault} : ¬ s.Refused (.error f) := fun h => h

theorem isPipe_fails (hP : s.procs p = some P) (hfd : P.NotOpen fd) (hpos : ¬ fd < 0) :
    ∃ f, s.isPipe p fd = .error f := by
  obtain ⟨f, hf⟩ := fdLocal2Global_fails hP hfd hpos
  exact ⟨f, by rw [isPipe, hf, error_bind]⟩

theorem NotOpen.not_standard (hfd : P.NotOpen fd) (hpos : ¬ fd < 0) : fd ≠ 0 ∧ fd ≠ 1 ∧ fd ≠ 2 ∧ fd > 2 := by
  have h : 3 ≤ fd := by
    rcases hfd with h | h | ⟨h, -⟩
    · exact absurd h hpos
    · exact Int32.le_trans (by decide) h
    · exact h
  refine ⟨?_, ?_, ?_, Int32.lt_of_lt_of_le (by decide) h⟩ <;> rintro rfl <;> exact absurd h (by decide)

theorem sysWrite_refused_iff (hP : s.procs p = some P) (hfd : P.NotOpen fd) (buf : Mem) (count : UInt32)
    (mem : Buffers) :
    s.Refused (s.sysWrite .debug p fd buf count mem) ↔ fd < 0 := by
  unfold sysWrite
  by_cases hneg : fd < 0
  · rw [if_pos hneg]
    exact iff_of_true ⟨rfl, rfl, rfl, rfl⟩ hneg
  · obtain ⟨f, hf⟩ := isPipe_fails hP hfd hneg
    have hone := (NotOpen.not_standard hfd hneg).2.1
    rw [if_neg hneg, if_neg hone, hf, error_bind]
    exact iff_of_false not_refused_error hneg

theorem sysRead_refused_iff (hP : s.procs p = some P) (hfd : P.NotOpen fd) (buf : Option Mem)
    (count : UInt32) (mem : Buffers) :
    s.Refused (s.sysRead .debug p fd buf count mem) ↔ fd < 0 ∧ buf.isSome = true := by
  unfold sysRead
  by_cases hbuf : buf.isSome = true
  · rw [assert_of _ hbuf, ok_bind]
    by_cases hneg : fd < 0
    · rw [if_pos (.inl hneg)]
      exact iff_of_true ⟨rfl, rfl, rfl, rfl⟩ ⟨hneg, hbuf⟩
    · obtain ⟨f, hf⟩ := isPipe_fails hP hfd hneg
      obtain ⟨h0, h1, h2, -⟩ := NotOpen.not_standard hfd hneg
      rw [if_neg (by simp [hneg, h1, h2]), if_neg h0, hf, error_bind]
      exact iff_of_false not_refused_error fun h => hneg h.1
  · simp only [assert, if_neg hbuf, error_bind]
    exact iff_of_false not_refused_error fun h => hbuf h.2

theorem sysLseek_refused_iff (hP : s.procs p = some P) (hfd : P.NotOpen fd) (offset : Int32)
    (whence : UInt8) :
    s.Refused (s.sysLseek .debug p fd offset whence) ↔ fd < 0 := by
  unfold sysLseek
  by_cases hneg : fd < 0
  · rw [if_pos hneg]
    exact iff_of_true ⟨rfl, rfl, rfl, rfl⟩ hneg
  · obtain ⟨f, hf⟩ := fdLocal2Global_fails hP hfd hneg
    rw [if_neg hneg, hf]
    refine iff_of_false ?_ hneg
    cases assert .debug (whence > 0 ∧ whence < 4) "whence > 0 && whence < 4" <;> exact not_refused_error

theorem sysCloseFd_refused_iff (hP : s.procs p = some P) (hfd : P.NotOpen fd) :
    s.Refused (s.sysCloseFd .debug p fd) ↔ fd < 0 := by
  unfold sysCloseFd
  by_cases hneg : fd < 0
  · have hle : ¬ fd > 2 := Int32.not_lt.mpr (Int32.le_of_lt (Int32.lt_trans hneg (by decide)))
    rw [if_neg hle]
    exact iff_of_true ⟨rfl, rfl, rfl, rfl⟩ hneg
  · obtain ⟨f, hf⟩ := fdLocal2Global_fails hP hfd hneg
    rw [if_pos (NotOpen.not_standard hfd hneg).2.2.2, hf, error_bind]
    exact iff_of_false not_refused_error hneg

/-- **Only negative descriptors are refused.** The other ones that are not open stop the
machine. -/
theorem unopened_refused_iff {P : FsProc} (hP : s.procs p = some P) (hfd : P.NotOpen fd) :
    (∀ buf count mem, s.Refused (s.sysRead .debug p fd buf count mem) ↔ fd < 0 ∧ buf.isSome = true) ∧
      (∀ buf count mem, s.Refused (s.sysWrite .debug p fd buf count mem) ↔ fd < 0) ∧
      (∀ offset whence, s.Refused (s.sysLseek .debug p fd offset whence) ↔ fd < 0) ∧
      (s.Refused (s.sysCloseFd .debug p fd) ↔ fd < 0) :=
  ⟨sysRead_refused_iff hP hfd, sysWrite_refused_iff hP hfd, sysLseek_refused_iff hP hfd, sysCloseFd_refused_iff hP hfd⟩

theorem unopened_refused_minus_one : homeFs.Refused (homeFs.sysCloseFd .debug 1 (-1)) :=
  (unopened_refused_iff (s := homeFs) (p := 1) rfl (.inl (by decide))).2.2.2.mpr (by decide)

theorem unopened_close_stops : ∃ P, homeFs.procs 1 = some P ∧ P.NotOpen 3 ∧
    ¬ homeFs.Refused (homeFs.sysCloseFd .debug 1 3) :=
  ⟨_, rfl, .inr (.inr ⟨by decide, rfl⟩), fun h =>
    absurd ((sysCloseFd_refused_iff rfl (.inr (.inr ⟨by decide, rfl⟩))).mp h) (by decide)⟩

/-! ## Slots keep their inodes -/

variable {l l' : List Nat} {c c' : CachedInode} {a : Nat}

structure Held (s : Fs part) (l : List Nat) : Prop where
  addrs : (s.openInodes.map (·.addr)).Nodup
  users : ∀ a, 0 < s.slots a + l.count a → ∃ c ∈ s.openInodes, c.addr = a ∧ s.slots a + l.count a ≤ c.iOpenCnts

theorem Held.mono (h : s.Held l) (hi : s'.openInodes = s.openInodes)
    (hle : ∀ a, s'.slots a + l'.count a ≤ s.slots a + l.count a) : s'.Held l' := by
  refine ⟨by rw [hi]; exact h.addrs, fun a ha => ?_⟩
  obtain ⟨c, hc, hca, hcnt⟩ := h.users a (Nat.lt_of_lt_of_le ha (hle a))
  exact ⟨c, hi ▸ hc, hca, Nat.le_trans (hle a) hcnt⟩

theorem Held.store (h : s.Held l) (hc : c ∈ s.openInodes) (ha : c'.addr = c.addr)
    (hcnt : s.slots c.addr + l'.count c.addr ≤ c'.iOpenCnts) (ho : ∀ a, a ≠ c.addr → l'.count a = l.count a) :
    (s.store c').Held l' := by
  refine ⟨by rw [map_store (·.addr) h.addrs hc ha ha]; exact h.addrs, fun a hpos => ?_⟩
  by_cases hac : a = c.addr
  · exact ⟨c', (mem_store_iff hc ha).mpr (.inl rfl), ha.trans hac.symm, by rw [hac]; exact hcnt⟩
  · rw [ho a hac] at hpos ⊢
    obtain ⟨x, hx, rfl, hxc⟩ := h.users a hpos
    exact ⟨x, (mem_store_iff hc ha).mpr (.inr ⟨hx, hac⟩), rfl, hxc⟩

theorem Held.update (h : s.Held l) (hc : c ∈ s.openInodes) (ha : c'.addr = c.addr) (hcnt : c'.iOpenCnts = c.iOpenCnts) :
    (s.store c').Held l := by
  refine h.store hc ha ?_ fun _ _ => rfl
  rw [hcnt]
  by_cases hpos : 0 < s.slots c.addr + l.count c.addr
  · obtain ⟨x, hx, hxa, hle⟩ := h.users c.addr hpos
    rw [eq_of_addr h.addrs hc hx hxa] at hle
    exact hle
  · omega

theorem Held.newAddr (h : s.Held l) : s.slots s.newAddr + l.count s.newAddr = 0 := by
  by_contra hne
  obtain ⟨c, hc, e, -⟩ := h.users s.newAddr (Nat.pos_of_ne_zero hne)
  exact absurd (lt_newAddr hc) (by omega)

theorem Held.push {i : Inode} {pool : PoolFlags} (h : s.Held l) : (s.push ⟨s.newAddr, i, 1, pool⟩).Held (s.newAddr :: l) := by
  have hnew := h.newAddr
  refine ⟨nodup_cons.mpr ⟨fun hm => ?_, h.addrs⟩, fun a hpos => ?_⟩
  · obtain ⟨c, hc, e⟩ := mem_map.mp hm
    have e : c.addr = s.newAddr := e
    exact absurd (lt_newAddr hc) (by omega)
  · by_cases ha : a = s.newAddr
    · refine ⟨_, .head _, ha.symm, ?_⟩
      rw [ha, count_cons_self]
      show s.slots s.newAddr + (l.count s.newAddr + 1) ≤ 1
      omega
    · rw [count_cons_of_ne fun e => ha e.symm] at hpos ⊢
      obtain ⟨x, hx, hxa, hle⟩ := h.users a hpos
      exact ⟨x, .tail _ hx, hxa, hle⟩

theorem Held.opened {no : UInt32} (h : s.Held l) (hr : s.inodeOpen b no = .ok (s', a)) : s'.Held (a :: l) := by
  obtain ⟨c, hc, -, rfl, rfl⟩ | ⟨i, -, -, rfl, rfl⟩ := inodeOpen_cases hr
  · refine h.store hc rfl ?_ fun a ha => count_cons_of_ne fun e => ha e.symm
    rw [count_cons_self]
    show s.slots c.addr + (l.count c.addr + 1) ≤ c.iOpenCnts + 1
    by_cases hpos : 0 < s.slots c.addr + l.count c.addr
    · obtain ⟨x, hx, hxa, hle⟩ := h.users c.addr hpos
      rw [eq_of_addr h.addrs hc hx hxa] at hle
      omega
    · omega
  · exact h.push

theorem Held.closed (h : s.Held (a :: l)) (hr : s.inodeClose b a = .ok s') : s'.Held l := by
  obtain ⟨c, hca, hcs⟩ := inodeClose_cases hr
  obtain ⟨hc, rfl⟩ := cached_ok hca
  have ho : ∀ a, a ≠ c.addr → l.count a = (c.addr :: l).count a := fun a ha =>
    (count_cons_of_ne fun e => ha e.symm).symm
  have hcnt : s.slots c.addr + (l.count c.addr + 1) ≤ c.iOpenCnts := by
    have hs : (c.addr :: l).count c.addr = l.count c.addr + 1 := count_cons_self
    obtain ⟨x, hx, hxa, hle⟩ := h.users c.addr (by omega)
    rwa [eq_of_addr h.addrs hc hx hxa, hs] at hle
  obtain ⟨hone, -, rfl⟩ | ⟨hone, rfl⟩ := hcs
  · -- the last user
    refine ⟨(filter_sublist.map _).nodup h.addrs, fun a hpos => ?_⟩
    have hpos : 0 < s.slots a + l.count a := hpos
    have hac : a ≠ c.addr := by
      rintro rfl
      omega
    rw [ho a hac] at hpos ⊢
    obtain ⟨x, hx, rfl, hle⟩ := h.users a hpos
    exact ⟨x, mem_filter.mpr ⟨hx, by simpa using hac⟩, rfl, hle⟩
  · exact h.store hc rfl (by show _ ≤ c.iOpenCnts - 1; omega) ho

/-! ## Positions -/

theorem PosOk.congr (h : s.PosOk) (hi : s'.openInodes = s.openInodes) (hf : s'.fileTable = s.fileTable) : s'.PosOk := by
  unfold PosOk
  rw [hi, hf]
  exact h

theorem PosOk.store (h : s.PosOk) (hc : c ∈ s.openInodes) (ha : c'.addr = c.addr) (hle : c.inode.iSize ≤ c'.inode.iSize) :
    (s.store c').PosOk := by
  intro g a hg hf x hx hxa
  rcases (mem_store_iff hc ha).mp hx with rfl | ⟨hx, -⟩
  · exact UInt32.le_trans (h g a hg hf c hc (ha.symm.trans hxa)) hle
  · exact h g a hg hf x hx hxa

theorem setFile_self : (s.setFile g f).fileTable g = f := update_self ..

theorem PosOk.setFile (h : s.PosOk) (hf : ∀ a, f.fdInode = some a → f.fdFlag ≠ pipeFlag →
    ∀ c ∈ s.openInodes, c.addr = a → f.fdPos ≤ c.inode.iSize) : (s.setFile g f).PosOk := by
  intro g' a hg hfl x hx hxa
  by_cases hgg : g' = g
  · subst hgg
    rw [setFile_self] at hg hfl ⊢
    exact hf a hg hfl x hx hxa
  · have hk : (s.setFile g f).fileTable g' = s.fileTable g' := update_of_ne hgg ..
    rw [hk] at hg hfl ⊢
    exact h g' a hg hfl x hx hxa

def Kept (s : Fs part) (l : List Nat) : Prop := s.Held l ∧ s.PosOk

theorem Kept.push {i : Inode} {pool : PoolFlags} (h : s.Kept l) : (s.push ⟨s.newAddr, i, 1, pool⟩).Kept (s.newAddr :: l) := by
  refine ⟨h.1.push, fun g a hg hf x hx hxa => ?_⟩
  rcases mem_cons.mp hx with rfl | hx
  · -- no slot refers to a new inode
    have hpos := slots_pos hg
    have hnew := h.1.newAddr
    rw [← hxa] at hpos
    have hpos : 0 < s.slots s.newAddr := hpos
    omega
  · exact h.2 g a hg hf x hx hxa

theorem kept_tracks (b : Build) : Tracks b fun (s : Fs part) l => s.Kept l where
  opened {s s' no a l} h hr := by
    have hh := h.1.opened hr
    obtain ⟨c, hc, -, rfl, rfl⟩ | ⟨i, -, -, rfl, rfl⟩ := inodeOpen_cases hr
    · exact ⟨hh, h.2.store hc rfl (UInt32.le_refl _)⟩
    · exact h.push
  closed {s s' a l} h hr := by
    refine ⟨h.1.closed hr, ?_⟩
    obtain ⟨c, hca, ⟨-, -, rfl⟩ | ⟨-, rfl⟩⟩ := inodeClose_cases hr
    · exact fun g a hg hf x hx hxa => h.2 g a hg hf x (mem_filter.mp hx).1 hxa
    · exact h.2.store (cached_ok hca).1 rfl (UInt32.le_refl _)

theorem Kept.congr (h : s.Kept l) (hi : s'.openInodes = s.openInodes) (hf : s'.fileTable = s.fileTable) : s'.Kept l := by
  refine ⟨h.1.mono hi fun a => ?_, h.2.congr hi hf⟩
  unfold slots
  rw [hf]

theorem Kept.install (h : s.Kept (a :: l)) (hfr : (s.fileTable g).fdInode = none)
    (hf : f.fdInode = some a) (hpos : f.fdPos = 0) : (s.setFile g f).Kept l := by
  refine ⟨h.1.mono rfl fun x => ?_, h.2.setFile fun x _ _ c _ _ => ?_⟩
  · have hs := slots_setFile s g f x
    rw [hfr, hf, if_neg (by simp)] at hs
    by_cases hx : x = a
    · rw [hx, count_cons_self]
      rw [hx, if_pos rfl] at hs
      omega
    · rw [count_cons_of_ne fun e => hx e.symm]
      rw [if_neg fun e => hx (Option.some.inj e).symm] at hs
      omega
  · rw [hpos]
    exact UInt32.zero_le

theorem Kept.clear (h : s.Kept l) (hg : (s.fileTable g).fdInode = some a) (hf : f.fdInode = none) :
    (s.setFile g f).Kept (a :: l) := by
  refine ⟨h.1.mono rfl fun x => ?_, h.2.setFile fun x hx _ c _ _ => ?_⟩
  · have hs := slots_setFile s g f x
    rw [hg, hf, if_neg (by simp : ¬ none = some x)] at hs
    by_cases hx : x = a
    · rw [hx, count_cons_self]
      rw [hx, if_pos rfl] at hs
      omega
    · rw [count_cons_of_ne fun e => hx e.symm]
      omega
  · rw [hf] at hx
    cases hx

theorem Kept.setFile (h : s.Kept l) (hf : ∀ a, f.fdInode = some a → (s.fileTable g).fdInode = some a ∧
    (f.fdFlag ≠ pipeFlag → ∀ c ∈ s.openInodes, c.addr = a → f.fdPos ≤ c.inode.iSize)) :
    (s.setFile g f).Kept l := by
  refine ⟨h.1.mono rfl fun x => ?_, h.2.setFile fun x hx hfl c hc hcx => (hf x hx).2 hfl c hc hcx⟩
  have hs := slots_setFile s g f x
  by_cases hx : f.fdInode = some x
  · rw [if_pos hx, if_pos (hf x hx).1] at hs
    omega
  · rw [if_neg hx] at hs
    omega

theorem Kept.drop (h : s.Kept (l' ++ l)) : s.Kept l :=
  ⟨h.1.mono rfl fun _ => Nat.add_le_add_left (by rw [count_append]; exact Nat.le_add_left _ _) _, h.2⟩

theorem Kept.update (h : s.Kept l) (hc : c ∈ s.openInodes) (ha : c'.addr = c.addr) (hcnt : c'.iOpenCnts = c.iOpenCnts)
    (hle : c.inode.iSize ≤ c'.inode.iSize) : (s.store c').Kept l := ⟨h.1.update hc ha hcnt, h.2.store hc ha hle⟩

/-! ## The calls -/

theorem link_ok {parent : Nat} {e : DirEntry} {new : Inode} {ok : Bool} (hr : s.link b parent e new = .ok (s', ok)) :
    ∃ c i vol, s.cached parent = .ok c ∧ s' = (s.setVol vol).store { c with inode := i } ∧
      (i.iSize = c.inode.iSize ∨ i.iSize = c.inode.iSize + .ofNat dirEntrySize) := by
  obtain ⟨c, st, vol, hc, hs, hs', -⟩ := link_cases hr
  exact ⟨c, st.inode, vol, hc, hs', syncDirEntry_size hs⟩

theorem pcbFdInstall_kept (hr : s.pcbFdInstall p g = .ok (s', d)) (h : s.Kept l) : s'.Kept l := by
  obtain ⟨-, rfl⟩ | ⟨P, d, -, -, -, rfl⟩ := pcbFdInstall_cases hr
  · exact h
  · exact h.congr rfl rfl

theorem free_slot (h : s.getFreeSlotInGlobal = some g) : (s.fileTable g).fdInode = none := by
  have := List.find?_some h
  simp only [Bool.and_eq_true, Option.isNone_iff_eq_none] at this
  exact this.2

theorem Kept.fileOpen {no : UInt32} {flag : UInt8} (h : s.Kept l)
    (hr : s.fileOpen b p no flag = .ok (s', d)) : s'.Kept l := by
  unfold Fs.fileOpen at hr
  split at hr
  · cases hr
    exact h
  · rename_i g hf
    obtain ⟨⟨s1, a⟩, ho, hr⟩ := bind_ok.mp hr
    have hf : (s1.fileTable g).fdInode = none := by
      rw [(CacheStep.opened ho).rest.fileTable]
      exact free_slot hf
    have h1 : (s1.setFile g ⟨0, flag.toUInt32, some a⟩).Kept l := ((kept_tracks b).opened h ho).install hf rfl rfl
    dsimp only at hr
    split at hr
    · obtain ⟨c, hc, hr⟩ := bind_ok.mp hr
      split at hr
      · cases hr
        exact h1
      · exact pcbFdInstall_kept hr (h1.update (cached_ok hc).1 rfl rfl (UInt32.le_refl _))
    · exact pcbFdInstall_kept hr h1

theorem Kept.fileCreate {env : CallEnv} {parent : Nat} {filename : List UInt8} {flag : UInt8}
    (h : s.Kept l) (hs : ∀ c, s.cached parent = .ok c → c.inode.iSize.toNat + dirEntrySize < 2 ^ 32)
    (hr : s.fileCreate b env p parent filename flag = .ok (s', d)) : s'.Kept l := by
  unfold Fs.fileCreate Fs.fileCreateVia at hr
  split at hr
  · cases hr
    exact h
  · obtain ⟨⟨r, vol⟩, -, hr⟩ := bind_ok.mp hr
    cases r with
    | none =>
      cases hr
      exact h.congr rfl rfl
    | some n =>
      dsimp only at hr
      split at hr
      · cases hr
        exact h.congr rfl rfl
      · split at hr
        · cases hr
          exact h.congr rfl rfl
        · rename_i g hf
          have hf := free_slot hf
          simp only [bind_ok] at hr
          obtain ⟨e, -, ⟨s2, ok⟩, hl, hr⟩ := hr
          obtain ⟨c, i, vol2, hc, hs2, hi⟩ := link_ok hl
          have hle : c.inode.iSize ≤ i.iSize := by
            rcases hi with e | e
            · rw [e]
              exact UInt32.le_refl _
            · have := hs c hc
              rw [e, UInt32.le_iff_toNat_le, UInt32.toNat_add, UInt32.toNat_ofNat', Nat.mod_eq_of_lt (a := dirEntrySize) (by decide),
                Nat.mod_eq_of_lt this]
              exact Nat.le_add_right _ _
          have h1 : ((s.setVol vol2).store { c with inode := i }).Kept l :=
            Kept.update (h.congr rfl rfl) (cached_ok hc).1 rfl rfl hle
          split at hr
          · have hnew : ((s.setVol vol2).store { c with inode := i }).newAddr = s.newAddr := by
              unfold Fs.newAddr
              have hmap : ((s.setVol vol2).store { c with inode := i }).openInodes.map (·.addr) = s.openInodes.map (·.addr) :=
                map_store (·.addr) h.1.addrs (cached_ok hc).1 rfl rfl
              rw [hmap]
              rfl
            have h2 : (((s.setVol vol2).store { c with inode := i }).push
                ⟨s.newAddr, inodeInit (.ofNat n), 1, (s.setVol vol).callerPool p⟩).Kept (s.newAddr :: l) := by
              rw [← hnew]
              exact h1.push
            have h3 := h2.install (g := g) (f := ⟨0, flag.toUInt32, some s.newAddr⟩) hf rfl rfl
            refine pcbFdInstall_kept hr (h3.congr ?_ ?_) <;> rw [hs2] <;> rfl
          · cases hr
            have h2 : (((s.setVol vol2).store { c with inode := i }).setFile g ⟨0, 0, none⟩).Kept l :=
              h1.setFile fun a ha => by cases ha
            refine h2.congr (by rw [hs2]; rfl) ?_
            rw [hs2]
            exact update_idem ..

theorem inodeClose_setFile (hr : s.inodeClose b a = .ok s') :
    (s.setFile g f).inodeClose b a = .ok (s'.setFile g f) := by
  unfold inodeClose at hr ⊢
  have hca : (s.setFile g f).cached a = s.cached a := rfl
  rw [hca]
  obtain ⟨c, hc, hr⟩ := bind_ok.mp hr
  rw [hc, ok_bind]
  split at hr
  · rename_i hone
    obtain ⟨u, hpo, hr⟩ := bind_ok.mp hr
    cases hr
    rw [if_pos hone, hpo]
    rfl
  · rename_i hone
    cases hr
    rw [if_neg hone]
    rfl

theorem Kept.fileClose (h : s.Kept l) (hr : s.fileClose b g = .ok s') : s'.Kept l := by
  unfold Fs.fileClose at hr
  simp only [bind_ok, deref_ok] at hr
  obtain ⟨a, ha, c, hc, s1, h1, hr⟩ := hr
  cases hr
  have h0 : (s.store { c with inode := { c.inode with writeDeny := 0 } }).Kept l :=
    h.update (cached_ok hc).1 rfl rfl (UInt32.le_refl _)
  exact (kept_tracks b).closed (h0.clear (f := { s.fileTable g with fdInode := none }) ha rfl) (inodeClose_setFile h1)

theorem Kept.sysClose {d : Fin 8} (h : s.Kept l) (hr : s.sysClose b p d = .ok s') : s'.Kept l := by
  obtain ⟨P, -, hr⟩ := bind_ok.mp hr
  split at hr
  · cases hr
  rename_i g _
  obtain ⟨s1, h1, hr⟩ := bind_ok.mp hr
  cases hr
  have h2 : s1.Kept l := by
    split at h1
    · rename_i hf
      cases h1
      refine h.setFile fun a ha => ⟨?_, fun hne => absurd hf hne⟩
      split at ha
      · cases ha
      · exact ha
    · exact h.fileClose h1
  exact h2.congr rfl rfl

theorem Kept.sysOpen {env : CallEnv} {pathname : List UInt8} {flags : UInt8} (h : s.Kept [])
    (hsi : (FileCall.sysOpen env p pathname flags).Sized b s)
    (hr : s.sysOpen b env p pathname flags = .ok (s', d)) : s'.Kept [] := by
  cases sysOpen_end hr with
  | slash => exact h
  | refused hs _ hcl => exact (kept_tracks b).dirClose ((kept_tracks b).searchFile h hs) hcl
  | created _ hs _ _ _ hcr hcl =>
    have h1 := (kept_tracks b).searchFile h hs
    exact (kept_tracks b).dirClose (h1.fileCreate (fun c hc => hsi _ _ _ c hs hc) hcr) hcl
  | opened _ hs _ _ ho =>
    -- the directory stays open
    have h1 := (kept_tracks b).searchFile h hs
    exact Kept.drop (l := []) (by rw [append_nil]; exact h1.fileOpen ho)

theorem Kept.fileWrite {ret : Option Nat} (h : s.Kept l)
    (hs : count = 0 → ∀ c, (s.fileTable g).fdInode = some c.addr → s.cached c.addr = .ok c → c.inode.iSize ≠ 0)
    (hr : s.fileWrite b g buf count mem = .ok (s', ret)) : s'.Kept l := by
  unfold Fs.fileWrite at hr
  simp only [bind_ok, deref_ok] at hr
  obtain ⟨a, ha, c, hc, ⟨st, r⟩, hw, hr⟩ := hr
  cases hr
  obtain ⟨hmem, rfl⟩ := cached_ok hc
  have he := fileWrite_size hw
  have hle : c.inode.iSize ≤ st.inode.iSize := by
    rcases he with ⟨-, e, -⟩ | ⟨e, -⟩
    · rw [e]
      exact UInt32.le_refl _
    · rw [UInt32.le_iff_toNat_le, e]
      exact Nat.le_add_right _ _
  have h1 : ((s.setVol st.vol).store { c with inode := st.inode }).Kept l := Kept.update (h.congr rfl rfl) hmem rfl rfl hle
  refine h1.setFile fun a' ha' => ⟨ha', fun hf x hx hxa => ?_⟩
  have hx : x = { c with inode := st.inode } := by
    rcases (mem_store_iff hmem (by rfl)).mp hx with e | ⟨-, hne⟩
    · exact e
    · rw [ha] at ha'
      exact absurd (hxa.trans (Option.some.inj ha').symm) hne
  rw [hx]
  show st.fdPos ≤ st.inode.iSize
  rcases he with ⟨-, e, e'⟩ | ⟨e, e'⟩
  · rw [e, e']
    exact h.2 g c.addr ha hf c hmem rfl
  · have hne : st.inode.iSize.toNat ≠ 0 := fun hz => by
      have hco : count = 0 := UInt32.toNat.inj (by rw [UInt32.toNat_zero]; omega)
      exact hs hco c ha hc (UInt32.toNat.inj (by rw [UInt32.toNat_zero]; omega))
    have hone : (1 : UInt32) ≤ st.inode.iSize := by
      rw [UInt32.le_iff_toNat_le, UInt32.toNat_one]
      omega
    rw [e', UInt32.le_iff_toNat_le, UInt32.toNat_sub_of_le _ _ hone]
    omega

theorem Kept.fileRead (h : s.Kept l) (hr : s.fileRead b g buf count mem = .ok r) (hend : r.fs = some s') :
    s'.Kept l := by
  unfold Fs.fileRead at hr
  simp only [bind_ok, deref_ok] at hr
  obtain ⟨a, ha, c, hc, x, hre, hr⟩ := hr
  cases hr
  cases hend
  obtain ⟨hmem, rfl⟩ := cached_ok hc
  refine h.setFile fun a' ha' => ⟨ha', fun hf y hy hya => ?_⟩
  have hy : y = c := eq_of_addr h.1.addrs hmem hy (hya.trans (Option.some.inj (ha'.symm.trans ha)))
  rw [hy]
  exact UInt32.le_iff_toNat_le.mpr (fileRead_bounds (UInt32.le_iff_toNat_le.mp (h.2 g c.addr ha hf c hmem rfl)) hre).2

theorem pipeCall_fs {c : IoCall} (hr : s.pipeCall p fd c = .ok r) : r.fs = none := by
  unfold pipeCall at hr
  simp only [bind_ok] at hr
  obtain ⟨g, -, ioq, -, hr⟩ := hr
  cases hr
  rfl

theorem sysWrite_cases (hr : s.sysWrite b p fd buf count mem = .ok r) (hend : r.fs = some s') :
    (s' = s ∧ r = .ret s none) ∨
      ∃ g ret, s.fdLocal2Global p fd = .ok g ∧ s.fileWrite b g buf count mem = .ok (s', ret) ∧ r = .ret s' ret := by
  have hpi : s.pipeCall p fd (.pipeWrite buf count) ≠ .ok r := fun e => by
    rw [pipeCall_fs e] at hend
    cases hend
  unfold Fs.sysWrite at hr
  split at hr
  · cases hr
    cases hend
    exact .inl ⟨rfl, rfl⟩
  split at hr
  · obtain ⟨x, -, hr⟩ := bind_ok.mp hr
    split at hr
    · exact absurd hr hpi
    · obtain ⟨_, -, hr⟩ := bind_ok.mp hr
      cases hr
      cases hend
  · obtain ⟨x, -, hr⟩ := bind_ok.mp hr
    split at hr
    · exact absurd hr hpi
    obtain ⟨g, hg, hr⟩ := bind_ok.mp hr
    dsimp only at hr
    split at hr
    · obtain ⟨⟨s1, ret⟩, hw, hr⟩ := bind_ok.mp hr
      cases hr
      cases hend
      exact .inr ⟨g, ret, hg, hw, rfl⟩
    · cases hr
      cases hend
      exact .inl ⟨rfl, rfl⟩

theorem sysWrite_kept (h : s.Kept l) (hs : (FileCall.sysWrite p fd buf count mem).Sized b s)
    (hr : s.sysWrite b p fd buf count mem = .ok r) (hend : r.fs = some s') : s'.Kept l := by
  obtain ⟨rfl, -⟩ | ⟨g, ret, hg, hw, -⟩ := sysWrite_cases hr hend
  · exact h
  · exact h.fileWrite (fun hco c hi hc => hs hco g c ⟨hg, hi, hc⟩) hw

theorem sysRead_kept {buf : Option Mem} (h : s.Kept l) (hr : s.sysRead b p fd buf count mem = .ok r)
    (hend : r.fs = some s') : s'.Kept l := by
  have hpi : s.pipeCall p fd (.pipeRead count) ≠ .ok r := fun e => by
    rw [pipeCall_fs e] at hend
    cases hend
  obtain ⟨_, -, hr⟩ := bind_ok.mp hr
  split at hr
  · cases hr
    cases hend
    exact h
  split at hr
  · obtain ⟨x, -, hr⟩ := bind_ok.mp hr
    split at hr
    · exact absurd hr hpi
    · cases hr
      cases hend
  · obtain ⟨x, -, hr⟩ := bind_ok.mp hr
    split at hr
    · exact absurd hr hpi
    · obtain ⟨g, -, hr⟩ := bind_ok.mp hr
      exact h.fileRead hr hend

theorem sysLseek_kept {offset : Int32} {whence : UInt8} (h : s.Kept l)
    (hr : s.sysLseek b p fd offset whence = .ok r) (hend : r.fs = some s') : s'.Kept l := by
  unfold Fs.sysLseek at hr
  split at hr
  · cases hr
    cases hend
    exact h
  simp only [bind_ok, deref_ok] at hr
  obtain ⟨_, -, g, -, a, ha, c, hc, hr⟩ := hr
  split at hr
  · cases hr
    cases hend
    exact h
  · rename_i pos hpos
    cases hr
    cases hend
    obtain ⟨hmem, rfl⟩ := cached_ok hc
    refine h.setFile fun a' ha' => ⟨ha', fun _ y hy hya => ?_⟩
    have hy : y = c := eq_of_addr h.1.addrs hmem hy (hya.trans (Option.some.inj (ha'.symm.trans ha)))
    rw [hy]
    exact PipeState.seekPos_le hpos

theorem Kept.step {call : FileCall} (h : s.Kept []) (hs : call.Sized b s) (hst : FileStep b call s s') : s'.Kept [] := by
  obtain ⟨r, hr, hend⟩ := hst
  cases call with
  | sysOpen env p pathname flags =>
    obtain ⟨⟨s1, d⟩, ho, hr⟩ := bind_ok.mp hr
    cases hr
    cases hend
    exact h.sysOpen hs ho
  | sysWrite p fd buf count mem => exact sysWrite_kept h hs hr hend
  | sysRead p fd buf count mem => exact sysRead_kept h hr hend
  | sysLseek p fd offset whence => exact sysLseek_kept h hr hend
  | sysClose p fd =>
    have hr : s.sysCloseFd b p fd = .ok r := hr
    unfold sysCloseFd at hr
    split at hr
    · simp only [bind_ok] at hr
      obtain ⟨g, -, s1, hc, hr⟩ := hr
      cases hr
      cases hend
      exact h.sysClose hc
    · cases hr
      cases hend
      exact h

theorem Mounted.kept (h : s.Mounted) : s.Kept [] := by
  obtain ⟨i, hi, -⟩ := h.root
  refine ⟨⟨by rw [hi]; exact nodup_singleton _, fun a ha => ?_⟩, fun g a hg => ?_⟩
  · -- no slot refers to an inode
    have hz : s.slots a = 0 := by
      unfold slots
      simp [h.fileTable]
    rw [hz] at ha
    cases ha
  · rw [h.fileTable g] at hg
    cases hg

theorem fileWrite_nothing {n : Nat} (hf : (s.fileTable g).fdInode = some c.addr)
    (hfl : (s.fileTable g).fdFlag ≠ pipeFlag) (hc : s.cached c.addr = .ok c)
    (he : c.inode.iSize = 0) (hr : s.fileWrite b g buf 0 mem = .ok (s', some n)) : ¬ s'.PosOk := by
  unfold Fs.fileWrite at hr
  simp only [bind_ok, deref_ok] at hr
  obtain ⟨a, ha, c2, hc2, ⟨st, r⟩, hw, hr⟩ := hr
  obtain rfl := Option.some.inj (ha.symm.trans hf)
  cases hc2.symm.trans hc
  cases hr
  obtain ⟨hret, -⟩ | ⟨hs, hpos⟩ := fileWrite_size hw
  · cases hret
  have hs : st.inode.iSize = 0 := UInt32.toNat.inj (by rw [hs, he]; rfl)
  intro h
  have h := h g c.addr
  rw [setFile_self] at h
  have hle : st.fdPos ≤ st.inode.iSize :=
    h hf hfl { c with inode := st.inode } ((mem_store_iff (cached_ok hc).1 (by rfl)).mpr (.inl rfl)) rfl
  rw [hpos, hs] at hle
  exact absurd hle (by decide)

theorem sysWrite_nothing {n : Nat} (hl : s.Leads p fd g c)
    (hfl : (s.fileTable g).fdFlag ≠ pipeFlag) (he : c.inode.iSize = 0)
    (hr : s.sysWrite b p fd buf 0 mem = .ok (.ret s' (some n))) : ¬ s'.PosOk := by
  obtain ⟨hg, hf, hc⟩ := hl
  obtain ⟨-, e⟩ | ⟨g2, ret, hg2, hw, e⟩ := sysWrite_cases hr rfl
  · cases e
  · cases hg2.symm.trans hg
    cases e
    exact fileWrite_nothing hf hfl hc he hw

/-- **Positions stay within files**, in runs that write nothing to no empty file; a
`sys_write` of nothing to an empty file that succeeds breaks this. -/
theorem file_pos_le_size_iff (h : Reach (fun s s' => ∃ call : FileCall, call.Sized b s ∧ FileStep b call s s') Mounted s) :
    s.PosOk ∧ ∀ p fd g c buf mem s' n, s.Leads p fd g c → (s.fileTable g).fdFlag ≠ pipeFlag → c.inode.iSize = 0 →
      s.sysWrite b p fd buf 0 mem = .ok (.ret s' (some n)) → ¬ s'.PosOk := by
  have hke : s.Kept [] := by
    refine h.invariant (fun _ hs => hs.kept) ?_
    rintro s s' hk ⟨call, hsi, hst⟩
    exact hk.step hsi hst
  exact ⟨hke.2, fun _ _ _ _ _ _ _ _ hl hf he hr => sysWrite_nothing hl hf he hr⟩

def after (s : Fs part) (call : FileCall) : Fs part := ((call.run .debug s).toOption.bind IoEnd.fs).getD s

theorem after_step {call : FileCall} (h : ((call.run .debug s).toOption.bind IoEnd.fs).isSome = true) :
    FileStep .debug call s (s.after call) := by
  obtain ⟨s', hs'⟩ := Option.isSome_iff_exists.mp h
  obtain ⟨r, hr, hend⟩ := Option.bind_eq_some_iff.mp hs'
  refine ⟨r, ?_, ?_⟩
  · cases hrun : call.run .debug s with
    | ok x =>
      rw [hrun] at hr
      cases hr
      rfl
    | error f =>
      rw [hrun] at hr
      cases hr
  · rw [hend, after, hs']
    rfl

def openHomeFile : FileCall := .sysOpen homeEnv 0 [47, 97, 47, 102] oRdwr

def writeHomeFile (count : UInt32) : FileCall := .sysWrite 0 3 (fun _ => 65) count ⟨true, true⟩

theorem openHomeFile_sized : openHomeFile.Sized .debug homeFs := by
  intro s1 record no c hse hc
  have hs : (match searchFile .debug homeFs [47, 97, 47, 102] homeEnv.lookups homeEnv.oldNo with
      | .ok (s1, record, _) => (s1.cached record.parentDir.inode).toOption.all fun c => c.inode.iSize.toNat + dirEntrySize < 2 ^ 32
      | .error _ => true) = true := by decide +kernel
  rw [hse] at hs
  dsimp only at hs
  rw [hc] at hs
  exact of_decide_eq_true hs

theorem file_pos_le_size_one : ((homeFs.after openHomeFile).after (writeHomeFile 1)).PosOk := by
  have h1 : Reach (fun s s' => ∃ call : FileCall, call.Sized .debug s ∧ FileStep .debug call s s') Mounted (homeFs.after openHomeFile) :=
    (Reach.refl homeFs_mounted).tail ⟨openHomeFile, openHomeFile_sized, after_step (by decide +kernel)⟩
  have h2 := h1.tail ⟨writeHomeFile 1, fun h => absurd h (by decide), after_step (by decide +kernel)⟩
  exact (file_pos_le_size_iff h2).1

/-- Nothing is written to the file, and its position is `0xffffffff`. -/
theorem file_pos_behind_end : Reach (fun s s' => ∃ call : FileCall, FileStep .debug call s s') Mounted
      ((homeFs.after openHomeFile).after (writeHomeFile 0)) ∧
    ¬ ((homeFs.after openHomeFile).after (writeHomeFile 0)).PosOk := by
  refine ⟨((Reach.refl homeFs_mounted).tail ⟨openHomeFile, after_step (by decide +kernel)⟩).tail
    ⟨writeHomeFile 0, after_step (by decide +kernel)⟩, fun h => ?_⟩
  have ho : (((homeFs.after openHomeFile).after (writeHomeFile 0)).openInodes.any fun c =>
      ((((homeFs.after openHomeFile).after (writeHomeFile 0)).fileTable 3).fdInode = some c.addr ∧
        (((homeFs.after openHomeFile).after (writeHomeFile 0)).fileTable 3).fdFlag ≠ pipeFlag) ∧
        ¬ (((homeFs.after openHomeFile).after (writeHomeFile 0)).fileTable 3).fdPos ≤ c.inode.iSize) = true := by decide +kernel
  obtain ⟨c, hc, ho⟩ := any_eq_true.mp ho
  obtain ⟨⟨hf, hfl⟩, hlt⟩ := of_decide_eq_true ho
  exact hlt (h 3 c.addr hf hfl c hc rfl)

end Fs

end OperateSystem
