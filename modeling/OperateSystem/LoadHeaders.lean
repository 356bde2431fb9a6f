import OperateSystem.LoadReads

/-!
# The program headers of a file

Which headers of type `PT_LOAD` a load finds is a function of the bytes of the file
and of its size. A load keeps to user memory, and clear of the caller's heap, if
all of them do.
-/

namespace OperateSystem

/-! ## The headers -/

/-- What a header of type `PT_LOAD` says about its segment. -/
structure PtLoad where
  offset : UInt32
  filesz : UInt32
  vaddr : UInt32
  memsz : UInt32
  deriving DecidableEq

def ptLoad (F : Mem) (off : Nat) : Option PtLoad :=
  let m : Mem := fun k => F (off + k)
  let ph := Phdr.ofMem m
  if ph.pType = 1 then some ⟨ph.pOffset, ph.pFilesz, ph.pVaddr, word m 20⟩ else none

/-- The file position after a `sys_lseek` to `off`, which a file of `size` bytes refuses behind
its end. -/
def seekTo (size : Nat) (off : UInt32) (pos : Nat) : Nat := if off.toNat < size then off.toNat else pos

namespace PtLoad

def delivered (g : PtLoad) (n : Nat) : Segment := ⟨g.offset, g.filesz, g.vaddr, n⟩

def InUser (g : PtLoad) : Prop :=
  userVaddrStart ≤ g.vaddr.toNat ∧ g.vaddr.toNat < userVaddrEnd ∧ g.vaddr.toNat + g.filesz.toNat ≤ userVaddrEnd

/-- Where the file position is after the read of the segment. -/
def readEnd (g : PtLoad) (size pos : Nat) : Nat := min (seekTo size g.offset pos + g.filesz.toNat) size

end PtLoad

theorem Phdr.ofMem_congr {m m' : Mem} (h : ∀ k < 32, m k = m' k) : Phdr.ofMem m = Phdr.ofMem m' := by
  have hw : ∀ a, a + 4 ≤ 32 → word m a = word m' a := fun a ha => word_congr fun j hj => h _ (by omega)
  unfold Phdr.ofMem
  rw [hw 0 (by decide), hw 4 (by decide), hw 8 (by decide), hw 16 (by decide)]

theorem Ehdr.ofMem_congr {m m' : Mem} (h : ∀ k < 52, m k = m' k) : Ehdr.ofMem m = Ehdr.ofMem m' := by
  have hw : ∀ a, a + 4 ≤ 52 → word m a = word m' a := fun a ha => word_congr fun j hj => h _ (by omega)
  have hh : ∀ a, a + 2 ≤ 52 → half m a = half m' a := fun a ha => by
    unfold half
    rw [h a (by omega), h (a + 1) (by omega)]
  have hi : (List.range 16).map m = (List.range 16).map m' :=
    List.map_congr_left fun k hk => h k (by have := List.mem_range.mp hk; omega)
  unfold Ehdr.ofMem
  rw [hi, hh 16 (by decide), hh 18 (by decide), hw 20 (by decide), hw 24 (by decide), hw 28 (by decide),
    hh 42 (by decide), hh 44 (by decide)]

section
variable {disk : Mem} {inode : Inode} {bufs : Nat → Buffers} {F : Mem} {st st' : Loading}

theorem fileRead_bytes {pos count : UInt32} {buf : Mem} {mem : Buffers} {r : ReadResult} (hf : FileInv disk inode F)
    (hin : pos.toNat + count.toNat ≤ inode.iSize.toNat) (h : fileRead .debug disk inode pos buf count mem = .ok r) :
    ∀ k < r.ret.getD 0, r.buf k = F (pos.toNat + k) := by
  have hs := hf.size_le
  have hle := (fileRead_bounds (by omega) h).1
  intro k hk
  rcases fileRead_cases h with ⟨rfl, -⟩ | ⟨_, _, _, _, -, hio, hall⟩
  · exact absurd hk (Nat.not_lt_zero k)
  · obtain ⟨io, all⟩ := mem
    obtain rfl : io = true := hio
    obtain rfl : all = true := hall
    obtain ⟨hret, -, hb, -⟩ := fileRead_spec hf (by omega) (by omega) h
    rw [hret] at hk
    exact hb k hk

theorem readLocal_bytes {count : UInt32} {buf : Mem} (hf : FileInv disk inode F)
    (hin : st.fdPos.toNat + count.toNat ≤ inode.iSize.toNat)
    (h : st.readLocal .debug disk inode bufs count = .ok (st', buf, some count.toNat)) : ∀ k < count.toNat, buf k = F (st.fdPos.toNat + k) := by
  unfold Loading.readLocal at h
  obtain ⟨r, hr, hend⟩ := bind_ok.mp h
  have hbuf : r.buf = buf := congrArg (fun x => x.2.1) (Except.ok.inj hend)
  have hret : r.ret = some count.toNat := congrArg (fun x => x.2.2) (Except.ok.inj hend)
  intro k hk
  rw [← hbuf]
  exact fileRead_bytes hf hin hr k (by rw [hret]; exact hk)

theorem fileRead_end {b : Build} {pos count : UInt32} {buf : Mem} {r : ReadResult} (hs : inode.iSize.toNat < 2 ^ 31)
    (hpos : pos.toNat ≤ inode.iSize.toNat) (h : fileRead b disk inode pos buf count ⟨true, true⟩ = .ok r) :
    r.ret.getD 0 = min count.toNat (inode.iSize.toNat - pos.toNat) ∧
      r.fdPos.toNat = min (pos.toNat + count.toNat) inode.iSize.toNat := by
  have hle := UInt32.le_iff_toNat_le.mpr hpos
  have hsub := UInt32.toNat_sub_of_le _ _ hle
  rcases fileRead_cases h with ⟨rfl, ⟨-, hz⟩ | hno⟩ | ⟨all, buf', pos', hr, rfl, -⟩
  · -- at the end of the file
    have hz' : (readSize inode pos count).toNat = 0 := by rw [hz]; rfl
    have hall := fileRead_all hs hpos h
    simp only [Option.getD_none] at hall ⊢
    unfold readSize at hz'
    split at hz' <;> omega
  · simp at hno
  · have hall := fileRead_all hs hpos h
    obtain ⟨hp', hfit⟩ := readData_ends _ _ _ _ _ _ hr (by omega) (by omega)
    simp only [Option.getD_some, Nat.sub_zero] at hall hp' hfit ⊢
    have hadd : pos'.toNat = (pos.toNat + (readSize inode pos count).toNat) % 2 ^ 32 := by
      rw [hp', UInt32.toNat_add, UInt32.toNat_ofNat']
      omega
    rw [hadd]
    unfold readSize at *
    split at hall
    · rename_i hgt
      rw [if_pos hgt] at hfit ⊢
      have := UInt32.lt_iff_toNat_lt.mp hgt
      rw [UInt32.toNat_add] at this
      omega
    · rename_i hgt
      rw [if_neg hgt] at hfit ⊢
      have hc : count = 0 ↔ count.toNat = 0 := UInt32.toNat_inj.symm
      have := hall.mp rfl
      rw [hc] at this
      omega

theorem lseek_seekTo (hs : inode.iSize.toNat < 2 ^ 31) (off : UInt32) :
    (st.lseek inode off).fdPos.toNat = seekTo inode.iSize.toNat off st.fdPos.toNat := by
  rw [lseek_fdPos st hs off, apply_ite UInt32.toNat]
  rfl

/-! ## A load finds them -/

/-- The segments that are logged on the way from `st` to `st'` are of headers in `hs`, and if `ok`
then all of `hs` are. -/
structure Finds (size : Nat) (hs : List PtLoad) (st st' : Loading) (ok : Bool) : Prop where
  found : ∀ g ∈ st'.segs, g ∈ st.segs ∨ ∃ h ∈ hs, ∃ n, g = h.delivered n
  grows : ∀ g ∈ st.segs, g ∈ st'.segs
  all : ok = true → ∀ h ∈ hs, ∃ n, h.delivered n ∈ st'.segs ∧
    (h.offset.toNat + h.filesz.toNat ≤ size → n = h.filesz.toNat)
  none : hs = [] → st'.mem = st.mem ∧ st'.mapped = st.mapped ∧ st'.vaddrBitmap = st.vaddrBitmap

theorem Finds.trans {size : Nat} {hs : List PtLoad} {st1 : Loading} {ok : Bool} (hseg : st1.segs = st.segs)
    (hmem : st1.mem = st.mem) (hmap : st1.mapped = st.mapped) (hbit : st1.vaddrBitmap = st.vaddrBitmap)
    (h : Finds size hs st1 st' ok) : Finds size hs st st' ok :=
  ⟨hseg ▸ h.found, hseg ▸ h.grows, h.all, fun hz => by rw [← hmem, ← hmap, ← hbit]; exact h.none hz⟩

theorem Finds.lseek {size : Nat} {hs : List PtLoad} {ok : Bool} (off : UInt32)
    (h : Finds size hs (st.lseek inode off) st' ok) : Finds size hs st st' ok := by
  obtain ⟨hm, hp, hb, -⟩ := lseek_keeps st inode off
  exact h.trans (lseek_log st inode off).2.2 hm hp hb

theorem Finds.readLocal {b : Build} {size : Nat} {hs : List PtLoad} {st1 : Loading} {ok : Bool} {count : UInt32}
    {buf : Mem} {ret : Option Nat} (hr : st.readLocal b disk inode bufs count = .ok (st1, buf, ret))
    (h : Finds size hs st1 st' ok) : Finds size hs st st' ok := by
  unfold Loading.readLocal at hr
  obtain ⟨r, -, hend⟩ := bind_ok.mp hr
  cases hend
  refine Finds.trans ?_ ?_ ?_ ?_ h <;> rfl

theorem Finds.cons {size n : Nat} {hs : List PtLoad} {g : PtLoad} {st1 : Loading} {ok : Bool}
    (hseg : st1.segs = g.delivered n :: st.segs) (hn : g.offset.toNat + g.filesz.toNat ≤ size → n = g.filesz.toNat)
    (h : Finds size hs st1 st' ok) : Finds size (g :: hs) st st' ok := by
  have hgr : ∀ x ∈ g.delivered n :: st.segs, x ∈ st'.segs := hseg ▸ h.grows
  refine ⟨fun x hx => ?_, fun x hx => hgr x (.tail _ hx), fun hok x hx => ?_, nofun⟩
  · rcases h.found x hx with hx | ⟨y, hy, k, e⟩
    · rw [hseg] at hx
      rcases List.mem_cons.mp hx with rfl | hx
      · exact .inr ⟨g, List.mem_cons_self .., n, rfl⟩
      · exact .inl hx
    · exact .inr ⟨y, .tail _ hy, k, e⟩
  · rcases List.mem_cons.mp hx with rfl | hx
    · exact ⟨n, hgr _ (List.mem_cons_self ..), hn⟩
    · exact h.all hok x hx

/-- What `segment_load` logs, and where it leaves the position. -/
theorem segmentLoad_reads {b : Build} {g : PtLoad} (hs : inode.iSize.toNat < 2 ^ 31) (hpos : st.PosOk inode)
    (h : segmentLoad b disk inode granted g.offset g.filesz g.vaddr st = .ok (st', true)) :
    st'.fdPos.toNat = g.readEnd inode.iSize.toNat st.fdPos.toNat ∧ ∃ n, st'.segs = g.delivered n :: st.segs ∧
      (g.offset.toNat + g.filesz.toNat ≤ inode.iSize.toNat → n = g.filesz.toNat) := by
  obtain ⟨m, r, hr, hseg⟩ := segmentLoad_true h
  obtain ⟨hret, hend⟩ := fileRead_end hs (lseek_pos g.offset hpos) hr
  rw [lseek_seekTo hs] at hret hend
  refine ⟨by rw [hseg.fdPos, hend]; rfl, r.ret.getD 0, hseg.segs, fun hin => ?_⟩
  rw [hret]
  unfold seekTo
  split <;> omega

end

end OperateSystem
