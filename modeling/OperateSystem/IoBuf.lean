import OperateSystem.FileSound
import OperateSystem.FsRun

/-!
# The size of `io_buf`

The functions that call `inode_sync` or `inode_delete` with the buffer they allocate and
with one that has no end.
-/

namespace OperateSystem

section
variable {part : Partition}

theorem inodeBytes_le {n : Nat} {o : IoBufOwner} : inodeBytes n ≤ o.size ↔ ¬ (o = .fileWrite ∧ Straddles n) := by
  unfold inodeBytes
  by_cases h : Straddles n
  · rw [if_pos h]
    cases o <;> simp [IoBufOwner.size, h]
  · rw [if_neg h]
    cases o <;> simp [IoBufOwner.size, h]

theorem fileWrite_own (b : Build) (vol : Volume part) (inode : Inode) (fdPos : UInt32) (buf : Mem) (count : UInt32)
    (mem : Buffers) :
    (Straddles (inode.iNo.toNat % 256) ∧
      (∃ st n, fileWriteVia .unbounded b vol inode fdPos buf count mem = .ok (st, some n)) ∧
      fileWrite b vol inode fdPos buf count mem = .error .outOfBounds) ∨
    (¬ (Straddles (inode.iNo.toNat % 256) ∧
        ∃ st n, fileWriteVia .unbounded b vol inode fdPos buf count mem = .ok (st, some n)) ∧
      fileWrite b vol inode fdPos buf count mem = fileWriteVia .unbounded b vol inode fdPos buf count mem) := by
  rcases hw : writeBlocks b vol inode fdPos buf count mem with f | ⟨st, ok⟩
  · simp [fileWrite, fileWriteVia, hw]
  obtain _ | _ := ok
  · simp [fileWrite, fileWriteVia, hw]
  have hu : fileWriteVia .unbounded b vol inode fdPos buf count mem = .ok (st.setDisk
      (blit st.vol.disk (part.inodeAddr (inode.iNo.toNat % 256)) st.inode.pure.toMem 0 76), some count.toNat) := by
    unfold fileWriteVia
    rw [hw, ok_bind]
    dsimp only
    rw [unbounded_sync, inodeSync_spec, writeBlocks_iNo hw]
    rfl
  rw [hu, fileWrite_synced hw]
  by_cases h : Straddles (inode.iNo.toNat % 256)
  · exact .inl ⟨h, ⟨_, _, rfl⟩, if_pos h⟩
  · exact .inr ⟨fun hb => h hb.1, if_neg h⟩

/-- **The buffers for inodes are large enough**, except that of `file_write` for an inode that
lies in two sectors. -/
theorem inode_io_fits_iff (b : Build) (part : Partition) :
    (∀ (o : IoBufOwner) (n : Nat), inodeBytes n ≤ o.size ↔ ¬ (o = .fileWrite ∧ Straddles n)) ∧
    (∀ (s : Fs part) (env : CallEnv) (p parent : Nat) (filename : List UInt8) (flag : UInt8),
      s.fileCreateVia IoBufOwner.fileCreate.io b env p parent filename flag =
        s.fileCreateVia .unbounded b env p parent filename flag) ∧
    (∀ (s : Fs part) (parentDir : DirPtr) (dirname : List UInt8),
      s.makeDirVia IoBufOwner.sysMkdir.io b parentDir dirname = s.makeDirVia .unbounded b parentDir dirname) ∧
    (∀ o ∈ [IoBufOwner.sysUnlink, .dirRemove], ∀ (rounds : Nat) (vol : Volume part) (inode : Inode) (no : UInt32)
      (ioBuf : Mem), deleteDirEntryVia o.io b rounds vol inode no ioBuf =
        deleteDirEntryVia .unbounded b rounds vol inode no ioBuf) ∧
    (∀ (s : Fs part) (no : UInt32),
      s.inodeReleaseVia IoBufOwner.inodeRelease.io b no = s.inodeReleaseVia .unbounded b no) ∧
    ∀ (vol : Volume part) (inode : Inode) (fdPos : UInt32) (buf : Mem) (count : UInt32) (mem : Buffers),
      (Straddles (inode.iNo.toNat % 256) ∧
        (∃ st n, fileWriteVia .unbounded b vol inode fdPos buf count mem = .ok (st, some n)) ∧
        fileWrite b vol inode fdPos buf count mem = .error .outOfBounds) ∨
      (¬ (Straddles (inode.iNo.toNat % 256) ∧
          ∃ st n, fileWriteVia .unbounded b vol inode fdPos buf count mem = .ok (st, some n)) ∧
        fileWrite b vol inode fdPos buf count mem = fileWriteVia .unbounded b vol inode fdPos buf count mem) := by
  have hl : ∀ o ≠ IoBufOwner.fileWrite, o.io = .unbounded := by
    intro o ho
    cases o with
    | fileWrite => exact absurd rfl ho
    | _ => exact sized_eq_unbounded (by decide)
  refine ⟨fun o n => inodeBytes_le, ?_, ?_, ?_, ?_, fileWrite_own b⟩
  · rw [hl .fileCreate (by decide)]
    intros
    rfl
  · rw [hl .sysMkdir (by decide)]
    intros
    rfl
  · intro o ho
    rw [hl o (by rintro rfl; simp at ho)]
    intros
    rfl
  · rw [hl .inodeRelease (by decide)]
    intros
    rfl

end

/-- One byte is written to the new file of inode 6: `inode_sync` reads 1024 bytes into the buffer of 512. -/
theorem file_write_overflows : Straddles 6 ∧ inodeBytes 6 = 1024 ∧ IoBufOwner.fileWrite.size = 512 ∧
    (∃ st, fileWriteVia .unbounded .debug homeFs.vol (inodeInit 6) 0 (fun _ => 65) 1 ⟨true, true⟩ =
      .ok (st, some 1)) ∧
    fileWrite .debug homeFs.vol (inodeInit 6) 0 (fun _ => 65) 1 ⟨true, true⟩ = .error .outOfBounds := by
  have hret : (fileWriteVia .unbounded .debug homeFs.vol (inodeInit 6) 0 (fun _ => 65) 1
      ⟨true, true⟩).toOption.any (·.2 = some 1) = true := by decide +kernel
  obtain ⟨⟨st, n⟩, hrun, hn⟩ := exists_of_any hret
  obtain rfl : n = some 1 := of_decide_eq_true hn
  refine ⟨by decide, by decide, rfl, ⟨st, hrun⟩, ?_⟩
  rcases fileWrite_own .debug homeFs.vol (inodeInit 6) 0 (fun _ => 65) 1 ⟨true, true⟩ with h | h
  · exact h.2.2
  · exact absurd ⟨show Straddles 6 by decide, st, 1, hrun⟩ h.1

end OperateSystem
