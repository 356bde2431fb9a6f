import OperateSystem.IoQueueSound
import OperateSystem.PipesSound
import OperateSystem.PageDirSound

/-!
# The calls of one thread on a pipe

`pipe_read` and `pipe_write` with no other thread running, and `sys_pipe` with the
page it takes. `pipe_write` counts the cell that the queue keeps free as room.
-/

namespace OperateSystem

open Function List

/-! ## Transfers -/

namespace IoState

variable {τ : Type} [DecidableEq τ] {s : IoState τ} {t : τ}

def runAlone (t : τ) : List IoOp → IoState τ → Exec (Option (IoState τ))
  | [], s => .ok (some s)
  | op :: ops, s => do
    let s ← s.exec t op
    if s.pc t = .test then runAlone t ops s else return none

theorem blockOn_pc {op : IoOp} : (s.blockOn t op).pc t ≠ .test := by
  unfold blockOn
  split <;> simp [enqueue, fallAsleep]

theorem Inv.took_pc (h : s.Inv) (hpc : s.pc t = .test) : (s.took t).pc t = .test := by
  rw [took, wake_pc, if_neg fun e => ?_]
  · simp [finish]
  · have := h.lock.producer t e
    rw [hpc] at this
    cases this

theorem Inv.put_pc {byte : UInt8} (h : s.Inv) (hpc : s.pc t = .test) : (s.put t byte).pc t = .test := by
  rw [put, wake_pc, if_neg fun e => ?_]
  · simp [finish]
  · have := h.lock.consumer t e
    rw [hpc] at this
    cases this

theorem Inv.runAlone_cons (h : s.Inv) (hpc : s.pc t = .test) (op : IoOp) (ops : List IoOp) :
    runAlone t (op :: ops) s = if (s.looped t op).pc t = .test then runAlone t ops (s.looped t op) else .ok none := by
  have he : s.exec t op = .ok (s.looped t op) := by
    unfold IoState.exec
    rw [hpc]
    exact h.loop_eq hpc
  rw [runAlone, he, ok_bind]
  rfl

theorem Inv.runAlone_gets : ∀ (n : Nat) {s : IoState τ}, s.Inv → s.pc t = .test → n ≤ s.items.length →
    ∃ s', runAlone t (List.replicate n .ioqGetchar) s = .ok (some s') ∧ s'.taken = s.taken ++ s.items.take n
  | 0, s, _, _, _ => ⟨s, rfl, by simp⟩
  | n + 1, s, h, hpc, hn => by
    have hne : s.ioqEmpty = false := Bool.eq_false_iff.mpr fun e => by
      rw [h.fifo.range.ioqEmpty_iff] at e
      omega
    have hl : s.looped t .ioqGetchar = s.took t := if_neg (by rw [hne]; decide)
    have hinv := hl ▸ h.looped hpc
    have ht : (s.took t).taken = s.taken ++ [s.buf s.tail.toInt.toNat] := by simp [took, finish, goto]
    have hi : s.items = s.buf s.tail.toInt.toNat :: (s.took t).items := by
      have hb := hinv.fifo.bytes
      rw [ht, show (s.took t).stored = s.stored by simp [took, finish, goto], h.fifo.bytes, append_assoc] at hb
      exact append_cancel_left hb
    rw [hi, length_cons] at hn
    obtain ⟨s', hrun, hend⟩ := runAlone_gets n hinv (h.took_pc hpc) (by omega)
    refine ⟨s', ?_, ?_⟩
    · rw [replicate_succ, h.runAlone_cons hpc, hl, if_pos (h.took_pc hpc), hrun]
    · rw [hend, ht, hi, take_succ_cons, append_assoc]
      rfl

theorem Inv.runAlone_puts : ∀ (bytes : List UInt8) {s : IoState τ}, s.Inv → s.pc t = .test →
    (s.items.length + bytes.length ≤ 2047 ∧
      ∃ s', runAlone t (bytes.map .ioqPutchar) s = .ok (some s') ∧ s'.stored = s.stored ++ bytes) ∨
    (2047 < s.items.length + bytes.length ∧ runAlone t (bytes.map .ioqPutchar) s = .ok none)
  | [], s, h, _ => by
    have := @Ring.length_lt _ _ s.tail.toInt.toNat h.fifo.range.lt.1
    rw [← @Ring.length_items _ _ _ _ s.buf] at this
    exact .inl ⟨Nat.le_of_lt_succ this, s, rfl, by simp⟩
  | byte :: bytes, s, h, hpc => by
    rw [map_cons, h.runAlone_cons hpc, length_cons]
    by_cases hf : s.ioqFull = true
    · have hl : s.looped t (.ioqPutchar byte) = s.blockOn t (.ioqPutchar byte) := if_pos hf
      rw [h.fifo.range.ioqFull_iff] at hf
      exact .inr ⟨by omega, by rw [hl, if_neg blockOn_pc]⟩
    · have hl : s.looped t (.ioqPutchar byte) = s.put t byte := if_neg hf
      have hinv := hl ▸ h.looped hpc
      have hs : (s.put t byte).stored = s.stored ++ [byte] := by simp [put, finish, goto]
      have hlen : (s.put t byte).items.length = s.items.length + 1 := by
        have hb := congrArg List.length hinv.fifo.bytes
        rw [hs, show (s.put t byte).taken = s.taken by simp [put, finish, goto], h.fifo.bytes] at hb
        simp only [length_append, length_singleton] at hb
        omega
      rw [hl, if_pos (h.put_pc hpc)]
      rcases runAlone_puts bytes hinv (h.put_pc hpc) with ⟨hle, s', hrun, hend⟩ | ⟨hlt, hrun⟩
      · exact .inl ⟨by omega, s', hrun, by rw [hend, hs, append_assoc]; rfl⟩
      · exact .inr ⟨by omega, hrun⟩

theorem Inv.pipeWrite (h : s.Inv) (hpc : s.pc t = .test) (buf : Nat → UInt8) (count : UInt32) :
    (s.ioqLength.toNat + count.toNat ≤ 2047 ∧ ∃ s', runAlone t (s.ops (.pipeWrite buf count)) s = .ok (some s') ∧
      s'.stored = s.stored ++ (List.range count.toNat).map buf) ∨
    (2047 < s.ioqLength.toNat + count.toNat ∧ runAlone t (s.ops (.pipeWrite buf count)) s = .ok none) := by
  have hlen := h.fifo.range.ioqLength_eq
  have hlt : s.items.length < 2048 := by
    rw [IoQueue.items, Ring.length_items]
    exact Ring.length_lt h.fifo.range.lt.1
  have hl : (bufsize.toUInt32 - s.ioqLength).toNat = 2048 - s.ioqLength.toNat := by
    rw [UInt32.toNat_sub_of_le _ _ (UInt32.le_iff_toNat_le.mpr (by rw [hlen]; exact Nat.le_of_lt hlt))]
    rfl
  have hs : (s.writeSize count).toNat = min (2048 - s.ioqLength.toNat) count.toNat := by
    unfold writeSize
    dsimp only
    split
    · rename_i hgt
      have := UInt32.lt_iff_toNat_lt.mp hgt
      omega
    · rename_i hle
      have := mt UInt32.lt_iff_toNat_lt.mpr hle
      omega
  have hops : s.ops (.pipeWrite buf count) = ((List.range (s.writeSize count).toNat).map buf).map .ioqPutchar := by
    rw [map_map]
    rfl
  rw [hops]
  rcases h.runAlone_puts ((List.range (s.writeSize count).toNat).map buf) hpc with ⟨hle, s', hrun, hend⟩ | ⟨hgt, hrun⟩
  · rw [length_map, length_range] at hle
    have hcnt : (s.writeSize count).toNat = count.toNat := by omega
    exact .inl ⟨by omega, s', hrun, by rw [hend, hcnt]⟩
  · rw [length_map, length_range] at hgt
    exact .inr ⟨by omega, hrun⟩

/-- **A pipe transfer without another thread.** `pipe_write` finds the queue full unless all its
bytes fit: it counts on a room of 2048 bytes. -/
theorem pipe_transfer_iff (h : s.Inv) (hpc : s.pc t = .test) (buf : Nat → UInt8) (count : UInt32) :
    (∃ s', runAlone t (s.ops (.pipeRead count)) s = .ok (some s') ∧ s'.taken = s.taken ++ s.items.take count.toNat) ∧
    ((∃ s', runAlone t (s.ops (.pipeWrite buf count)) s = .ok (some s') ∧
        s'.stored = s.stored ++ (List.range (min count.toNat (2047 - s.ioqLength.toNat))).map buf) ↔
      count.toNat ≤ 2047 - s.ioqLength.toNat) := by
  have hlen := h.fifo.range.ioqLength_eq
  constructor
  · have hs : (s.readSize count).toNat ≤ s.items.length ∧ s.items.take (s.readSize count).toNat = s.items.take count.toNat := by
      unfold readSize
      split
      · rename_i hgt
        have := UInt32.lt_iff_toNat_lt.mp hgt
        exact ⟨by omega, rfl⟩
      · rename_i hle
        have := mt UInt32.lt_iff_toNat_lt.mpr hle
        rw [hlen, take_of_length_le le_rfl, take_of_length_le (by omega)]
        exact ⟨le_rfl, rfl⟩
    obtain ⟨s', hrun, hend⟩ := h.runAlone_gets _ hpc hs.1
    exact ⟨s', hrun, by rw [hend, hs.2]⟩
  · have hlt : s.items.length < 2048 := by
      rw [IoQueue.items, Ring.length_items]
      exact Ring.length_lt h.fifo.range.lt.1
    rcases h.pipeWrite hpc buf count with ⟨hle, s', hrun, hend⟩ | ⟨hgt, hrun⟩
    · exact iff_of_true ⟨s', hrun, by rw [hend, Nat.min_eq_left (by omega)]⟩ (by omega)
    · refine iff_of_false ?_ (by omega)
      rintro ⟨s', hrun', -⟩
      rw [hrun] at hrun'
      cases hrun'

theorem pipe_transfer_fresh : ∃ s', runAlone 0 (freshQueue.ops (.pipeWrite (fun _ => 7) 2047)) freshQueue = .ok (some s') ∧
    s'.stored.length = 2047 := by
  obtain ⟨s', hrun, hend⟩ := (pipe_transfer_iff (t := (0 : Fin 3)) freshQueue_start.inv rfl (fun _ => 7) 2047).2.mpr (by decide)
  refine ⟨s', hrun, ?_⟩
  rw [hend, length_append, length_map, length_range]
  rfl

theorem pipe_write_blocks : ∃ (s : IoState (Fin 3)) (count : UInt32), s.Inv ∧ s.pc 0 = .test ∧
    runAlone 0 (s.ops (.pipeWrite (fun _ => 7) count)) s = .ok none := by
  refine ⟨freshQueue, 2048, freshQueue_start.inv, rfl, ?_⟩
  rcases freshQueue_start.inv.pipeWrite (t := (0 : Fin 3)) rfl (fun _ => 7) 2048 with ⟨hle, -⟩ | ⟨-, hrun⟩
  · exact absurd hle (by decide)
  · exact hrun

end IoState

/-! ## Making a pipe -/

namespace PipeState

variable {τ : Type} [DecidableEq τ] {s : PipeState} {p : Nat} {P : Proc}

/-- `sys_pipe` with its page from the kernel pool, and what it returns. -/
def sysPipeFrom (vm : Vm τ) (cur : τ) (s : PipeState) (p : Nat) :
    Exec (Int32 × Vm τ × PipeState × Option (Fin 8) × Option (Fin 8)) := do
  let (page, vm) ← vm.getKernelPages .debug cur 1
  let (s, fds) ← s.sysPipe p page
  return (0, vm, s, fds)

/-- Two descriptors lead to one slot that was free, with a count of two, or the call failed and nothing has changed. -/
def AllOrNothing (vm vm' : Vm τ) (s s' : PipeState) (p : Nat) (ret : Int32) (fds : Option (Fin 8) × Option (Fin 8)) : Prop :=
  (ret = 0 ∧ ∃ d e g, fds = (some d, some e) ∧ d ≠ e ∧ (s.fileTable g).fdInode = none ∧
    (s'.fileTable g).fdPos = 2 ∧ s'.Refers p d g ∧ s'.Refers p e g) ∨
  (ret = -1 ∧ vm' = vm ∧ s' = s)

/-- **When `sys_pipe` is all-or-nothing**: a slot of `file_table`, a page and two descriptors are free. -/
theorem sys_pipe_all_or_nothing_iff (vm : Vm τ) (cur : τ) (hP : s.procs p = some P) :
    (∃ ret vm' s' fds, s.sysPipeFrom vm cur p = .ok (ret, vm', s', fds) ∧ AllOrNothing vm vm' s s' p ret fds) ↔
      (∃ g : Fin 32, 3 ≤ g.val ∧ (s.fileTable g).fdInode = none) ∧
      (∃ vaddr vm', vm.getKernelPages .debug cur 1 = .ok (some vaddr, vm')) ∧
      ∃ d e : Fin 8, 3 ≤ d.val ∧ d < e ∧ P.fdTable d = none ∧ P.fdTable e = none := by
  have hs : (∃ g : Fin 32, 3 ≤ g.val ∧ (s.fileTable g).fdInode = none) ↔ ∃ g, s.getFreeSlotInGlobal = some g := by
    rw [← Option.isSome_iff_exists, FdState.getFreeSlotInGlobal, List.find?_isSome]
    simp
  rw [hs]
  constructor
  · rintro ⟨ret, vm', s', fds, hrun, hall⟩
    obtain ⟨⟨page, vm1⟩, hpa, hrun⟩ := bind_ok.mp hrun
    obtain ⟨⟨s1, fds1⟩, hpi, hrun⟩ := bind_ok.mp hrun
    cases hrun
    obtain ⟨-, d, e, g, rfl, -⟩ | ⟨hret, -⟩ := hall
    · cases hg : s.getFreeSlotInGlobal with
      | none =>
        simp only [PipeState.sysPipe, hg] at hpi
        cases hpi
      | some g =>
        cases page with
        | none =>
          simp only [PipeState.sysPipe, hg] at hpi
          cases hpi
        | some b =>
          refine ⟨⟨g, rfl⟩, ⟨b, _, hpa⟩, ?_⟩
          rcases sysPipe_ends hP hg b with ⟨-, s', fd, hend⟩ | ⟨d, e, _, _, hd, he, hne, hTd, hTe, -⟩
          · cases hpi.symm.trans hend
          · rcases lt_or_gt_of_ne hne with hlt | hlt
            · exact ⟨e, d, he, hlt, hTe, hTd⟩
            · exact ⟨d, e, hd, hlt, hTd, hTe⟩
    · cases hret
  · rintro ⟨⟨g, hg⟩, ⟨b, vm', hpa⟩, hfr⟩
    rcases sysPipe_ends hP hg b with ⟨hn, -⟩ | ⟨d, e, O, fs, -, -, hne, -, -, hf, hpc, hend⟩
    · exact absurd hfr hn
    · have hpr := (congrFun hpc p).trans (update_self ..)
      refine ⟨0, vm', _, _, by rw [sysPipeFrom, hpa, ok_bind]; exact congrArg (· >>= _) hend,
        .inl ⟨rfl, d, e, g, rfl, hne.symm, FdState.getFree_spec hg, ?_, ⟨_, hpr, ?_⟩, ⟨_, hpr, update_self ..⟩⟩⟩
      · exact congrArg File.fdPos ((congrFun hf g).trans (update_self ..))
      · exact (update_of_ne hne.symm ..).trans (update_self ..)

theorem firstVm_page : ∃ vaddr vm', firstVm.getKernelPages .debug false 1 = .ok (some vaddr, vm') := by
  have hr := ok_getD (x := firstVm.getKernelPages .debug false 1) (none, firstVm) (by decide +kernel)
  have hs : ((firstVm.getKernelPages .debug false 1).toOption.getD (none, firstVm)).1.isSome = true := by decide +kernel
  obtain ⟨vaddr, hv⟩ := Option.isSome_iff_exists.mp hs
  exact ⟨vaddr, _, hr.trans (by rw [← hv])⟩

theorem sys_pipe_all_or_nothing_first : ∃ ret vm' s' fds, pipeStart.sysPipeFrom firstVm false 1 = .ok (ret, vm', s', fds) ∧
    AllOrNothing firstVm vm' pipeStart s' 1 ret fds := by
  exact (sys_pipe_all_or_nothing_iff (P := ⟨_, _⟩) firstVm false rfl).mpr
    ⟨⟨3, by decide, rfl⟩, firstVm_page, 3, 4, by decide, by decide, rfl, rfl⟩

def oneFdLeft : PipeState :=
  { pipeStart with toFdState := pipeStart.setProc 1 (some ⟨fun d => if d = 7 then none else some 0, fun _ => none⟩) }

/-- The call succeeds with `-1` as the second descriptor; without a free slot it stores outside of
`file_table`. -/
theorem sys_pipe_half_done : (∃ vm' s', oneFdLeft.sysPipeFrom firstVm false 1 = .ok (0, vm', s', some 7, none)) ∧
    { pipeStart with fileTable := fun _ => ⟨0, 0, some 0⟩ : PipeState }.sysPipeFrom firstVm false 1 = .error .outOfBounds := by
  obtain ⟨b, vm', hpa⟩ := firstVm_page
  constructor
  · exact ⟨vm', _, by rw [sysPipeFrom, hpa, ok_bind]; rfl⟩
  · rw [sysPipeFrom, hpa, ok_bind]
    rfl

end PipeState

end OperateSystem
