import OperateSystem.DirRace

/-!
# Insertions that do not overlap

Without interference, what a call of `sync_dir_entry` does from any of its points
on is the rest of the whole function. So two calls that do not overlap are two
insertions one after the other, and both entries stay unless the first one went
behind the indirect table.
-/

namespace OperateSystem

/-! ## The rest of a call -/

section
variable {part : Partition} {b : Build} {s s' : DirState part} {c c' : SyncCall}

def DirState.writing (s : DirState part) (c : SyncCall) : DirWriting part := ⟨s.vol, s.inode, c.all, c.ioBuf⟩

def putNew (b : Build) (e : DirEntry) (blockIdx : Nat) (r : DirWriting part × Bool) : Exec (DirWriting part × Bool) :=
  if r.2 then putEntry b blockIdx (blit (fill r.1.ioBuf 0 512 0) 0 e.toMem 0 dirEntrySize) r.1 else .ok (r.1, false)

def restAfter (b : Build) (e : DirEntry) (st : DirWriting part) : SyncRequest → Exec (DirWriting part × Bool)
  | .readBlock blockIdx =>
    match freeEntry st.ioBuf (512 / dirEntrySize) 0 with
    | some i => putEntry b blockIdx (blit st.ioBuf (dirEntrySize * i) e.toMem 0 dirEntrySize) st
    | none => syncBlocks b e (140 - (blockIdx + 1)) (blockIdx + 1) st
  | .syncBlock blockIdx blockLba => linkBlock b blockIdx blockLba st >>= putNew b e blockIdx
  | .syncIndirect blockLba => linkTable b 12 blockLba st >>= putNew b e 12
  | .writeTable blockIdx => putNew b e blockIdx (st, true)
  | .writeEntry _ => .ok ({ st with inode := { st.inode with iSize := st.inode.iSize + .ofNat dirEntrySize } }, true)

def requested (b : Build) (st : DirWriting part) : SyncRequest → Exec (DirWriting part)
  | .readBlock blockIdx => do
    let ioBuf ← ideRead b st.vol.disk (st.all blockIdx).toNat st.ioBuf 1
    return { st with ioBuf }
  | .syncBlock _ blockLba | .syncIndirect blockLba => do
    let vol ← bitmapSync b st.vol (blockLba - part.dataStartLba) .blockBitmap
    return { st with vol }
  | .writeTable _ => do
    let disk ← storeTable b st.vol.disk (st.inode.sec 12) st.all
    return { st with vol := { st.vol with disk } }
  | .writeEntry blockIdx => do
    let disk ← ideWrite b st.vol.disk (st.all blockIdx).toNat st.ioBuf 1
    return { st with vol := { st.vol with disk } }

def restAt (b : Build) (e : DirEntry) (st : DirWriting part) : SyncPc → Exec (DirWriting part × Bool)
  | .start => syncDirEntry b st.vol st.inode e st.ioBuf
  | .before r => do restAfter b e (← requested b st r) r
  | .after r => restAfter b e st r
  | .returned ok => .ok (st, ok)

theorem restAt_writeEntry (e : DirEntry) (st : DirWriting part) (k : Nat) (ioBuf : Mem) :
    restAt b e { st with ioBuf } (.before (.writeEntry k)) = putEntry b k ioBuf st := by
  simp only [restAt, requested, bind_assoc, pure_bind]
  rfl

theorem restAt_writeTable (e : DirEntry) (st : DirWriting part) (k lba : Nat) :
    restAt b e { st with all := st.all.set k (.ofNat lba) } (.before (.writeTable k)) =
      linkTable b k lba st >>= putNew b e k := by
  simp only [restAt, requested, linkTable, bind_assoc, pure_bind]
  rfl

theorem atBlock_rest {k : Nat} (h : atBlock b k s c = .ok (s', c')) :
    c'.e = c.e ∧ c'.pc.started = true ∧
      syncBlocks b c.e (140 - k) k (s.writing c) = restAt b c'.e (s'.writing c') c'.pc := by
  unfold atBlock at h
  by_cases hend : 140 ≤ k
  · rw [if_pos hend] at h
    cases h
    rw [show 140 - k = 0 by omega]
    exact ⟨rfl, rfl, rfl⟩
  · rw [if_neg hend] at h
    have hs : 140 - k = (140 - (k + 1)) + 1 := by omega
    rw [hs]
    unfold syncBlocks
    by_cases hz : c.all k = 0
    · rw [if_pos hz, bind_ok] at h
      rw [if_pos (show (s.writing c).all k = 0 from hz)]
      obtain ⟨⟨r, vol⟩, ha, h⟩ := h
      unfold addBlock
      rw [show blockBitmapAlloc b (s.writing c).vol = .ok (r, vol) from ha, ok_bind]
      cases r with
      | none =>
        cases h
        exact ⟨rfl, rfl, rfl⟩
      | some lba =>
        cases h
        refine ⟨rfl, rfl, ?_⟩
        simp only [restAt, requested, bind_assoc, pure_bind]
        rfl
    · rw [if_neg hz] at h
      rw [if_neg (show ¬ (s.writing c).all k = 0 from hz)]
      cases h
      refine ⟨rfl, rfl, ?_⟩
      simp only [restAt, requested, bind_assoc, pure_bind]
      rfl

theorem afterRequest_rest {r : SyncRequest} (h : afterRequest b s c r = .ok (s', c')) :
    c'.e = c.e ∧ c'.pc.started = true ∧ restAfter b c.e (s.writing c) r = restAt b c'.e (s'.writing c') c'.pc := by
  cases r with
  | readBlock k =>
    simp only [afterRequest] at h
    simp only [restAfter, DirState.writing]
    cases hi : freeEntry c.ioBuf (512 / dirEntrySize) 0 with
    | none =>
      simp only [hi] at h
      exact atBlock_rest h
    | some i =>
      simp only [hi] at h
      cases h
      exact ⟨rfl, rfl, (restAt_writeEntry _ (s.writing c) k _).symm⟩
  | syncBlock k lba =>
    simp only [afterRequest] at h
    simp only [restAfter, linkBlock]
    split at h
    · rename_i hk
      cases h
      rw [if_pos hk]
      exact ⟨rfl, rfl, (restAt_writeEntry _ _ k _).symm⟩
    · rename_i hk
      rw [if_neg hk]
      split at h
      · rename_i hk
        subst hk
        rw [bind_ok] at h
        obtain ⟨⟨r, vol⟩, ha, h⟩ := h
        simp only [if_true, newTable]
        rw [show blockBitmapAlloc b (s.writing c).vol = .ok (r, vol) from ha]
        cases r with
        | none =>
          cases h
          exact ⟨rfl, rfl, rfl⟩
        | some lba' =>
          cases h
          refine ⟨rfl, rfl, ?_⟩
          simp only [restAt, requested, restAfter, ok_bind, bind_assoc, pure_bind]
          rfl
      · rename_i hk
        cases h
        rw [if_neg hk]
        exact ⟨rfl, rfl, (restAt_writeTable _ (s.writing c) k lba).symm⟩
  | syncIndirect lba =>
    cases h
    exact ⟨rfl, rfl, (restAt_writeTable _ (s.writing c) 12 lba).symm⟩
  | writeTable k =>
    cases h
    exact ⟨rfl, rfl, (restAt_writeEntry _ (s.writing c) k _).symm⟩
  | writeEntry k =>
    cases h
    exact ⟨rfl, rfl, rfl⟩

theorem syncRequest_rest {r : SyncRequest} (h : syncRequest b s c r = .ok (s', c')) :
    c'.e = c.e ∧ c'.pc = .after r ∧ requested b (s.writing c) r = .ok (s'.writing c') := by
  cases r <;>
  · simp only [syncRequest, bind_ok] at h
    obtain ⟨x, hx, h⟩ := h
    cases h
    refine ⟨rfl, rfl, ?_⟩
    simp only [requested, DirState.writing, hx]
    rfl

def syncRun (b : Build) (s : DirState part) (c : SyncCall) : Exec (DirState part × SyncCall) := do
  let r ← restAt b c.e (s.writing c) c.pc
  return (⟨r.1.vol, r.1.inode⟩, ⟨c.e, r.1.all, r.1.ioBuf, .returned r.2⟩)

theorem syncStep_rest (h : syncStep b s c = .ok (s', c')) :
    c'.e = c.e ∧ c'.pc.started = true ∧ restAt b c.e (s.writing c) c.pc = restAt b c'.e (s'.writing c') c'.pc := by
  unfold syncStep at h
  split at h
  · rename_i hpc
    obtain ⟨_, hsi, h⟩ := bind_ok.mp h
    obtain ⟨he, hs, hr⟩ := atBlock_rest h
    refine ⟨he, hs, ?_⟩
    rw [← hr, hpc]
    unfold restAt syncDirEntry
    rw [show (s.writing c).inode = s.inode from rfl, hsi]
    rfl
  · rename_i r hpc
    obtain ⟨he, hpc', hr⟩ := syncRequest_rest h
    refine ⟨he, by rw [hpc']; rfl, ?_⟩
    rw [hpc, hpc', he]
    simp only [restAt, hr, ok_bind]
  · rename_i r hpc
    obtain ⟨he, hs, hr⟩ := afterRequest_rest h
    refine ⟨he, hs, ?_⟩
    rw [← hr, hpc]
    rfl
  · rename_i ok hpc
    cases h
    exact ⟨rfl, by rw [hpc]; rfl, rfl⟩

theorem sync_runs (b : Build) (part : Partition) : (syncMachine b part).Runs (syncRun b) where
  step {s c s' c'} h := by
    obtain ⟨he, -, hr⟩ := syncStep_rest h
    unfold syncRun
    rw [hr, he]
  ended {s c} h := by
    obtain ⟨e, all, ioBuf, pc⟩ := c
    cases pc with
    | returned ok => rfl
    | start => cases h
    | before r => cases h
    | after r => cases h
  started h := (syncStep_rest h).2.1

theorem syncRun_start (h : syncRun b s c = .ok (s', c')) (hpc : c.pc = .start) (hok : c'.pc = .returned true) :
    ∃ st, syncDirEntry b s.vol s.inode c.e c.ioBuf = .ok (st, true) ∧ s' = ⟨st.vol, st.inode⟩ := by
  unfold syncRun at h
  obtain ⟨⟨st, ok⟩, hr, h⟩ := bind_ok.mp h
  cases h
  cases hok
  rw [hpc] at hr
  exact ⟨st, hr, rfl⟩

end

/-! ## Two insertions -/

section
variable {part : Partition} {vol : Volume part} {inode : Inode} {e : DirEntry} {st : DirWriting part} {ioBuf : Mem}

theorem syncDirEntry_indirect_iff (h : DirOk vol inode) (he : e.Live) (hfr : ∀ x, HasEntry vol inode x → x.name ≠ e.name)
    (hr : syncDirEntry .debug vol inode e ioBuf = .ok (st, true)) :
    (DirectFull st.vol.disk st.inode ∧ IndirectEntry st.vol st.inode e) ↔ DirectFull vol.disk inode := by
  obtain ⟨k0, i0, hlow, hp⟩ := syncDirEntry_placed h.blocks hr
  have hnew := (hp.live_iff he.1).mpr (.inl ⟨rfl, rfl, rfl⟩)
  constructor
  · rintro ⟨-, k, i, hk, hx⟩
    by_contra hn
    have hok := hp.dirOk h he fun hx => hfr _ ⟨_, _, hx⟩
    obtain ⟨rfl, -⟩ := hok.distinct hx hnew rfl
    have := hlow hn
    omega
  · intro hf
    -- the slot of the new entry was not in use, so it is in no direct block
    have hk0 : 12 ≤ k0 := by
      by_contra hk
      have hk : k0 < 12 := by omega
      obtain ⟨hne, hu⟩ := hf k0 hk
      refine hu i0 hp.index.2 (hp.was (fun _ => hk) ?_)
      rwa [slotAddr_low hk]
    refine ⟨fun k hk => ?_, k0, i0, hk0, hnew⟩
    obtain ⟨hne, hu⟩ := hf k hk
    rw [show inode.sec k = slotAddr vol.disk inode k from (slotAddr_low hk).symm] at hne
    have hke := fun i hi => hp.kept k (by omega) i hi (fun _ => hk) hne (by omega)
    refine ⟨?_, fun i hi => ?_⟩
    · rw [show st.inode.sec k = slotAddr st.vol.disk st.inode k from (slotAddr_low hk).symm, (hke 0 (by decide)).1]
      exact hne
    · rw [(hke i hi).2]
      exact hu i hi

theorem syncDirEntry_twice {e1 e2 : DirEntry} {st1 st2 : DirWriting part} {ioBuf1 ioBuf2 : Mem} (h : DirOk vol inode)
    (he1 : e1.Live) (he2 : e2.Live) (hn : e1.name ≠ e2.name)
    (hf1 : ∀ x, HasEntry vol inode x → x.name ≠ e1.name) (hf2 : ∀ x, HasEntry vol inode x → x.name ≠ e2.name)
    (hr1 : syncDirEntry .debug vol inode e1 ioBuf1 = .ok (st1, true))
    (hr2 : syncDirEntry .debug st1.vol st1.inode e2 ioBuf2 = .ok (st2, true)) :
    DirOk st2.vol st2.inode ∧ st2.inode.iSize = inode.iSize + .ofNat dirEntrySize + .ofNat dirEntrySize ∧
      HasEntry st2.vol st2.inode e2 ∧ (HasEntry st2.vol st2.inode e1 ↔ ¬ DirectFull vol.disk inode) := by
  obtain ⟨hok1, hs1, hhas1⟩ := syncDirEntry_spec h he1 hf1 hr1
  have hf : ∀ x, HasEntry st1.vol st1.inode x → x.name ≠ e2.name := by
    intro x hx
    rcases (hhas1 x).mp hx with rfl | ⟨hx, -⟩
    · exact hn
    · exact hf2 x hx
  obtain ⟨hok2, hs2, hhas2⟩ := syncDirEntry_spec hok1 he2 hf hr2
  refine ⟨hok2, by rw [hs2, hs1], (hhas2 e2).mpr (.inl rfl), ?_⟩
  have hne : e1 ≠ e2 := fun e => hn (congrArg DirEntry.name e)
  have hin := (hhas1 e1).mpr (.inl rfl)
  rw [hhas2 e1, syncDirEntry_indirect_iff h he1 hf1 hr1]
  simp only [hne, hin, false_or, true_and]

end

/-- **Insertions that do not overlap lose nothing iff** the direct blocks are not full before
them. -/
theorem sync_dir_entry_twice_iff {part : Partition} {s0 s : DirState part} {c0 c : Bool → SyncCall}
    (h : DirOk s0.vol s0.inode) (hsize : s0.inode.iSize.toNat ≤ dirEntrySize * (21 * 140)) (hstart : ∀ p, (c0 p).pc = .start)
    (hlive : ∀ p, (c0 p).e.Live) (hname : (c0 false).e.name ≠ (c0 true).e.name)
    (hfresh : ∀ p x, HasEntry s0.vol s0.inode x → x.name ≠ (c0 p).e.name)
    (hrun : Relation.ReflTransGen ((syncMachine .debug part).Allowed (syncMachine .debug part).alone) (s0, c0) (s, c))
    (hret : ∀ p, (c p).pc = .returned true) :
    ((∀ p buf, searchDirEntry .debug s.vol.disk s.inode (c0 p).e.name true buf = .ok (some (c0 p).e)) ∧
      s.inode.iSize.toNat = s0.inode.iSize.toNat + 2 * dirEntrySize) ↔
    ¬ DirectFull s0.vol.disk s0.inode := by
  have hnot : ∀ p, (syncMachine .debug part).ended (c0 p) = false := fun p => by
    show (c0 p).pc.ended = false
    rw [hstart p]
    rfl
  have hend : ∀ p, (syncMachine .debug part).ended (c p) = true := fun p => by
    show (c p).pc.ended = true
    rw [hret p]
    rfl
  have hr := sync_runs .debug part
  obtain ⟨p, s1, hfi, hs⟩ := (hr.serial hrun).both hr hnot hend
  obtain ⟨st1, hr1, rfl⟩ := syncRun_start hfi (hstart p) (hret p)
  obtain ⟨st2, hr2, rfl⟩ := syncRun_start hs (hstart _) (hret _)
  have hne : (c0 p).e.name ≠ (c0 !p).e.name := by
    cases p with
    | false => exact hname
    | true => exact hname.symm
  obtain ⟨hok, hg, hhas2, hhas1⟩ :=
    syncDirEntry_twice h (hlive p) (hlive _) hne (hfresh p) (hfresh _) hr1 hr2
  have hf : ∀ q, _ := fun q => hok.finds_iff (hlive q).2
  constructor
  · rintro ⟨hall, -⟩
    exact hhas1.mp ((hf p).mp (hall p))
  · intro hfu
    refine ⟨fun q => (hf q).mpr ?_, ?_⟩
    · by_cases hq : q = p
      · rw [hq]
        exact hhas1.mpr hfu
      · obtain rfl : q = !p := by cases p <;> cases q <;> simp_all
        exact hhas2
    · show st2.inode.iSize.toNat = _
      rw [hg]
      unfold dirEntrySize at *
      rw [UInt32.toNat_add, UInt32.toNat_add]
      simp only [UInt32.toNat_ofNat']
      omega

/-! ## A directory with five entries -/

def fiveSlots (k i : Nat) : Bool := k = 0 && i < 5

def raceShared : DirState samplePart := ⟨sampleDirVol fiveSlots, sampleDirInode 120⟩

def raceCalls (p : Bool) : SyncCall := ⟨sampleEntry 20 (if p then 20 else 19), fun _ => 0, fun _ => 0, .start⟩

theorem race_live (p : Bool) : (raceCalls p).e.Live := sampleEntry_live (by decide)

theorem race_names : (raceCalls false).e.name ≠ (raceCalls true).e.name := by
  intro h
  exact absurd (sampleEntry_inj (by decide) (by decide) (by decide) (by decide) h).2 (by decide)

theorem race_fresh (p : Bool) : ∀ x, HasEntry raceShared.vol raceShared.inode x → x.name ≠ (raceCalls p).e.name :=
  sample_new fiveSlots 120 (by decide) (by decide) (by cases p <;> decide)

def racePlay (allowed : Bool → DirState samplePart × (Bool → SyncCall) → Bool) (order : List Bool) :
    DirState samplePart × (Bool → SyncCall) :=
  (((syncMachine .debug samplePart).play allowed order (raceShared, raceCalls)).toOption).getD (raceShared, raceCalls)

theorem racePlay_run {allowed : Bool → DirState samplePart × (Bool → SyncCall) → Bool} {order : List Bool}
    (h : ((syncMachine .debug samplePart).play allowed order (raceShared, raceCalls)).isOk = true) :
    Relation.ReflTransGen ((syncMachine .debug samplePart).Allowed allowed) (raceShared, raceCalls) (racePlay allowed order) := by
  apply Machine.play_allowed order
  unfold racePlay
  cases hr : (syncMachine .debug samplePart).play allowed order (raceShared, raceCalls) with
  | error e =>
    rw [hr] at h
    cases h
  | ok t => rfl

def SyncPc.succeeded : SyncPc → Bool
  | .returned ok => ok
  | _ => false

theorem SyncPc.succeeded_iff {pc : SyncPc} (h : pc.succeeded = true) : pc = .returned true := by
  cases pc with
  | returned ok => exact congrArg _ h
  | start => cases h
  | before r => cases h
  | after r => cases h

theorem sync_dir_entry_twice_five :
    let t := racePlay (syncMachine .debug samplePart).alone [false, false, false, false, false, true, true, true, true, true]
    (∀ p, (t.2 p).pc = .returned true) ∧
      (∀ p buf, searchDirEntry .debug t.1.vol.disk t.1.inode (raceCalls p).e.name true buf = .ok (some (raceCalls p).e)) ∧
      t.1.inode.iSize.toNat = 168 := by
  intro t
  have hret : ∀ p, (t.2 p).pc = .returned true := fun p => SyncPc.succeeded_iff (by cases p <;> decide +kernel)
  have hrun : Relation.ReflTransGen ((syncMachine .debug samplePart).Allowed (syncMachine .debug samplePart).alone)
      (raceShared, raceCalls) t := racePlay_run (by decide +kernel)
  have hiff := sync_dir_entry_twice_iff (s := t.1) (c := t.2) (sample_dirOk fiveSlots 120) (by decide) (fun _ => rfl) race_live race_names
    race_fresh hrun hret
  have hf : ¬ DirectFull raceShared.vol.disk raceShared.inode := fun h =>
    (h 0 (by decide)).2 5 (by decide) (sample_free fiveSlots 120 (by decide) (by decide) rfl).1
  exact ⟨hret, hiff.mpr hf⟩

/-- Both callers read the first block before either writes it back, and both take
its sixth slot. -/
theorem sync_dir_entry_race_loses :
    let t := racePlay (fun _ _ => true) [false, false, true, true, false, false, false, true, true, true]
    DirOk raceShared.vol raceShared.inode ∧ (∀ p, (raceCalls p).pc = .start) ∧ (∀ p, (raceCalls p).e.Live) ∧
      (raceCalls false).e.name ≠ (raceCalls true).e.name ∧ (raceCalls false).e.iNo ≠ (raceCalls true).e.iNo ∧
      (∀ p x, HasEntry raceShared.vol raceShared.inode x → x.name ≠ (raceCalls p).e.name) ∧
      Relation.ReflTransGen ((syncMachine .debug samplePart).Allowed fun _ _ => true) (raceShared, raceCalls) t ∧
      (∀ p, (t.2 p).pc = .returned true) ∧
      searchDirEntry .debug t.1.vol.disk t.1.inode (raceCalls false).e.name true (fun _ => 0) ≠
        .ok (some (raceCalls false).e) := by
  intro t
  refine ⟨sample_dirOk fiveSlots 120, fun _ => rfl, race_live, race_names, by decide, race_fresh,
    racePlay_run (by decide +kernel), fun p => SyncPc.succeeded_iff (by cases p <;> decide +kernel), fun h => ?_⟩
  have hn : (searchDirEntry .debug t.1.vol.disk t.1.inode (raceCalls false).e.name true (fun _ => 0)).toOption.join.isNone :=
    by decide +kernel
  rw [h] at hn
  cases hn

end OperateSystem
