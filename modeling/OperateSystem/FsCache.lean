import OperateSystem.TreeDisk
import OperateSystem.FsPools

/-!
# The users of cached inodes

The count of a cached inode is the number of its users: slots of `file_table`,
directories that are open, `root_dir`, and the pointers that a running call
holds. `inode_open` adds a user and `inode_close` removes one.
-/

namespace OperateSystem

namespace Fs

variable {part : Partition} {b : Build} {s s' : Fs part}

def refs (s : Fs part) (a : Nat) : Nat :=
  s.slots a + s.dirs.count a + if a = s.rootDir then 1 else 0

structure Counts (s : Fs part) (extra : List Nat) : Prop where
  addrs : (s.openInodes.map (·.addr)).Nodup
  numbers : (s.openInodes.map (·.inode.iNo)).Nodup
  counts : ∀ c ∈ s.openInodes, c.iOpenCnts = s.refs c.addr + extra.count c.addr
  held : ∀ a, 0 < s.refs a + extra.count a ↔ ∃ c ∈ s.openInodes, c.addr = a
  root : ∃ c ∈ s.openInodes, c.addr = s.rootDir ∧ c.inode.iNo = 0

variable {extra : List Nat} {c c' x : CachedInode} {a : Nat}

theorem Counts.eq_of_number (h : s.Counts extra) (hc : c ∈ s.openInodes) (hx : x ∈ s.openInodes) (e : x.inode.iNo = c.inode.iNo) :
    x = c := List.inj_on_of_nodup_map h.numbers hx hc e

/-! ## Storing -/

theorem Counts.store {extra' : List Nat} (h : s.Counts extra) (hc : c ∈ s.openInodes) (ha : c'.addr = c.addr)
    (hn : c'.inode.iNo = c.inode.iNo) (hcnt : c'.iOpenCnts = s.refs c.addr + extra'.count c.addr)
    (hpos : 0 < c'.iOpenCnts) (ho : ∀ a, a ≠ c.addr → extra'.count a = extra.count a) : (s.store c').Counts extra' := by
  have hmem := fun x => mem_store_iff (x := x) hc ha
  refine ⟨?_, ?_, fun x hx => ?_, fun a => ?_, ?_⟩
  · rw [map_store (·.addr) h.addrs hc ha ha]
    exact h.addrs
  · rw [map_store (·.inode.iNo) h.addrs hc ha hn]
    exact h.numbers
  · rcases (hmem x).mp hx with rfl | ⟨hx, hne⟩
    · rw [ha]
      exact hcnt
    · rw [ho _ hne]
      exact h.counts x hx
  · have hre : (s.store c').refs = s.refs := rfl
    rw [hre]
    by_cases hac : a = c.addr
    · rw [hac, ← hcnt]
      exact ⟨fun _ => ⟨c', (hmem c').mpr (.inl rfl), ha⟩, fun _ => hpos⟩
    · rw [ho a hac, h.held a]
      constructor
      · rintro ⟨x, hx, rfl⟩
        exact ⟨x, (hmem x).mpr (.inr ⟨hx, hac⟩), rfl⟩
      · rintro ⟨x, hx, rfl⟩
        rcases (hmem x).mp hx with rfl | ⟨hx, -⟩
        · exact absurd ha hac
        · exact ⟨x, hx, rfl⟩
  · obtain ⟨r, hr, hra, hrn⟩ := h.root
    by_cases hrc : r.addr = c.addr
    · have := eq_of_addr h.addrs hc hr hrc
      subst this
      exact ⟨c', (hmem c').mpr (.inl rfl), ha.trans hra, hn.trans hrn⟩
    · exact ⟨r, (hmem r).mpr (.inr ⟨hr, hrc⟩), hra, hrn⟩

theorem Counts.update (h : s.Counts extra) (hc : c ∈ s.openInodes) (ha : c'.addr = c.addr) (hn : c'.inode.iNo = c.inode.iNo)
    (hcnt : c'.iOpenCnts = c.iOpenCnts) : (s.store c').Counts extra := by
  refine h.store hc ha hn (hcnt.trans (h.counts c hc)) ?_ fun _ _ => rfl
  rw [hcnt, h.counts c hc]
  exact (h.held c.addr).mpr ⟨c, hc, rfl⟩

/-! ## Opening and closing -/

theorem Counts.newAddr (h : s.Counts extra) : s.refs s.newAddr + extra.count s.newAddr = 0 := by
  by_contra hne
  obtain ⟨c, hc, e⟩ := (h.held s.newAddr).mp (Nat.pos_of_ne_zero hne)
  exact absurd (lt_newAddr hc) (by omega)

theorem Counts.push {i : Inode} {pool : PoolFlags} (h : s.Counts extra) (hn : ∀ c ∈ s.openInodes, c.inode.iNo ≠ i.iNo) :
    (s.push ⟨s.newAddr, i, 1, pool⟩).Counts (s.newAddr :: extra) := by
  have hnew := h.newAddr
  have hre : (s.push ⟨s.newAddr, i, 1, pool⟩).refs = s.refs := rfl
  have ho : ∀ a, a ≠ s.newAddr → (s.newAddr :: extra).count a = extra.count a := fun a ha =>
    List.count_cons_of_ne fun e => ha e.symm
  refine ⟨?_, ?_, fun x hx => ?_, fun a => ?_, ?_⟩
  · refine List.nodup_cons.mpr ⟨fun hm => ?_, h.addrs⟩
    obtain ⟨c, hc, e⟩ := List.mem_map.mp hm
    have e : c.addr = s.newAddr := e
    exact absurd (lt_newAddr hc) (by omega)
  · refine List.nodup_cons.mpr ⟨fun hm => ?_, h.numbers⟩
    obtain ⟨c, hc, e⟩ := List.mem_map.mp hm
    exact hn c hc e
  · rcases List.mem_cons.mp hx with rfl | hx
    · rw [List.count_cons_self]
      show 1 = s.refs s.newAddr + (extra.count s.newAddr + 1)
      omega
    · rw [ho _ (Nat.ne_of_lt (lt_newAddr hx))]
      exact h.counts x hx
  · rw [hre]
    by_cases ha : a = s.newAddr
    · rw [ha, List.count_cons_self]
      exact ⟨fun _ => ⟨_, .head _, rfl⟩, fun _ => by omega⟩
    · rw [ho a ha, h.held a]
      constructor
      · rintro ⟨x, hx, e⟩
        exact ⟨x, .tail _ hx, e⟩
      · rintro ⟨x, hx, e⟩
        rcases List.mem_cons.mp hx with rfl | hx
        · exact absurd e.symm ha
        · exact ⟨x, hx, e⟩
  · obtain ⟨r, hr, hro⟩ := h.root
    exact ⟨r, .tail _ hr, hro⟩

theorem Counts.more (h : s.Counts extra) (hc : c ∈ s.openInodes) :
    (s.store { c with iOpenCnts := c.iOpenCnts + 1 }).Counts (c.addr :: extra) := by
  refine h.store hc rfl rfl ?_ (Nat.succ_pos _) fun a ha => List.count_cons_of_ne fun e => ha e.symm
  rw [List.count_cons_self, h.counts c hc]
  exact Nat.add_assoc _ _ _

theorem Counts.inodeClose (h : s.Counts (a :: extra)) (hr : s.inodeClose b a = .ok s') : s'.Counts extra := by
  obtain ⟨c, hca, hcs⟩ := inodeClose_cases hr
  obtain ⟨hc, rfl⟩ := cached_ok hca
  have hcnt := h.counts c hc
  rw [List.count_cons_self] at hcnt
  have ho : ∀ a, a ≠ c.addr → extra.count a = (c.addr :: extra).count a := fun a ha =>
    (List.count_cons_of_ne fun e => ha e.symm).symm
  obtain ⟨hone, -, rfl⟩ | ⟨hone, rfl⟩ := hcs
  · -- the last user
    have hz : s.refs c.addr + extra.count c.addr = 0 := by omega
    have hmem : ∀ x, x ∈ s.openInodes.filter (fun x => x.addr ≠ c.addr) ↔ x ∈ s.openInodes ∧ x.addr ≠ c.addr := by simp
    refine ⟨(List.filter_sublist.map _).nodup h.addrs, (List.filter_sublist.map _).nodup h.numbers, fun x hx => ?_, fun a => ?_, ?_⟩
    · obtain ⟨hx, hne⟩ := (hmem x).mp hx
      rw [ho _ hne]
      exact h.counts x hx
    · show 0 < s.refs a + extra.count a ↔ ∃ x ∈ s.openInodes.filter (fun x => x.addr ≠ c.addr), x.addr = a
      by_cases ha : a = c.addr
      · rw [ha, hz]
        refine ⟨fun h => absurd h (Nat.lt_irrefl 0), ?_⟩
        rintro ⟨x, hx, e⟩
        exact absurd e ((hmem x).mp hx).2
      · rw [ho a ha, h.held a]
        constructor
        · rintro ⟨x, hx, rfl⟩
          exact ⟨x, (hmem x).mpr ⟨hx, ha⟩, rfl⟩
        · rintro ⟨x, hx, rfl⟩
          exact ⟨x, ((hmem x).mp hx).1, rfl⟩
    · obtain ⟨r, hr', hra, hrn⟩ := h.root
      refine ⟨r, (hmem r).mpr ⟨hr', fun e => ?_⟩, hra, hrn⟩
      -- `root_dir` is a user of its inode
      have : 0 < s.refs c.addr := by
        unfold refs
        rw [if_pos (e.symm.trans hra)]
        omega
      omega
  · exact h.store hc rfl rfl (by show c.iOpenCnts - 1 = _; omega) (by show 0 < c.iOpenCnts - 1; omega) ho

end Fs

end OperateSystem
