import OperateSystem.Heap

/-!
# The kernel heap is safe

Every block of an arena is either in use or on the free list of the arena's
size, and the arena counts the latter. The page of a block is found by masking
its address because header and blocks lie in that page.
-/

namespace OperateSystem

open Function List

def bs (i : Nat) : Nat := 16 * 2 ^ i
def nb (i : Nat) : Nat := (pgSize - arenaSize) / bs i

theorem bs_pos (i : Nat) : 0 < bs i := Nat.mul_pos (by decide) (Nat.two_pow_pos i)

theorem nb_pos {i : Nat} (hi : i < descCnt) : 0 < nb i := by
  have : ∀ i < 7, 0 < nb i := by decide
  exact this i hi

theorem block_end {i k : Nat} (hk : k < nb i) : arenaSize + k * bs i + bs i ≤ pgSize := by
  have h1 : (k + 1) * bs i ≤ nb i * bs i := Nat.mul_le_mul_right _ hk
  have h2 : nb i * bs i ≤ pgSize - arenaSize := Nat.div_mul_le_self _ _
  rw [Nat.succ_mul] at h1
  unfold arenaSize pgSize at *
  omega

theorem block2arena_block {i a k : Nat} (ha : a % pgSize = 0) (hk : k < nb i) : block2arena (arena2block (bs i) a k) = a := by
  have := block_end hk
  have := bs_pos i
  unfold block2arena arena2block
  unfold arenaSize pgSize at *
  omega

theorem block_inj {i a k k' : Nat} (h : arena2block (bs i) a k = arena2block (bs i) a k') : k = k' := by
  unfold arena2block at h
  exact Nat.eq_of_mul_eq_mul_right (bs_pos i) (by omega)

theorem blocks_apart {i a k k' : Nat} (h : k < k') : arena2block (bs i) a k + bs i ≤ arena2block (bs i) a k' := by
  have : (k + 1) * bs i ≤ k' * bs i := Nat.mul_le_mul_right _ h
  rw [Nat.succ_mul] at this
  unfold arena2block
  omega

theorem pages_apart {a a' : Nat} (ha : a % pgSize = 0) (ha' : a' % pgSize = 0) (h : a ≠ a') :
    a + pgSize ≤ a' ∨ a' + pgSize ≤ a := by
  unfold pgSize at *
  omega

namespace Heap

variable {h h' : Heap} {i a b k : Nat}

def IsBlock (h : Heap) (i a b : Nat) : Prop :=
  a ∈ h.pages ∧ (h.arena a).desc = some i ∧ ∃ k < nb i, b = arena2block (bs i) a k

def freeIn (l : List Nat) (a : Nat) : Nat := l.countP fun b => block2arena b = a

structure Core (h : Heap) : Prop where
  size : ∀ i < descCnt, (h.descs i).blockSize = bs i ∧ (h.descs i).blocksPerArena = nb i
  aligned : ∀ a ∈ h.pages, a % pgSize = 0 ∧ kHeapStart ≤ a
  pages : h.pages.Nodup
  header : ∀ a ∈ h.pages, (h.arena a).large = 0 ∧ ∃ i < descCnt, (h.arena a).desc = some i
  free : ∀ i < descCnt, ∀ b, b ∈ (h.descs i).freeList ↔ (∃ a, h.IsBlock i a b) ∧ h.live b = none
  nodup : ∀ i < descCnt, (h.descs i).freeList.Nodup
  held : ∀ p n, h.live p = some n → ∃ i a, h.IsBlock i a p ∧ n ≤ bs i
  count : ∀ a ∈ h.pages, ∀ i, (h.arena a).desc = some i → (h.arena a).cnt = freeIn (h.descs i).freeList a

structure Inv (h : Heap) : Prop extends Core h where
  used : ∀ a ∈ h.pages, ∀ i, (h.arena a).desc = some i → (h.arena a).cnt < nb i

theorem Core.block_page (hc : h.Core) (hb : h.IsBlock i a b) : block2arena b = a := by
  obtain ⟨ha, -, k, hk, rfl⟩ := hb
  exact block2arena_block (hc.aligned a ha).1 hk

theorem Core.desc_lt (hc : h.Core) (ha : a ∈ h.pages) (hd : (h.arena a).desc = some i) : i < descCnt := by
  obtain ⟨-, j, hj, e⟩ := hc.header a ha
  rw [hd] at e
  exact Option.some.inj e ▸ hj

theorem Core.free_block (hc : h.Core) (hi : i < descCnt) (hb : b ∈ (h.descs i).freeList) : h.IsBlock i (block2arena b) b := by
  obtain ⟨⟨a, ha⟩, -⟩ := (hc.free i hi b).mp hb
  rw [hc.block_page ha]
  exact ha

theorem Core.all_free (hc : h.Core) (ha : a ∈ h.pages) (hd : (h.arena a).desc = some i)
    (hf : nb i ≤ freeIn (h.descs i).freeList a) (hk : k < nb i) : arena2block (bs i) a k ∈ (h.descs i).freeList := by
  have hi := hc.desc_lt ha hd
  let l := (h.descs i).freeList.filter fun b => block2arena b = a
  have hsub : l.Subperm ((List.range (nb i)).map (arena2block (bs i) a)) := by
    refine List.Nodup.subperm ((hc.nodup i hi).filter _) fun b hb => ?_
    obtain ⟨hb, hpa⟩ := mem_filter.mp hb
    obtain ⟨-, -, k, hk, e⟩ := hc.free_block hi hb
    rw [of_decide_eq_true hpa] at e
    exact mem_map.mpr ⟨k, mem_range.mpr hk, e.symm⟩
  have hlen : ((List.range (nb i)).map (arena2block (bs i) a)).length ≤ l.length := by
    rw [length_map, length_range, ← countP_eq_length_filter]
    exact hf
  have hmem := (hsub.perm_of_length_le hlen).mem_iff.mpr (mem_map.mpr ⟨k, mem_range.mpr hk, rfl⟩)
  exact (mem_filter.mp hmem).1

/-! ## Blocks move between the free list and their users -/

theorem Core.block_size (hc : h.Core) {j a' : Nat} (hb : h.IsBlock i a b) (hb' : h.IsBlock j a' b) : i = j := by
  have e : a = a' := (hc.block_page hb).symm.trans (hc.block_page hb')
  subst e
  exact Option.some.inj (hb.2.1.symm.trans hb'.2.1)

theorem Core.update (hc : h.Core)
    (hs : ∀ j, (h'.descs j).blockSize = (h.descs j).blockSize ∧ (h'.descs j).blocksPerArena = (h.descs j).blocksPerArena)
    (hp : h'.pages = h.pages) (ha : ∀ a, (h'.arena a).desc = (h.arena a).desc ∧ (h'.arena a).large = (h.arena a).large)
    (hf : ∀ j < descCnt, ∀ x, x ∈ (h'.descs j).freeList ↔ (∃ a, h.IsBlock j a x) ∧ h'.live x = none)
    (hnd : ∀ j < descCnt, (h'.descs j).freeList.Nodup)
    (hh : ∀ p n, h'.live p = some n → ∃ i a, h.IsBlock i a p ∧ n ≤ bs i)
    (hco : ∀ a ∈ h.pages, ∀ j, (h.arena a).desc = some j → (h'.arena a).cnt = freeIn (h'.descs j).freeList a) :
    h'.Core := by
  have hblk : ∀ j a x, h'.IsBlock j a x ↔ h.IsBlock j a x := by
    intro j a x
    unfold IsBlock
    rw [hp, (ha a).1]
  refine ⟨fun j hj => ?_, fun a h1 => ?_, by rw [hp]; exact hc.pages, fun a h1 => ?_, fun j hj x => ?_, hnd,
    fun p n hl => ?_, fun a h1 j hd => ?_⟩
  · rw [(hs j).1, (hs j).2]
    exact hc.size j hj
  · rw [hp] at h1
    exact hc.aligned a h1
  · rw [hp] at h1
    rw [(ha a).1, (ha a).2]
    exact hc.header a h1
  · simp only [hblk]
    exact hf j hj x
  · simp only [hblk]
    exact hh p n hl
  · rw [hp] at h1
    rw [(ha a).1] at hd
    exact hco a h1 j hd

theorem setFree_freeList (h : Heap) (i j : Nat) (l : List Nat) :
    ((h.setFree i l).descs j).freeList = if j = i then l else (h.descs j).freeList := by
  unfold setFree
  by_cases hj : j = i
  · simp [hj]
  · simp [hj]

theorem setFree_size (h : Heap) (i j : Nat) (l : List Nat) : ((h.setFree i l).descs j).blockSize = (h.descs j).blockSize ∧
    ((h.setFree i l).descs j).blocksPerArena = (h.descs j).blocksPerArena := by
  unfold setFree
  by_cases hj : j = i
  · simp [hj]
  · simp [hj]

def setCnt (h : Heap) (a n : Nat) : Heap := h.setArena a { h.arena a with cnt := n }

theorem setCnt_header (h : Heap) (a n a' : Nat) : ((h.setCnt a n).arena a').desc = (h.arena a').desc ∧
    ((h.setCnt a n).arena a').large = (h.arena a').large := by
  unfold setCnt setArena
  by_cases ha : a' = a
  · simp [ha]
  · simp [ha]

theorem setCnt_cnt (h : Heap) (a n a' : Nat) : ((h.setCnt a n).arena a').cnt = if a' = a then n else (h.arena a').cnt := by
  unfold setCnt setArena
  by_cases ha : a' = a
  · simp [ha]
  · simp [ha]

theorem takeBlock_eq {l : List Nat} (hl : (h.descs i).freeList = b :: l) :
    h.takeBlock i = .ok ({ (h.setFree i l).setCnt (block2arena b) ((h.arena (block2arena b)).cnt - 1) with
      mem := fill h.mem b (h.descs i).blockSize 0 }, some b) := by
  unfold takeBlock
  rw [hl]
  rfl

theorem Core.take {l : List Nat} (hc : h.Core) (hi : i < descCnt) (hl : (h.descs i).freeList = b :: l) {size : Nat}
    (hs : size ≤ bs i) (m : Mem) :
    ({ (h.setFree i l).setCnt (block2arena b) ((h.arena (block2arena b)).cnt - 1) with
      mem := m, live := Function.update h.live b (some size) } : Heap).Core := by
  have hb : h.IsBlock i (block2arena b) b := hc.free_block hi (by simp [hl])
  have hnd := hc.nodup i hi
  rw [hl, nodup_cons] at hnd
  refine hc.update (fun j => setFree_size ..) rfl (fun a' => setCnt_header ..) (fun j hj x => ?_) (fun j hj => ?_)
    (fun p n hp => ?_) fun a ha j hd => ?_
  · show x ∈ ((h.setFree i l).descs j).freeList ↔ _ ∧ Function.update h.live b (some size) x = none
    rw [setFree_freeList]
    have hold := hc.free j hj x
    by_cases hji : j = i
    · subst hji
      rw [hl] at hold
      by_cases hxb : x = b
      · simp [hxb, hnd.1]
      · simpa [hxb] using hold
    · rw [if_neg hji, hold]
      refine and_congr_right fun ⟨a, hx⟩ => ?_
      have hxb : x ≠ b := fun e => hji (hc.block_size (e ▸ hx) hb)
      rw [update_of_ne hxb]
  · show ((h.setFree i l).descs j).freeList.Nodup
    rw [setFree_freeList]
    split
    · exact hnd.2
    · exact hc.nodup j hj
  · have hp : Function.update h.live b (some size) p = some n := hp
    by_cases hpb : p = b
    · rw [hpb, update_self] at hp
      exact ⟨i, _, hpb ▸ hb, Option.some.inj hp ▸ hs⟩
    · rw [update_of_ne hpb] at hp
      exact hc.held p n hp
  · show ((Heap.setCnt _ _ _).arena a).cnt = freeIn ((h.setFree i l).descs j).freeList a
    have hold := hc.count a ha j hd
    rw [setCnt_cnt, setFree_freeList]
    by_cases hab : a = block2arena b
    · -- the block's own arena: its size is the one the block was taken from
      have hji : j = i := by
        rw [hab, hb.2.1] at hd
        exact (Option.some.inj hd).symm
      rw [if_pos hab, if_pos hji, ← hab, hold, hji, hl, freeIn, countP_cons]
      simp [hab, freeIn]
    · rw [if_neg hab]
      show (h.arena a).cnt = _
      rw [hold]
      split
      · next hji =>
        rw [hji, hl, freeIn, countP_cons]
        simp [Ne.symm hab, freeIn]
      · rfl

theorem Core.give (hc : h.Core) (hb : h.IsBlock i a b) (hl : h.live b ≠ none) :
    ({ (h.setFree i ((h.descs i).freeList ++ [b])).setCnt a ((h.arena a).cnt + 1) with
      live := Function.update h.live b none } : Heap).Core := by
  have hi := hc.desc_lt hb.1 hb.2.1
  have hnot : b ∉ (h.descs i).freeList := fun hm => hl ((hc.free i hi b).mp hm).2
  refine hc.update (fun j => setFree_size ..) rfl (fun a' => setCnt_header ..) (fun j hj x => ?_) (fun j hj => ?_)
    (fun p n hp => ?_) fun a' ha j hd => ?_
  · show x ∈ ((h.setFree i _).descs j).freeList ↔ _ ∧ Function.update h.live b none x = none
    rw [setFree_freeList]
    have hold := hc.free j hj x
    by_cases hji : j = i
    · subst hji
      by_cases hxb : x = b
      · subst hxb
        simpa using ⟨a, hb⟩
      · simpa [hxb] using hold
    · rw [if_neg hji, hold]
      refine and_congr_right fun ⟨a', hx⟩ => ?_
      have hxb : x ≠ b := fun e => hji (hc.block_size (e ▸ hx) hb)
      rw [update_of_ne hxb]
  · show ((h.setFree i _).descs j).freeList.Nodup
    rw [setFree_freeList]
    split
    · exact (perm_append_singleton b _).nodup_iff.mpr (nodup_cons.mpr ⟨hnot, hc.nodup i hi⟩)
    · exact hc.nodup j hj
  · have hp : Function.update h.live b none p = some n := hp
    by_cases hpb : p = b
    · rw [hpb, update_self] at hp
      cases hp
    · rw [update_of_ne hpb] at hp
      exact hc.held p n hp
  · show ((Heap.setCnt _ _ _).arena a').cnt = freeIn ((h.setFree i _).descs j).freeList a'
    have hold := hc.count a' ha j hd
    have hpa := hc.block_page hb
    rw [setCnt_cnt, setFree_freeList]
    by_cases hab : a' = a
    · subst hab
      have hji : j = i := Option.some.inj (hd.symm.trans hb.2.1)
      rw [if_pos rfl, if_pos hji, hold, hji, freeIn, freeIn, countP_append]
      simp [hpa]
    · rw [if_neg hab]
      show (h.arena a').cnt = _
      rw [hold]
      split
      · next hji =>
        rw [hji, freeIn, freeIn, countP_append]
        simp [hpa, Ne.symm hab]
      · rfl

/-! ## Arenas come and go -/

theorem setFree_setFree (h : Heap) (i : Nat) (l l' : List Nat) : (h.setFree i l).setFree i l' = h.setFree i l' := by
  simp [setFree]

theorem addBlocks_eq : ∀ n k (h : Heap), (h.descs i).blockSize = bs i →
    (∀ k', k ≤ k' → arena2block (bs i) a k' ∉ (h.descs i).freeList) → addBlocks i a n k h =
      .ok (h.setFree i ((h.descs i).freeList ++ (List.range' k n).map (arena2block (bs i) a)))
  | 0, k, h, _, _ => by
    simp [addBlocks, setFree]
  | n + 1, k, h, hs, hnot => by
    have hf := h.setFree_freeList i i ((h.descs i).freeList ++ [arena2block (bs i) a k])
    rw [if_pos rfl] at hf
    have ih := addBlocks_eq n (k + 1) (h.setFree i ((h.descs i).freeList ++ [arena2block (bs i) a k]))
      ((setFree_size ..).1.trans hs) fun k' hk' => by
        rw [hf, mem_append, mem_singleton, not_or]
        refine ⟨hnot k' (by omega), fun e => ?_⟩
        have := block_inj e
        omega
    rw [hf, setFree_setFree, append_assoc] at ih
    simp only [addBlocks, hs, assert_of _ (hnot k le_rfl), ok_bind, ih]
    rfl

theorem removeBlocks_eq : ∀ n k (h : Heap), (h.descs i).blockSize = bs i → (h.descs i).freeList.Nodup →
    (∀ k', k ≤ k' → k' < k + n → arena2block (bs i) a k' ∈ (h.descs i).freeList) → removeBlocks i a n k h =
      .ok (h.setFree i ((h.descs i).freeList.diff ((List.range' k n).map (arena2block (bs i) a))))
  | 0, k, h, _, _, _ => by
    simp [removeBlocks, setFree]
  | n + 1, k, h, hs, hnd, hin => by
    have hf := h.setFree_freeList i i ((h.descs i).freeList.erase (arena2block (bs i) a k))
    rw [if_pos rfl] at hf
    have ih := removeBlocks_eq n (k + 1) (h.setFree i ((h.descs i).freeList.erase (arena2block (bs i) a k)))
      ((setFree_size ..).1.trans hs) (by rw [hf]; exact hnd.erase _) fun k' h1 h2 => by
        rw [hf, hnd.mem_erase_iff]
        refine ⟨fun e => ?_, hin k' (by omega) (by omega)⟩
        have := block_inj e
        omega
    rw [hf, setFree_setFree] at ih
    simp only [removeBlocks, hs, assert_of _ (hin k le_rfl (by omega)), ok_bind, ih, List.range'_succ,
      map_cons, diff_cons]

def blocksOf (i a : Nat) : List Nat := (List.range' 0 (nb i)).map (arena2block (bs i) a)

theorem mem_blocksOf : b ∈ blocksOf i a ↔ ∃ k < nb i, b = arena2block (bs i) a k := by
  simp only [blocksOf, mem_map, mem_range'_1, Nat.zero_le, true_and, Nat.zero_add, eq_comm]

theorem blocksOf_nodup (i a : Nat) : (blocksOf i a).Nodup :=
  List.Nodup.map (fun _ _ e => block_inj e) nodup_range'

theorem Core.newArena (hc : h.Core) (hi : i < descCnt) (hl : (h.descs i).freeList = [])
    (ha : a % pgSize = 0 ∧ kHeapStart ≤ a ∧ a ∉ h.pages) :
    ∃ h', h.newArena i a = .ok h' ∧ h'.Core ∧ (h'.descs i).freeList = blocksOf i a ∧ h'.live = h.live ∧
      h'.pages = a :: h.pages ∧ (h'.arena a).cnt = nb i ∧ ∀ a' ∈ h.pages, h'.arena a' = h.arena a' := by
  have hsi := hc.size i hi
  have hne : ∀ a' ∈ h.pages, a' ≠ a := fun a' h1 e => ha.2.2 (e ▸ h1)
  let h1 : Heap := { h with
    mem := fill h.mem a pgSize 0, pages := a :: h.pages
    arena := Function.update h.arena a ⟨some i, (h.descs i).blocksPerArena, 0⟩ }
  have hadd : h.newArena i a = .ok (h1.setFree i (blocksOf i a)) := by
    have := addBlocks_eq (i := i) (a := a) (nb i) 0 h1 hsi.1 fun k' _ => by
      rw [hl]
      exact not_mem_nil
    rw [show (h1.descs i).freeList = [] from hl, nil_append] at this
    show addBlocks i a (h.descs i).blocksPerArena 0 h1 = _
    rw [hsi.2]
    exact this
  have har : ∀ a', a' ≠ a → (h1.setFree i (blocksOf i a)).arena a' = h.arena a' := fun a' e => update_of_ne e ..
  have hse : (h1.setFree i (blocksOf i a)).arena a = ⟨some i, nb i, 0⟩ := by
    rw [← hsi.2]
    exact update_self ..
  have hblk : ∀ j x, (∃ a', (h1.setFree i (blocksOf i a)).IsBlock j a' x) ↔
      (j = i ∧ x ∈ blocksOf i a) ∨ ∃ a', h.IsBlock j a' x := by
    intro j x
    constructor
    · rintro ⟨a', hm, hd, k, hk, e⟩
      rcases mem_cons.mp hm with rfl | hm
      · rw [hse] at hd
        obtain rfl : i = j := Option.some.inj hd
        exact .inl ⟨rfl, mem_blocksOf.mpr ⟨k, hk, e⟩⟩
      · rw [har a' (hne a' hm)] at hd
        exact .inr ⟨a', hm, hd, k, hk, e⟩
    · rintro (⟨rfl, hx⟩ | ⟨a', hm, hd, hk⟩)
      · exact ⟨a, .head _, by rw [hse], mem_blocksOf.mp hx⟩
      · refine ⟨a', .tail _ hm, ?_, hk⟩
        rw [har a' (hne a' hm)]
        exact hd
  -- the page of a block in use is an old one
  have hf : ∀ x ∈ blocksOf i a, h.live x = none := by
    intro x hx
    obtain ⟨k, hk, rfl⟩ := mem_blocksOf.mp hx
    cases hli : h.live (arena2block (bs i) a k) with
    | none => rfl
    | some n =>
      obtain ⟨j, a', hb, -⟩ := hc.held _ n hli
      have := (hc.block_page hb).symm.trans (block2arena_block ha.1 hk)
      exact absurd (this ▸ hb.1) ha.2.2
  refine ⟨_, hadd, ⟨fun j hj => ?_, fun a' hm => ?_, nodup_cons.mpr ⟨ha.2.2, hc.pages⟩, fun a' hm => ?_,
    fun j hj x => ?_, fun j hj => ?_, fun p n hp => ?_, fun a' hm j hd => ?_⟩, by simp [setFree_freeList], rfl, rfl,
    by rw [hse], fun a' hm => har a' (hne a' hm)⟩
  · have hs := h1.setFree_size i j (blocksOf i a)
    rw [hs.1, hs.2]
    exact hc.size j hj
  · rcases mem_cons.mp hm with rfl | hm
    · exact ⟨ha.1, ha.2.1⟩
    · exact hc.aligned a' hm
  · rcases mem_cons.mp hm with rfl | hm
    · rw [hse]
      exact ⟨rfl, i, hi, rfl⟩
    · rw [har a' (hne a' hm)]
      exact hc.header a' hm
  · rw [hblk, setFree_freeList]
    show _ ↔ _ ∧ h.live x = none
    have hold := hc.free j hj x
    by_cases hji : j = i
    · subst hji
      rw [hl] at hold
      constructor
      · intro hx
        rw [if_pos rfl] at hx
        exact ⟨.inl ⟨rfl, hx⟩, hf x hx⟩
      · rintro ⟨⟨-, hx⟩ | hx, hli⟩
        · simpa using hx
        · exact absurd (hold.mpr ⟨hx, hli⟩) not_mem_nil
    · simpa [hji] using hold
  · rw [setFree_freeList]
    split
    · exact blocksOf_nodup i a
    · exact hc.nodup j hj
  · obtain ⟨j, a', hb, hn⟩ := hc.held p n hp
    obtain ⟨a'', hb'⟩ := (hblk j p).mpr (.inr ⟨a', hb⟩)
    exact ⟨j, a'', hb', hn⟩
  · rw [setFree_freeList]
    rcases mem_cons.mp hm with rfl | hm
    · rw [hse] at hd ⊢
      have hji : j = i := (Option.some.inj hd).symm
      rw [if_pos hji, freeIn, countP_eq_length.mpr, blocksOf, length_map, length_range']
      intro x hx
      obtain ⟨k, hk, rfl⟩ := mem_blocksOf.mp hx
      exact decide_eq_true (block2arena_block ha.1 hk)
    · have hne' := hne a' hm
      rw [har a' hne'] at hd ⊢
      rw [hc.count a' hm j hd]
      split
      · next hji =>
        rw [hji, hl, freeIn, freeIn, countP_nil, eq_comm, countP_eq_zero]
        intro x hx
        obtain ⟨k, hk, rfl⟩ := mem_blocksOf.mp hx
        simp [block2arena_block ha.1 hk, Ne.symm hne']
      · rfl

theorem removeBlocks_all (hs : (h.descs i).blockSize = bs i) (hnd : (h.descs i).freeList.Nodup)
    (hall : ∀ k < nb i, arena2block (bs i) a k ∈ (h.descs i).freeList) :
    removeBlocks i a (nb i) 0 h = .ok (h.setFree i ((h.descs i).freeList.filter (· ∉ blocksOf i a))) := by
  rw [removeBlocks_eq (nb i) 0 h hs hnd fun k' _ hk' => hall k' (by omega), List.Nodup.sdiff_eq_filter hnd]
  rfl

theorem Core.dropArena (hc : h.Core) (ha : a ∈ h.pages) (hd : (h.arena a).desc = some i)
    (hall : ∀ k < nb i, arena2block (bs i) a k ∈ (h.descs i).freeList) :
    ((h.setFree i ((h.descs i).freeList.filter (· ∉ blocksOf i a))).mfreePage a).Core := by
  have hi := hc.desc_lt ha hd
  have hal := (hc.aligned a ha).1
  have hmem : ∀ a', a' ∈ ((h.setFree i ((h.descs i).freeList.filter (· ∉ blocksOf i a))).mfreePage a).pages ↔
      a' ≠ a ∧ a' ∈ h.pages := fun a' => hc.pages.mem_erase_iff
  have hblk : ∀ j x, (∃ a', ((h.setFree i ((h.descs i).freeList.filter (· ∉ blocksOf i a))).mfreePage a).IsBlock j a' x) ↔
      (∃ a', h.IsBlock j a' x) ∧ block2arena x ≠ a := by
    intro j x
    constructor
    · rintro ⟨a', hm, hd', hk⟩
      obtain ⟨hne, hm⟩ := (hmem a').mp hm
      exact ⟨⟨a', hm, hd', hk⟩, fun e => hne ((hc.block_page ⟨hm, hd', hk⟩).symm.trans e)⟩
    · rintro ⟨⟨a', hb⟩, hne⟩
      exact ⟨a', (hmem a').mpr ⟨fun e => hne ((hc.block_page hb).trans e), hb.1⟩, hb.2⟩
  refine ⟨fun j hj => ?_, fun a' hm => hc.aligned a' ((hmem a').mp hm).2, hc.pages.erase a,
    fun a' hm => hc.header a' ((hmem a').mp hm).2, fun j hj x => ?_, fun j hj => ?_, fun p n hp => ?_,
    fun a' hm j hd' => ?_⟩
  · have hs := h.setFree_size i j ((h.descs i).freeList.filter (· ∉ blocksOf i a))
    exact ⟨hs.1.trans (hc.size j hj).1, hs.2.trans (hc.size j hj).2⟩
  · rw [hblk]
    show x ∈ ((h.setFree i _).descs j).freeList ↔ _ ∧ h.live x = none
    rw [setFree_freeList]
    have hold := hc.free j hj x
    by_cases hji : j = i
    · subst hji
      rw [if_pos rfl, mem_filter, hold]
      constructor
      · rintro ⟨⟨⟨a', hb⟩, hl⟩, hx⟩
        refine ⟨⟨⟨a', hb⟩, fun e => ?_⟩, hl⟩
        have haa : a' = a := (hc.block_page hb).symm.trans e
        exact of_decide_eq_true hx (mem_blocksOf.mpr (haa ▸ hb.2.2))
      · rintro ⟨⟨hb, hne⟩, hl⟩
        refine ⟨⟨hb, hl⟩, decide_eq_true fun hx => ?_⟩
        obtain ⟨k, hk, rfl⟩ := mem_blocksOf.mp hx
        exact hne (block2arena_block hal hk)
    · rw [if_neg hji, hold]
      constructor
      · rintro ⟨⟨a', hb⟩, hl⟩
        refine ⟨⟨⟨a', hb⟩, fun e => hji ?_⟩, hl⟩
        have haa : a' = a := (hc.block_page hb).symm.trans e
        have := haa ▸ hb.2.1
        exact Option.some.inj (this.symm.trans hd)
      · rintro ⟨⟨hb, -⟩, hl⟩
        exact ⟨hb, hl⟩
  · show ((h.setFree i _).descs j).freeList.Nodup
    rw [setFree_freeList]
    split
    · exact (hc.nodup i hi).filter _
    · exact hc.nodup j hj
  · obtain ⟨j, a', hb, hn⟩ := hc.held p n hp
    have hpa : block2arena p ≠ a := by
      intro e
      have haa : a' = a := (hc.block_page hb).symm.trans e
      subst haa
      obtain rfl : j = i := Option.some.inj (hb.2.1.symm.trans hd)
      obtain ⟨k, hk, rfl⟩ := hb.2.2
      have := ((hc.free j hi _).mp (hall k hk)).2
      rw [show h.live _ = some n from hp] at this
      cases this
    obtain ⟨a'', hb'⟩ := (hblk j p).mpr ⟨⟨a', hb⟩, hpa⟩
    exact ⟨j, a'', hb', hn⟩
  · obtain ⟨hne, hm⟩ := (hmem a').mp hm
    show (h.arena a').cnt = freeIn ((h.setFree i _).descs j).freeList a'
    rw [hc.count a' hm j hd', setFree_freeList]
    split
    · next hji =>
      rw [hji, freeIn, freeIn, countP_filter]
      refine countP_congr fun x _ => ?_
      simp only [decide_eq_true_eq, Bool.and_eq_true]
      refine ⟨fun e => ⟨e, fun hx => hne ?_⟩, fun e => e.1⟩
      obtain ⟨k, hk, rfl⟩ := mem_blocksOf.mp hx
      exact e.symm.trans (block2arena_block hal hk)
    · rfl

/-! ## The two calls -/

theorem findDesc_spec (hc : h.Core) (size : Nat) : ∀ n i, i + n = descCnt → size ≤ bs (i + n - 1) → 0 < n →
    h.findDesc size n i < descCnt ∧ size ≤ bs (h.findDesc size n i)
  | 0, i, _, _, hn => absurd hn (Nat.lt_irrefl 0)
  | n + 1, i, hin, hl, _ => by
    unfold findDesc
    rw [(hc.size i (by omega)).1]
    split
    · next hle => exact ⟨by omega, hle⟩
    · next hlt =>
      cases n with
      | zero => exact absurd hl hlt
      | succ n => exact findDesc_spec hc size (n + 1) (i + 1) (by omega) (by rwa [show i + 1 + (n + 1) - 1 = i + (n + 1 + 1) - 1 by omega]) (Nat.succ_pos n)

def Got (h h' : Heap) (size : Nat) : Option Nat → Prop
  | none => h' = h
  | some b => (h'.mark (some b) size).Inv ∧ h.live b = none ∧
      ∃ i a, h'.IsBlock i a b ∧ size ≤ bs i ∧ ∀ j < bs i, h'.mem (b + j) = 0

theorem Core.takeBlock {size : Nat} (hc : h.Core) (hi : i < descCnt) (hne : (h.descs i).freeList ≠ [])
    (hs : size ≤ bs i)
    (hu : ∀ a ∈ h.pages, ∀ j, (h.arena a).desc = some j → (h.arena a).cnt < nb j ∨
      (h.arena a).cnt ≤ nb j ∧ ∀ b ∈ (h.descs i).freeList, block2arena b = a) :
    ∃ h' b, h.takeBlock i = .ok (h', some b) ∧ (h'.mark (some b) size).Inv ∧ h.live b = none ∧
      ∃ a, h'.IsBlock i a b ∧ ∀ j < bs i, h'.mem (b + j) = 0 := by
  rcases hl : (h.descs i).freeList with _ | ⟨b, l⟩
  · exact absurd hl hne
  have hb := hc.free_block hi (b := b) (by simp [hl])
  refine ⟨_, b, takeBlock_eq hl, ⟨hc.take hi hl hs _, fun a ha j hd => ?_⟩,
    ((hc.free i hi b).mp (by simp [hl])).2, block2arena b, ⟨hb.1, ?_, hb.2.2⟩, fun j hj => ?_⟩
  · have hd : (h.arena a).desc = some j := (setCnt_header ..).1.symm.trans hd
    show ((Heap.setCnt _ _ _).arena a).cnt < nb j
    have hold := hu a ha j hd
    rw [setCnt_cnt]
    split
    · next e =>
      rw [← e]
      have hco := hc.count a ha j hd
      obtain rfl : i = j := by
        rw [e, hb.2.1] at hd
        exact Option.some.inj hd
      have hpos : 0 < (h.arena a).cnt := by
        rw [hco, hl, freeIn, countP_cons]
        simp [e]
      rcases hold with hlt | ⟨hle, -⟩ <;> omega
    · next e =>
      rcases hold with hlt | ⟨-, hall⟩
      · exact hlt
      · exact absurd (hall b (by simp [hl])).symm e
  · exact (setCnt_header ..).1.trans hb.2.1
  · rw [(hc.size i hi).1]
    exact fill_in (by omega) (by omega)

theorem Inv.mallocBlock {size : Nat} {page : Option Nat} (h0 : h.Inv) (hi : i < descCnt) (hs : size ≤ bs i)
    (hf : h.Fresh page) : ∃ h' p, h.mallocBlock i page = .ok (h', p) ∧ h.Got h' size p := by
  unfold Heap.mallocBlock
  by_cases hl : (h.descs i).freeList = []
  · rw [if_pos hl]
    obtain _ | a := page
    · exact ⟨h, none, rfl, rfl⟩
    obtain ⟨h1, h2, -, h3⟩ := hf a rfl
    obtain ⟨h', hok, hc', hfr, hli, hpa, hcnt, ho⟩ := h0.newArena hi hl ⟨h1, h2, h3⟩
    have hne : (h'.descs i).freeList ≠ [] := by
      rw [hfr]
      intro e
      have := congrArg List.length e
      rw [blocksOf, length_map, length_range', length_nil] at this
      exact absurd (nb_pos hi) (by omega)
    have hu : ∀ a' ∈ h'.pages, ∀ j, (h'.arena a').desc = some j → (h'.arena a').cnt < nb j ∨
        (h'.arena a').cnt ≤ nb j ∧ ∀ b ∈ (h'.descs i).freeList, block2arena b = a' := by
      intro a' hm j hd
      rw [hpa] at hm
      rcases mem_cons.mp hm with rfl | hm
      · have hfi := hc'.free_block hi (b := arena2block (bs i) a' 0) (by
          rw [hfr]
          exact mem_blocksOf.mpr ⟨0, nb_pos hi, rfl⟩)
        rw [block2arena_block h1 (nb_pos hi)] at hfi
        obtain rfl : i = j := Option.some.inj (hfi.2.1.symm.trans hd)
        refine .inr ⟨Nat.le_of_eq hcnt, fun b hb => ?_⟩
        rw [hfr] at hb
        obtain ⟨k, hk, rfl⟩ := mem_blocksOf.mp hb
        exact block2arena_block h1 hk
      · rw [ho a' hm] at hd ⊢
        exact .inl (h0.used a' hm j hd)
    obtain ⟨h'', b, hok', hinv, hl', a', hblk, hz⟩ := hc'.takeBlock hi hne hs hu
    refine ⟨h'', some b, ?_, hinv, hli ▸ hl', i, a', hblk, hs, hz⟩
    simp only [hok, ok_bind, hok']
  · rw [if_neg hl]
    obtain ⟨h', b, hok, hinv, hli, a, hblk, hz⟩ :=
      h0.toCore.takeBlock hi hl hs fun a ha j hd => .inl (h0.used a ha j hd)
    exact ⟨h', some b, hok, hinv, hli, i, a, hblk, hs, hz⟩

theorem Inv.sysMalloc {size : Nat} {page : Option Nat} (h0 : h.Inv) (hs : size ≤ 1024) (hf : h.Fresh page) :
    ∃ h' p, h.sysMalloc size page = .ok (h', p) ∧ h.Got h' size p := by
  unfold Heap.sysMalloc mallocFrom
  split
  · exact ⟨h, none, rfl, rfl⟩
  · obtain ⟨hlt, hle⟩ := findDesc_spec h0.toCore size descCnt 0 (Nat.zero_add _) hs (by decide)
    obtain ⟨h', p, hok, hg⟩ := h0.mallocBlock hlt hle hf
    refine ⟨h', p, ?_, hg⟩
    rw [if_neg (by omega)]
    simp only [Nat.zero_add, inBounds_of hlt, ok_bind, hok]

theorem Inv.freeBlock (h0 : h.Inv) (hb : h.IsBlock i a b) (hl : h.live b ≠ none) :
    ∃ h', h.freeBlock i a b = .ok h' ∧ (h'.unmark b).Inv := by
  have hc : (((h.setFree i ((h.descs i).freeList ++ [b])).setCnt a ((h.arena a).cnt + 1)).unmark b).Core :=
    h0.give hb hl
  have hi := h0.desc_lt hb.1 hb.2.1
  have hcnt := h0.used a hb.1 i hb.2.1
  generalize hh1 : (h.setFree i ((h.descs i).freeList ++ [b])).setCnt a ((h.arena a).cnt + 1) = h1 at hc
  have hde : ∀ a', (h1.arena a').desc = (h.arena a').desc := fun a' => hh1 ▸ (setCnt_header ..).1
  have hcnt1 : ∀ a', (h1.arena a').cnt = if a' = a then (h.arena a).cnt + 1 else (h.arena a').cnt :=
    fun a' => hh1 ▸ setCnt_cnt ..
  have hpa : h1.pages = h.pages := hh1 ▸ rfl
  have hfb : h.freeBlock i a b = if (h.arena a).cnt + 1 = (h1.descs i).blocksPerArena then do
      let h ← removeBlocks i a (h1.descs i).blocksPerArena 0 h1
      return h.mfreePage a
    else return h1 := hh1 ▸ rfl
  obtain ⟨hs, hnb⟩ : (h1.descs i).blockSize = bs i ∧ (h1.descs i).blocksPerArena = nb i := hc.size i hi
  rw [hfb, hnb]
  have ha := hpa ▸ hb.1
  have hd := (hde a).trans hb.2.1
  by_cases hf : (h.arena a).cnt + 1 = nb i
  · have hall : ∀ k < nb i, arena2block (bs i) a k ∈ (h1.descs i).freeList := by
      intro k hk
      refine hc.all_free ha hd ?_ hk
      have := hc.count a ha i hd
      rw [← this]
      show nb i ≤ (h1.arena a).cnt
      rw [hcnt1, if_pos rfl]
      exact Nat.le_of_eq hf.symm
    rw [if_pos hf, removeBlocks_all hs (hc.nodup i hi) hall, ok_bind]
    refine ⟨_, rfl, hc.dropArena ha hd hall, fun a' hm j hd' => ?_⟩
    obtain ⟨hne, hm⟩ := hc.pages.mem_erase_iff.mp hm
    show (h1.arena a').cnt < nb j
    rw [hcnt1, if_neg hne]
    exact h0.used a' (hpa ▸ hm) j ((hde a').symm.trans hd')
  · rw [if_neg hf]
    refine ⟨h1, rfl, hc, fun a' hm j hd' => ?_⟩
    have hm' := hpa ▸ hm
    have hd' := (hde a').symm.trans hd'
    show (h1.arena a').cnt < nb j
    rw [hcnt1]
    split
    · next e =>
      obtain rfl : i = j := Option.some.inj (hb.2.1.symm.trans (e ▸ hd'))
      omega
    · exact h0.used a' hm' j hd'

theorem Inv.sysFree {p : Nat} (h0 : h.Inv) (hp : h.live p ≠ none) : ∃ h', h.sysFree p = .ok h' ∧ (h'.unmark p).Inv := by
  obtain ⟨n, hn⟩ := Option.ne_none_iff_exists'.mp hp
  obtain ⟨i, a, hb, -⟩ := h0.held p n hn
  have hpa := h0.block_page hb
  have hl := (h0.header a hb.1).1
  have hge : kHeapStart ≤ p := by
    have := (h0.aligned a hb.1).2
    obtain ⟨-, -, k, hk, e⟩ := hb
    rw [e, arena2block]
    omega
  have hnz : p ≠ 0 := by
    rintro rfl
    exact absurd hge (by decide)
  obtain ⟨h', hok, hinv⟩ := h0.freeBlock hb hp
  refine ⟨h', ?_, hinv⟩
  unfold Heap.sysFree freeFrom
  rw [assert_of _ hnz, ok_bind, assert_of _ hge, ok_bind, hpa]
  dsimp only
  rw [assert_of _ (.inl hl), ok_bind, hb.2.1]
  exact hok

/-! ## Runs -/

theorem Inv.setMem (h0 : h.Inv) (m : Mem) : ({ h with mem := m } : Heap).Inv :=
  ⟨⟨h0.size, h0.aligned, h0.pages, h0.header, h0.free, h0.nodup, h0.held, h0.count⟩, h0.used⟩

theorem Inv.step (h0 : h.Inv) (hs : HeapStep h h') : h'.Inv := by
  cases hs with
  | malloc size page h1 h2 hf hr =>
    obtain ⟨h'', p, hok, hg⟩ := h0.sysMalloc h2 hf
    obtain ⟨rfl, rfl⟩ := Prod.mk.inj (Except.ok.inj (hok.symm.trans hr))
    cases p with
    | none => exact (show h'' = h from hg) ▸ h0
    | some b => exact hg.1
  | free p hp hr =>
    obtain ⟨h'', hok, hinv⟩ := h0.sysFree hp
    rw [hr] at hok
    cases hok
    exact hinv
  | write p j v hp hj => exact h0.setMem _

theorem blockDescInit_eq (descs : Nat → MemBlockDesc) {i : Nat} (hi : i < descCnt) :
    blockDescInit descs i = ⟨bs i, nb i, []⟩ := by
  have : i = 0 ∨ i = 1 ∨ i = 2 ∨ i = 3 ∨ i = 4 ∨ i = 5 ∨ i = 6 := by unfold descCnt at hi; omega
  rcases this with rfl | rfl | rfl | rfl | rfl | rfl | rfl <;> rfl

theorem Init.inv (h0 : h.Init) : h.Inv := by
  obtain ⟨descs, hd⟩ := h0.descs
  have hn : ∀ a, a ∉ h.pages := fun a ha => by simp [h0.pages] at ha
  have hl : ∀ p n, h.live p ≠ some n := fun p n e => by simp [h0.live p] at e
  refine ⟨⟨fun i hi => ?_, fun a ha => absurd ha (hn a), by simp [h0.pages], fun a ha => absurd ha (hn a),
    fun i hi b => ?_, fun i hi => ?_, fun p n hp => absurd hp (hl p n), fun a ha => absurd ha (hn a)⟩,
    fun a ha => absurd ha (hn a)⟩
  · rw [hd, blockDescInit_eq _ hi]
    exact ⟨rfl, rfl⟩
  · rw [hd, blockDescInit_eq _ hi]
    refine iff_of_false not_mem_nil ?_
    rintro ⟨⟨a, ha, -⟩, -⟩
    exact hn a ha
  · rw [hd, blockDescInit_eq _ hi]
    exact nodup_nil

def capacity (h : Heap) (p : Nat) : Nat :=
  match (h.arena (block2arena p)).desc with
  | some i => (h.descs i).blockSize
  | none => 0

theorem capacity_block (hp : block2arena b = a) (hd : (h.arena a).desc = some i) : h.capacity b = (h.descs i).blockSize := by
  unfold capacity
  rw [hp, hd]

theorem Core.bounds (hc : h.Core) (hb : h.IsBlock i a b) :
    h.capacity b = bs i ∧ a + arenaSize ≤ b ∧ b + bs i ≤ a + pgSize := by
  have hpa := hc.block_page hb
  obtain ⟨ha, hd, k, hk, e⟩ := hb
  have := block_end hk
  refine ⟨by rw [capacity_block hpa hd, (hc.size i (hc.desc_lt ha hd)).1], ?_, ?_⟩
  · rw [e, arena2block]
    omega
  · rw [e, arena2block]
    omega

theorem Core.blocks_disjoint (hc : h.Core) {i' a' b' : Nat} (hb : h.IsBlock i a b) (hb' : h.IsBlock i' a' b') (hne : b ≠ b') :
    b + bs i ≤ b' ∨ b' + bs i' ≤ b := by
  obtain ⟨-, h1, h2⟩ := hc.bounds hb
  obtain ⟨-, h1', h2'⟩ := hc.bounds hb'
  by_cases haa : a = a'
  · subst haa
    obtain rfl : i = i' := Option.some.inj (hb.2.1.symm.trans hb'.2.1)
    obtain ⟨-, -, k, -, rfl⟩ := hb
    obtain ⟨-, -, k', -, rfl⟩ := hb'
    have hkk : k ≠ k' := fun e => hne (e ▸ rfl)
    rcases Nat.lt_or_gt_of_ne hkk with hlt | hlt
    · exact .inl (blocks_apart hlt)
    · exact .inr (blocks_apart hlt)
  · have hap := pages_apart (hc.aligned a hb.1).1 (hc.aligned a' hb'.1).1 haa
    omega

structure Separate (h : Heap) (p : Nat) : Prop where
  page : block2arena p ∈ h.pages ∧ block2arena p + arenaSize ≤ p ∧ p + h.capacity p ≤ block2arena p + pgSize
  headers : ∀ a ∈ h.pages, a + arenaSize ≤ p ∨ p + h.capacity p ≤ a
  others : ∀ p', p' ≠ p → h.live p' ≠ none → p' + h.capacity p' ≤ p ∨ p + h.capacity p ≤ p'

theorem Core.separate (hc : h.Core) (hb : h.IsBlock i a b) : h.Separate b := by
  obtain ⟨hcap, hlo, hhi⟩ := hc.bounds hb
  have hpa := hc.block_page hb
  refine ⟨by rw [hpa, hcap]; exact ⟨hb.1, hlo, hhi⟩, fun a' ha' => ?_, fun p' hne hp' => ?_⟩
  · by_cases haa : a = a'
    · subst haa
      exact .inl hlo
    · have := pages_apart (hc.aligned a hb.1).1 (hc.aligned a' ha').1 haa
      omega
  · obtain ⟨n, hn⟩ := Option.ne_none_iff_exists'.mp hp'
    obtain ⟨i', a', hb', -⟩ := hc.held p' n hn
    rw [hcap, (hc.bounds hb').1]
    exact hc.blocks_disjoint hb' hb hne

end Heap

open Heap

/-- **The kernel heap.** The free lists hold the blocks that are not in use, and blocks in use are
large enough and apart from each other and from all headers. The next call succeeds, and the block
it returns is zero. -/
theorem heap_safe {h : Heap} (hr : Reach HeapStep Init h) :
    (∀ i < descCnt, (h.descs i).freeList.Nodup ∧ ∀ b, b ∈ (h.descs i).freeList ↔
      (∃ a ∈ h.pages, (h.arena a).desc = some i ∧
        ∃ k < (h.descs i).blocksPerArena, b = arena2block (h.descs i).blockSize a k) ∧ h.live b = none) ∧
    (∀ a ∈ h.pages, ∃ i < descCnt, (h.arena a).desc = some i ∧
      (h.arena a).cnt = ((h.descs i).freeList.filter fun b => block2arena b = a).length ∧
      (h.arena a).cnt < (h.descs i).blocksPerArena) ∧
    (∀ p n, h.live p = some n → n ≤ h.capacity p ∧ h.Separate p) ∧
    (∀ size page, 0 < size → size ≤ 1024 → h.Fresh page → ∃ h' p, h.sysMalloc size page = .ok (h', p) ∧
      ∀ b, p = some b → h.live b = none ∧ size ≤ h'.capacity b ∧ h'.Separate b ∧
        ∀ j < h'.capacity b, h'.mem (b + j) = 0) ∧
    ∀ p, h.live p ≠ none → ∃ h', h.sysFree p = .ok h' := by
  have h0 : h.Inv := hr.invariant (fun _ hi => hi.inv) fun _ _ hi hs => hi.step hs
  refine ⟨fun i hi => ⟨h0.nodup i hi, fun b => ?_⟩, fun a ha => ?_, fun p n hp => ?_, fun size page _ hs hf => ?_,
    fun p hp => ?_⟩
  · rw [(h0.size i hi).1, (h0.size i hi).2]
    exact h0.free i hi b
  · obtain ⟨-, i, hi, hd⟩ := h0.header a ha
    refine ⟨i, hi, hd, ?_, ?_⟩
    · rw [← countP_eq_length_filter]
      exact h0.count a ha i hd
    · rw [(h0.size i hi).2]
      exact h0.used a ha i hd
  · obtain ⟨i, a, hb, hn⟩ := h0.held p n hp
    rw [(h0.bounds hb).1]
    exact ⟨hn, h0.separate hb⟩
  · obtain ⟨h', p, hok, hg⟩ := h0.sysMalloc hs hf
    refine ⟨h', p, hok, fun b e => ?_⟩
    subst e
    obtain ⟨hinv, hl, i, a, hb, hle, hz⟩ := hg
    have hcap : h'.capacity b = bs i := (hinv.bounds (i := i) (a := a) hb).1
    have hsep := hinv.separate (i := i) (a := a) hb
    rw [hcap]
    refine ⟨hl, hle, ⟨hsep.page, hsep.headers, fun p' hne hp' => hsep.others p' hne ?_⟩, hz⟩
    show Function.update h'.live b (some size) p' ≠ none
    rw [update_of_ne hne]
    exact hp'
  · obtain ⟨h', hok, -⟩ := h0.sysFree hp
    exact ⟨h', hok⟩

def emptyHeap : Heap := ⟨blockDescInit fun _ => ⟨0, 0, []⟩, fun _ => ⟨none, 0, 0⟩, fun _ => 0, 0x1000000, [], fun _ => none⟩

/-- A call of `sys_malloc` with this size, or of `sys_free` with this pointer; the first arena gets
a page, and nothing else needs one. -/
def heapCall (h : Heap) : Nat ⊕ Nat → Option Heap
  | .inl size =>
    if 0 < size ∧ size ≤ 1024 then
      (h.sysMalloc size (if h.pages = [] then some 0xc0100000 else none)).toOption.map fun r => r.1.mark r.2 size
    else none
  | .inr p => if h.live p ≠ none then (h.sysFree p).toOption.map (·.unmark p) else none

theorem heapCall_step (h : Heap) (c : Nat ⊕ Nat) (h' : Heap) (hc : heapCall h c = some h') : HeapStep h h' := by
  cases c with
  | inl size =>
    rw [heapCall] at hc
    split at hc
    · next hs =>
      obtain ⟨⟨h1, p⟩, hr, rfl⟩ := exists_of_map hc
      refine .malloc size _ hs.1 hs.2 (fun a ha => ?_) hr
      split at ha
      · next hp =>
        cases ha
        exact ⟨by decide, by decide, by decide, by simp [hp]⟩
      · cases ha
    · cases hc
  | inr p =>
    rw [heapCall] at hc
    split at hc
    · next hl =>
      obtain ⟨h1, hr, rfl⟩ := exists_of_map hc
      exact .free p hl hr
    · cases hc

/-- Three blocks are taken, and the first is given back. -/
def usedHeap : Heap := ([.inl 1000, .inl 600, .inl 1024, .inr 0xc010000c].foldlM heapCall emptyHeap).getD emptyHeap

theorem heap_safe_reused : ∃ h', usedHeap.sysMalloc 1000 none = .ok (h', some 0xc010000c) ∧
    h'.Separate 0xc010000c ∧ usedHeap.live 0xc010040c = some 600 ∧ ∀ j < h'.capacity 0xc010000c, h'.mem (0xc010000c + j) = 0 := by
  have h0 : Reach HeapStep Init emptyHeap := .refl ⟨⟨_, rfl⟩, rfl, fun _ => rfl⟩
  have h1 : Reach HeapStep Init usedHeap := Reach.played heapCall_step _ emptyHeap h0 (by decide +kernel)
  obtain ⟨h', p, hok, hp⟩ := (heap_safe h1).2.2.2.1 1000 none (by decide) (by decide) nofun
  obtain ⟨⟨h2, q⟩, hr, hq⟩ : ∃ r, usedHeap.sysMalloc 1000 none = .ok r ∧ (r.2 == some 0xc010000c) = true :=
    exists_of_any (by decide +kernel)
  rw [hok] at hr
  cases hr
  cases beq_iff_eq.mp hq
  exact ⟨h', hok, (hp _ rfl).2.2.1, by decide +kernel, (hp _ rfl).2.2.2⟩

end OperateSystem
