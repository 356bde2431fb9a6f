import OperateSystem.HeapSound
import OperateSystem.Transition

/-!
# The heaps of user processes

`sys_malloc` and `sys_free` as user processes call them. The descriptors of a
process lie in its PCB, in kernel memory, which every process sees; its arenas
lie in its own pages. `sys_fork` copies the pages and initialises the child's
descriptors, but the header of a copied arena still points to the descriptor it
was made for.

Descriptor `k` of the process with PCB `p` has index `7 * p + k`.
-/

namespace OperateSystem

open Function

structure Space where
  arena : Nat → Arena
  mem : Mem
  pages : List Nat

structure UserHeaps where
  descs : Nat → MemBlockDesc
  space : Nat → Space
  poolSize : Nat

def InPcb (p j : Nat) : Prop := descCnt * p ≤ j ∧ j < descCnt * p + descCnt

instance (p j : Nat) : Decidable (InPcb p j) := inferInstanceAs (Decidable (_ ∧ _))

namespace UserHeaps

def heap (s : UserHeaps) (p : Nat) : Heap :=
  ⟨s.descs, (s.space p).arena, (s.space p).mem, s.poolSize, (s.space p).pages, fun _ => none⟩

def put (s : UserHeaps) (p : Nat) (h : Heap) : UserHeaps :=
  { s with descs := h.descs, space := Function.update s.space p ⟨h.arena, h.mem, h.pages⟩ }

def sysMalloc (s : UserHeaps) (p size : Nat) (page : Option Nat) : Exec (UserHeaps × Option Nat) := do
  let (h, ret) ← (s.heap p).mallocFrom (descCnt * p) size page
  return (s.put p h, ret)

def sysFree (s : UserHeaps) (p ptr : Nat) : Exec UserHeaps := do
  assert .debug (ptr ≠ 0) "ptr != NULL"
  let h ← (s.heap p).freeFrom ptr
  return s.put p h

/-- `block_desc_init` in `copy_pcb_vaddrbitmap_stack0` and the copy of the pages
in `copy_body_stack3`. -/
def sysFork (s : UserHeaps) (p child : Nat) : UserHeaps :=
  { s with
    descs := fun j => if InPcb child j then blockDescInit (fun _ => s.descs j) (j - descCnt * child) else s.descs j
    space := Function.update s.space child (s.space p) }

def Same (r : Nat) (s s' : UserHeaps) : Prop := (∀ j, InPcb r j → s'.descs j = s.descs j) ∧ s'.space r = s.space r

end UserHeaps

/-! ## Runs -/

inductive UserHeapOp where
  | sysMalloc (size : Nat) (page : Option Nat)
  | sysFree (ptr : Nat)

inductive UserHeapStep (q : Nat) : UserHeapOp → UserHeaps → UserHeaps → Prop
  | sysMalloc {s s' : UserHeaps} {size : Nat} {page ret : Option Nat} (h : s.sysMalloc q size page = .ok (s', ret)) :
    UserHeapStep q (.sysMalloc size page) s s'
  | sysFree {s s' : UserHeaps} {ptr : Nat} (h : s.sysFree q ptr = .ok s') : UserHeapStep q (.sysFree ptr) s s'

/-- The arena is one of whole pages, or its descriptor lies in the process's PCB. -/
def UserHeapOp.Own (q : Nat) (s : UserHeaps) : UserHeapOp → Prop
  | .sysMalloc _ _ => True
  | .sysFree ptr => ∀ j, ((s.space q).arena (block2arena ptr)).desc = some j → InPcb q j

/-- The block counts that `block_desc_init` sets: every arena has several blocks. -/
def UserHeaps.Sized (s : UserHeaps) : Prop := ∀ j, 1 < (s.descs j).blocksPerArena

/-! ## What the calls touch -/

namespace Heap

variable {h h' : Heap} {i j a b : Nat}

theorem setFree_of_ne (h : Heap) (l : List Nat) (hj : j ≠ i) : (h.setFree i l).descs j = h.descs j :=
  update_of_ne hj ..

theorem setFree_perArena (h : Heap) (l : List Nat) :
    ((h.setFree i l).descs j).blocksPerArena = (h.descs j).blocksPerArena := by
  unfold setFree
  by_cases hj : j = i
  · subst hj; simp
  · simp [hj]

structure Touches (i : Nat) (h h' : Heap) : Prop where
  others : ∀ j, j ≠ i → h'.descs j = h.descs j
  perArena : ∀ j, (h'.descs j).blocksPerArena = (h.descs j).blocksPerArena

theorem Touches.refl (i : Nat) (h : Heap) : Touches i h h := ⟨fun _ _ => rfl, fun _ => rfl⟩

theorem Touches.trans {h1 : Heap} (h12 : Touches i h h1) (h23 : Touches i h1 h') : Touches i h h' :=
  ⟨fun j hj => (h23.others j hj).trans (h12.others j hj), fun j => (h23.perArena j).trans (h12.perArena j)⟩

theorem touches_setFree (h : Heap) (i : Nat) (l : List Nat) : Touches i h (h.setFree i l) :=
  ⟨fun _ hj => setFree_of_ne h l hj, fun _ => setFree_perArena h l⟩

theorem addBlocks_touches : ∀ (n k : Nat) (h h' : Heap), addBlocks i a n k h = .ok h' → Touches i h h'
  | 0, _, h, _, hr => by cases hr; exact .refl i h
  | n + 1, k, h, h', hr => by
    simp only [addBlocks, bind_ok] at hr
    obtain ⟨_, _, hr⟩ := hr
    exact (touches_setFree h i _).trans (addBlocks_touches n (k + 1) _ h' hr)

theorem removeBlocks_touches : ∀ (n k : Nat) (h h' : Heap), removeBlocks i a n k h = .ok h' →
    Touches i h h' ∧ (h'.descs i).freeList.length + n = (h.descs i).freeList.length
  | 0, _, h, _, hr => by cases hr; exact ⟨.refl i h, rfl⟩
  | n + 1, k, h, h', hr => by
    simp only [removeBlocks, bind_ok, assert_debug_ok] at hr
    obtain ⟨_, hmem, hr⟩ := hr
    obtain ⟨ht, hlen⟩ := removeBlocks_touches n (k + 1) _ h' hr
    refine ⟨(touches_setFree h i _).trans ht, ?_⟩
    have hpos := List.length_pos_of_mem hmem
    simp only [setFree, update_self] at hlen
    rw [List.length_erase_of_mem hmem] at hlen
    omega

theorem takeBlock_touches {ret : Option Nat} (hr : h.takeBlock i = .ok (h', ret)) : Touches i h h' := by
  unfold takeBlock at hr
  split at hr
  · cases hr
  · cases hr
    have ht := touches_setFree h i ‹_›
    exact ⟨ht.others, ht.perArena⟩

theorem mallocBlock_touches {page ret : Option Nat} (hr : h.mallocBlock i page = .ok (h', ret)) : Touches i h h' := by
  unfold mallocBlock at hr
  split at hr
  · split at hr
    · cases hr; exact .refl i h
    · simp only [newArena, bind_ok] at hr
      obtain ⟨h1, hadd, hr⟩ := hr
      refine Touches.trans ?_ (takeBlock_touches hr)
      have ht := addBlocks_touches _ _ _ _ hadd
      exact ⟨ht.others, ht.perArena⟩
  · exact takeBlock_touches hr

/-- `sys_free` of a block changes the free list that its arena points to, unless
all blocks of the arena are free and there is only one. -/
theorem freeBlock_touches (hr : h.freeBlock i a b = .ok h') : Touches i h h' ∧
    (1 < (h.descs i).blocksPerArena → (h'.descs i).freeList.length ≠ (h.descs i).freeList.length) := by
  have happ := touches_setFree h i ((h.descs i).freeList ++ [b])
  have hlen : ((h.setFree i ((h.descs i).freeList ++ [b])).descs i).freeList.length =
      (h.descs i).freeList.length + 1 := by
    simp [setFree]
  unfold freeBlock at hr
  simp only at hr
  split at hr
  · simp only [bind_ok, pure_ok, Except.ok.injEq] at hr
    obtain ⟨h1, hrem, rfl⟩ := hr
    obtain ⟨ht, hl⟩ := removeBlocks_touches _ _ _ _ hrem
    have hn := happ.perArena i
    refine ⟨happ.trans ⟨ht.others, ht.perArena⟩, fun hs => ?_⟩
    simp only [setArena, mfreePage] at hl hn ⊢
    rw [hn] at hl
    omega
  · cases hr
    exact ⟨⟨happ.others, happ.perArena⟩, fun _ => by simp only [setArena]; omega⟩

theorem findDesc_ge (h : Heap) (size : Nat) : ∀ n i, i ≤ h.findDesc size n i
  | 0, _ => le_rfl
  | n + 1, i => by
    unfold findDesc
    split
    · exact le_rfl
    · exact Nat.le_of_succ_le (findDesc_ge h size n (i + 1))

end Heap

namespace UserHeaps

variable {s s' : UserHeaps} {q r : Nat}

theorem InPcb.eq {p j : Nat} (h : InPcb q j) (h' : InPcb p j) : q = p := by
  unfold InPcb descCnt at *
  omega

theorem same_put {h : Heap} {i : Nat} (ht : Heap.Touches i (s.heap q) h) (hi : InPcb q i) (hr : r ≠ q) :
    Same r s (s.put q h) := by
  refine ⟨fun j hj => ht.others j fun e => hr (InPcb.eq hj (e ▸ hi)), ?_⟩
  exact update_of_ne hr ..

theorem same_put_of_descs {h : Heap} (hd : h.descs = s.descs) (hr : r ≠ q) : Same r s (s.put q h) :=
  ⟨fun j _ => congrFun hd j, update_of_ne hr ..⟩

theorem sysMalloc_same {size : Nat} {page ret : Option Nat} (h : s.sysMalloc q size page = .ok (s', ret)) :
    (∀ r, r ≠ q → Same r s s') ∧ ∀ j, (s'.descs j).blocksPerArena = (s.descs j).blocksPerArena := by
  simp only [sysMalloc, bind_ok, Prod.exists, pure_ok, Except.ok.injEq, Prod.mk.injEq] at h
  obtain ⟨h1, _, hm, rfl, -⟩ := h
  unfold Heap.mallocFrom at hm
  split at hm
  · cases hm
    exact ⟨fun r hr => same_put_of_descs rfl hr, fun _ => rfl⟩
  split at hm
  · have hd : h1.descs = s.descs := by
      have h2 := congrArg (fun x : Exec (Heap × Option Nat) => x.map fun y => y.1.descs) hm
      unfold Heap.mallocPages at h2
      split at h2 <;> · simp only [pure_ok, Except.map, Except.ok.injEq] at h2; exact h2.symm
    exact ⟨fun r hr => same_put_of_descs hd hr, fun j => by rw [put, hd]⟩
  · simp only [bind_ok, inBounds_ok] at hm
    obtain ⟨_, hlt, hm⟩ := hm
    have ht := Heap.mallocBlock_touches hm
    have hi : InPcb q ((s.heap q).findDesc size descCnt (descCnt * q)) := ⟨Heap.findDesc_ge _ _ _ _, hlt⟩
    exact ⟨fun r hr => same_put ht hi hr, ht.perArena⟩

theorem sysFree_same {ptr : Nat} (h : s.sysFree q ptr = .ok s') :
    (UserHeapOp.Own q s (.sysFree ptr) → ∀ r, r ≠ q → Same r s s') ∧
      (s.Sized → (∀ r, r ≠ q → Same r s s') → UserHeapOp.Own q s (.sysFree ptr)) ∧
      ∀ j, (s'.descs j).blocksPerArena = (s.descs j).blocksPerArena := by
  simp only [sysFree, bind_ok, pure_ok, Except.ok.injEq] at h
  obtain ⟨_, _, h1, hf, rfl⟩ := h
  simp only [Heap.freeFrom, bind_ok] at hf
  obtain ⟨_, _, hf⟩ := hf
  cases hd : ((s.heap q).arena (block2arena ptr)).desc with
  | none =>
    rw [hd] at hf
    simp only at hf
    split at hf
    · cases hf
      refine ⟨fun _ r hr => same_put_of_descs rfl hr, fun _ _ j hj => ?_, fun _ => rfl⟩
      have hn : ((s.space q).arena (block2arena ptr)).desc = none := hd
      rw [hn] at hj
      cases hj
    · cases hf
  | some i =>
    rw [hd] at hf
    obtain ⟨ht, hlen⟩ := Heap.freeBlock_touches hf
    refine ⟨fun hown r hr => same_put ht (hown i hd) hr, fun hs hall j hj => ?_, ht.perArena⟩
    have hji := hd.symm.trans hj
    cases hji
    -- the process whose PCB holds the descriptor
    have hin : InPcb (i / descCnt) i := by unfold InPcb descCnt; omega
    by_contra hne
    have hq : i / descCnt ≠ q := fun e => hne (e ▸ hin)
    exact hlen (hs i) (congrArg (fun d => d.freeList.length) ((hall _ hq).1 i hin))

theorem step_same {op : UserHeapOp} (hst : UserHeapStep q op s s') :
    (op.Own q s → ∀ r, r ≠ q → Same r s s') ∧ (s.Sized → (∀ r, r ≠ q → Same r s s') → op.Own q s) ∧
      (s.Sized → s'.Sized) := by
  cases hst with
  | sysMalloc h =>
    obtain ⟨hsa, hp⟩ := sysMalloc_same h
    exact ⟨fun _ => hsa, fun _ _ => trivial, fun hs j => by rw [hp]; exact hs j⟩
  | sysFree h =>
    obtain ⟨hown, hc, hp⟩ := sysFree_same h
    exact ⟨hown, hc, fun hs j => by rw [hp]; exact hs j⟩

theorem Same.symm (h : Same r s s') : Same r s' s := ⟨fun j hj => (h.1 j hj).symm, h.2.symm⟩

theorem Same.trans {t : UserHeaps} (h1 : Same r s t) (h2 : Same r t s') : Same r s s' :=
  ⟨fun j hj => (h2.1 j hj).trans (h1.1 j hj), h2.2.trans h1.2⟩

theorem nb_gt {k : Nat} (hk : k < descCnt) : 1 < nb k := by
  unfold descCnt at hk
  interval_cases k <;> decide

theorem Sized.fork (hs : s.Sized) (p child : Nat) : (s.sysFork p child).Sized := by
  intro j
  simp only [sysFork]
  split
  · rename_i hj
    have hk : j - descCnt * child < descCnt := by unfold InPcb at hj; omega
    rw [Heap.blockDescInit_eq _ hk]
    exact nb_gt hk
  · exact hs j

end UserHeaps

/-- **When heaps stay apart after a fork**: a process frees only blocks of its own arenas. -/
theorem heaps_apart_iff (s0 s : UserHeaps) (p child q : Nat)
    (h : Reach (fun s s' => ∃ op : UserHeapOp, op.Own q s ∧ UserHeapStep q op s s') (· = s0.sysFork p child) s) :
    (∀ r, r ≠ q → (s0.sysFork p child).Same r s) ∧ (s0.Sized → ∀ (op : UserHeapOp) (s' : UserHeaps),
      UserHeapStep q op s s' → ((∀ r, r ≠ q → (s0.sysFork p child).Same r s') ↔ op.Own q s)) := by
  have hinv : (∀ r, r ≠ q → (s0.sysFork p child).Same r s) ∧ (s0.Sized → s.Sized) := by
    apply Reach.invariant _ _ h
    · rintro _ rfl
      exact ⟨fun r _ => ⟨fun _ _ => rfl, rfl⟩, fun hs => hs.fork p child⟩
    · rintro t t' ⟨hsa, hsi⟩ ⟨op, hown, hst⟩
      obtain ⟨hk, -, hs'⟩ := UserHeaps.step_same hst
      exact ⟨fun r hr => (hsa r hr).trans (hk hown r hr), fun hs => hs' (hsi hs)⟩
  obtain ⟨hsa, hsi⟩ := hinv
  refine ⟨hsa, fun hs op s' hst => ?_⟩
  obtain ⟨hk, hc, -⟩ := UserHeaps.step_same hst
  constructor
  · exact fun hall => hc (hsi hs) fun r hr => (hsa r hr).symm.trans (hall r hr)
  · exact fun hown r hr => (hsa r hr).trans (hk hown r hr)

def userStart : UserHeaps where
  descs j := blockDescInit (fun _ => ⟨0, 0, []⟩) (j % descCnt)
  space _ := ⟨fun _ => ⟨none, 0, 0⟩, fun _ => 0, []⟩
  poolSize := 0x1000000

def UserHeaps.after (r : Exec UserHeaps) : UserHeaps :=
  match r with
  | .ok s => s
  | .error _ => userStart

def userMalloced : UserHeaps := .after ((userStart.sysMalloc 1 1000 (some 0x8049000)).map Prod.fst)

def userForked : UserHeaps := userMalloced.sysFork 1 2

def userChild : UserHeaps := .after ((userForked.sysMalloc 2 1000 (some 0x804a000)).map Prod.fst)

theorem userChild_step : UserHeapStep 2 (.sysMalloc 1000 (some 0x804a000)) userForked userChild :=
  .sysMalloc (show userForked.sysMalloc 2 1000 (some 0x804a000) = .ok (userChild, some 0x804a00c) from rfl)

theorem heaps_apart_malloc : userForked.Same 1 userChild ∧ (userChild.descs 20).freeList = [0x804a40c, 0x804a80c] := by
  refine ⟨(heaps_apart_iff userMalloced userChild 1 2 2 ?_).1 1 (by decide), by decide⟩
  have h0 : Reach (fun s s' => ∃ op : UserHeapOp, op.Own 2 s ∧ UserHeapStep 2 op s s') (· = userMalloced.sysFork 1 2)
      userForked := Reach.refl rfl
  exact h0.tail ⟨.sysMalloc 1000 (some 0x804a000), trivial, userChild_step⟩

def userFreed : UserHeaps := .after (userForked.sysFree 2 0x804900c)

/-- With this block all blocks of the arena are free, and the parent's two free
blocks are taken out of its free list. -/
theorem child_free_changes_parent :
    userStart.sysMalloc 1 1000 (some 0x8049000) = .ok (userMalloced, some 0x804900c) ∧
      UserHeapStep 2 (.sysFree 0x804900c) userForked userFreed ∧
      (userFreed.descs 13).freeList = [] ∧ ¬ userForked.Same 1 userFreed := by
  have hl : (userFreed.descs 13).freeList = [] := by decide
  refine ⟨rfl, .sysFree rfl, hl, fun h => ?_⟩
  have hold : (userForked.descs 13).freeList = [0x804940c, 0x804980c] := by decide
  rw [h.1 13 (by decide), hold] at hl
  exact absurd hl (by decide)

end OperateSystem
