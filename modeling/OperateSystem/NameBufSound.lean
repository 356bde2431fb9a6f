import OperateSystem.DirSearch
import OperateSystem.FsRun
import OperateSystem.NameBuf

/-!
# When a path's names fit

A call of `path_parse` fits if the name it cuts off has at most 15 characters
and the array was cleared before. `path_depth_cnt` does not clear it for the
first call, and nothing bounds the length of a name.
-/

namespace OperateSystem

open Function List

open Traced (parse lift)
variable {p x : List UInt8}

/-! ## What a call stores -/

def storedName (x : List UInt8) (name : Mem) : Mem := fun j => x.getD j (name j)

theorem storeName_eq (p : List UInt8) : ∀ (k : Nat) (name : Mem), k ≤ 16 → storeName p k name =
    if k + (p.takeWhile (· ≠ slash)).length ≤ 16 then
      .ok fun j => if j < k then name j else (p.takeWhile (· ≠ slash)).getD (j - k) (name j)
    else .error .outOfBounds := by
  induction p with
  | nil =>
    intro k name hk
    rw [if_pos (by simpa using hk)]
    simp [storeName]
  | cons c p ih =>
    intro k name hk
    rw [storeName]
    by_cases hc : c = slash
    · rw [if_pos hc, takeWhile_cons_of_neg (by simpa using hc), if_pos (by simpa using hk)]
      simp
    · rw [if_neg hc, takeWhile_cons_of_pos (by simpa using hc), length_cons]
      by_cases hlt : k < 16
      · rw [inBounds_of hlt, ok_bind, ih (k + 1) _ hlt, show k + 1 + (p.takeWhile (· ≠ slash)).length =
          k + ((p.takeWhile (· ≠ slash)).length + 1) by omega]
        refine if_congr Iff.rfl (congrArg Except.ok (funext fun j => ?_)) rfl
        rcases Nat.lt_trichotomy j k with hj | rfl | hj
        · rw [if_pos (by omega), if_pos hj, update_of_ne (by omega)]
        · rw [if_pos (by omega), if_neg (by omega), update_self, Nat.sub_self, getD_cons_zero]
        · rw [if_neg (by omega), if_neg (by omega), update_of_ne (by omega), show j - k = j - (k + 1) + 1 by omega,
            getD_cons_succ]
      · rw [if_neg (by omega)]
        rw [inBounds_not hlt]
        rfl

theorem pathParseInto_eq (pathname : List UInt8) (name : Mem) : pathParseInto pathname name =
    if (pathParse pathname).1.length ≤ 16 then .ok (storedName (pathParse pathname).1 name, (pathParse pathname).2)
    else .error .outOfBounds := by
  unfold pathParseInto
  dsimp only
  rw [storeName_eq _ 0 name (by decide), Nat.zero_add]
  show _ = if (List.takeWhile (· ≠ slash) (pathname.dropWhile (· = slash))).length ≤ 16 then _ else _
  split
  · rfl
  · rfl


theorem storedName_zero (h : 0 ∉ x) : storedName x (fun _ => 0) 0 = 0 ↔ x = [] := by
  cases x with
  | nil => simp [storedName]
  | cons c x => simpa [storedName] using fun e : c = 0 => h (by simp [e])

theorem storedName_nul (h : 0 ∉ x) (name : Mem) :
    (∃ j < 16, storedName x name j = 0) ↔ ∃ j < 16, x.length ≤ j ∧ name j = 0 := by
  constructor
  · rintro ⟨j, hj, hnul⟩
    unfold storedName at hnul
    rcases Nat.lt_or_ge j x.length with hlt | hge
    · rw [getD_eq_getElem _ _ hlt] at hnul
      exact absurd (hnul ▸ getElem_mem hlt) h
    · rw [getD_eq_default _ _ hge] at hnul
      exact ⟨j, hj, hge, hnul⟩
  · rintro ⟨j, hj, hge, hnul⟩
    refine ⟨j, hj, ?_⟩
    unfold storedName
    rw [getD_eq_default _ _ hge, hnul]

theorem cString_stored (h : 0 ∉ x) (hlen : x.length ≤ 15) : cString (storedName x fun _ => 0) = .ok x := by
  have hmap : (List.range 16).map (storedName x fun _ => 0) = x ++ List.replicate (16 - x.length) 0 := by
    rw [← DirEntry.ofFn_getD (by omega), ofFn_eq_map, ← map_coe_finRange_eq_range, map_map]
    rfl
  have hpos : ∀ c ∈ x, decide (c ≠ 0) = true := fun c hc => decide_eq_true fun e => h (e ▸ hc)
  obtain ⟨m, hm⟩ : ∃ m, 16 - x.length = m + 1 := ⟨15 - x.length, by omega⟩
  unfold cString
  rw [hmap, hm, replicate_succ, inBounds_of (by simp), ok_bind, takeWhile_append_of_pos hpos]
  simp

theorem cString_full (h : 0 ∉ x) (hlen : 15 < x.length) :
    cString (storedName x fun _ => 0) = .error .outOfBounds := by
  unfold cString
  rw [inBounds_not]
  · rfl
  · intro hm
    obtain ⟨j, hj, hnul⟩ := mem_map.mp hm
    obtain ⟨j', hj', hle, -⟩ := (storedName_nul h _).mp ⟨j, mem_range.mp hj, hnul⟩
    omega

/-! ## One call -/

theorem names_step (p : List UInt8) :
    names p = if (pathParse p).1 = [] then [] else (pathParse p).1 :: leftNames (pathParse p).2 := by
  obtain ⟨front, rest, -, hp, -, -, hr, -, -⟩ := pathParse_eq p
  have hle : rest.length ≤ p.length := by
    rw [hp, length_append]
    exact Nat.le_add_left _ _
  rw [names_eq_components, ← pathNames_eq (p.length + 1) p (Nat.le_succ _), pathNames_step]
  refine if_congr Iff.rfl rfl (congrArg _ ?_)
  unfold leftNames
  rw [hr]
  split
  · rfl
  · rw [Option.map_some, Option.map_some, Option.getD_some, Option.getD_some, names_eq_components, pathNames_eq _ _ hle]

theorem pathNames_length_le : ∀ (n : Nat) (p : List UInt8), (pathNames n p).length ≤ n
  | 0, _ => le_rfl
  | n + 1, p => by
    rw [pathNames_step]
    split
    · exact Nat.zero_le _
    · cases (pathParse p).2 with
      | none => simp
      | some rest => exact Nat.succ_le_succ (pathNames_length_le n rest)

theorem names_length_le (p : List UInt8) : (names p).length ≤ p.length := pathNames_length_le _ p

theorem pathParse_sub {c : UInt8} (h : c ∈ (pathParse p).1) : c ∈ p := by
  obtain ⟨front, rest, -, hp, -⟩ := pathParse_eq p
  rw [hp]
  simp [h]

namespace ParseCall

def component (c : ParseCall) : Option (List UInt8) := (names c.pathname).head?

theorem component_eq (c : ParseCall) :
    c.component = if (pathParse c.pathname).1 = [] then none else some (pathParse c.pathname).1 := by
  unfold component
  rw [names_step]
  split
  · rfl
  · rfl

theorem fits_iff {c : ParseCall} (hz : 0 ∉ c.pathname) :
    c.Fits ↔ ∃ j < 16, (c.component.getD []).length ≤ j ∧ c.name j = 0 := by
  have hn : c.component.getD [] = (pathParse c.pathname).1 := by
    rw [component_eq]
    split
    · rename_i h
      exact h.symm
    · rfl
  have hx : 0 ∉ (pathParse c.pathname).1 := fun h => hz (pathParse_sub h)
  unfold Fits
  rw [hn, ← storedName_nul hx, pathParseInto_eq]
  constructor
  · rintro ⟨name, rest, h, hnul⟩
    split at h
    · cases h
      exact hnul
    · cases h
  · intro hnul
    obtain ⟨j, hj, hle, -⟩ := (storedName_nul hx _).mp hnul
    rw [if_pos (by omega)]
    exact ⟨_, _, rfl, hnul⟩

theorem cleared_fits_iff {p : List UInt8} (hz : 0 ∉ p) :
    Fits ⟨p, fun _ => 0⟩ ↔ ∀ x ∈ component ⟨p, fun _ => 0⟩, x.length ≤ 15 := by
  rw [fits_iff hz]
  cases component ⟨p, fun _ => 0⟩ with
  | none => simpa using ⟨0, by decide⟩
  | some x =>
    simp only [Option.getD_some, and_true, Option.mem_def, Option.some.injEq, forall_eq']
    constructor
    · rintro ⟨j, hj, hle⟩
      omega
    · intro hle
      exact ⟨15, by decide, hle⟩

end ParseCall

def NulFree (sub : Option (List UInt8)) : Prop := ∀ p ∈ sub, 0 ∉ p

theorem parse_nil (h : names p = []) (name : Mem) : parse p name = ⟨[⟨p, name⟩], .ok (name, none)⟩ := by
  have hnil : (pathParse p).1 = [] := by
    by_contra hne
    rw [names_step, if_neg hne] at h
    cases h
  obtain ⟨front, rest, -, -, -, -, hr, -, hend⟩ := pathParse_eq p
  unfold parse
  rw [pathParseInto_eq, hr, hnil, if_pos (by decide), hend hnil, if_pos rfl]
  rfl

theorem parse_cons {xs : List (List UInt8)} (h : names p = x :: xs) (hz : 0 ∉ p) (name : Mem) :
    ∃ sub, parse p name = ⟨[⟨p, name⟩], if x.length ≤ 16 then .ok (storedName x name, sub) else .error .outOfBounds⟩ ∧
      leftNames sub = xs ∧ NulFree sub := by
  rw [names_step] at h
  split at h
  · cases h
  obtain ⟨rfl, rfl⟩ := List.cons.inj h
  refine ⟨(pathParse p).2, congrArg _ (pathParseInto_eq p name), rfl, fun rest hre hm => hz ?_⟩
  obtain ⟨front, rest', -, hp, -, -, hr, -, -⟩ := pathParse_eq p
  rw [hr] at hre
  split at hre
  · cases hre
  · cases hre
    rw [hp]
    exact mem_append_right _ hm

section
variable {sub : Option (List UInt8)} {x : List UInt8} {xs : List (List UInt8)}

theorem nextName_nil (h : leftNames sub = []) (hz : NulFree sub) :
    ∃ calls, nextName sub = ⟨calls, .ok (fun _ => 0, none)⟩ ∧ (∀ c ∈ calls, c.Fits) ∧
      calls.filterMap ParseCall.component = [] := by
  obtain _ | p := sub
  · exact ⟨[], rfl, by simp, rfl⟩
  have hp : names p = [] := h
  have hn : ParseCall.component ⟨p, fun _ => 0⟩ = none := by
    unfold ParseCall.component
    rw [hp]
    rfl
  refine ⟨_, parse_nil hp _, fun c hc => ?_, ?_⟩
  · rw [mem_singleton] at hc
    rw [hc, ParseCall.cleared_fits_iff (hz p rfl), hn]
    simp
  · rw [filterMap_cons_none hn]
    rfl

theorem nextName_cons (h : leftNames sub = x :: xs) (hz : NulFree sub) :
    ∃ c sub', nextName sub = ⟨[c], if x.length ≤ 16 then .ok (storedName x fun _ => 0, sub') else .error .outOfBounds⟩ ∧
      (c.Fits ↔ x.length ≤ 15) ∧ c.component = some x ∧ leftNames sub' = xs ∧ NulFree sub' := by
  obtain _ | p := sub
  · cases h
  have hp : names p = x :: xs := h
  have hs : ParseCall.component ⟨p, fun _ => 0⟩ = some x := by
    unfold ParseCall.component
    rw [hp]
    rfl
  obtain ⟨sub', hpa, hl, hz'⟩ := parse_cons hp (hz p rfl) fun _ => 0
  refine ⟨_, sub', hpa, ?_, hs, hl, hz'⟩
  rw [ParseCall.cleared_fits_iff (hz p rfl), hs]
  simp

theorem NulFree.left (h : NulFree sub) : ∀ y ∈ leftNames sub, y ≠ [] ∧ 0 ∉ y := by
  intro y hy
  cases sub with
  | none => cases hy
  | some p => exact ⟨(names_isName hy).1, fun hm => h p rfl (names_sub hy hm)⟩

end

/-! ## `path_depth_cnt` -/

theorem depthLoop_spec : ∀ (xs : List (List UInt8)) (n : Nat) (name : Mem) (sub : Option (List UInt8)) (depth : Nat),
    xs.length < n → name 0 ≠ 0 → leftNames sub = xs → NulFree sub →
    ((∀ c ∈ (depthLoop n name sub depth).calls, c.Fits) ↔ ∀ x ∈ xs, x.length ≤ 15) ∧
      (depthLoop n name sub depth).result =
        if ∀ x ∈ xs, x.length ≤ 16 then .ok (depth + 1 + xs.length) else .error .outOfBounds
  | _, 0, _, _, _, hn, _, _, _ => absurd hn (Nat.not_lt_zero _)
  | [], n + 1, name, sub, depth, hn, hna, hl, hz => by
    obtain ⟨calls, hnx, hf, -⟩ := nextName_nil hl hz
    have hend : depthLoop n (fun _ => 0) none (depth + 1) = pure (depth + 1) := by
      cases n with
      | zero => rfl
      | succ n => exact if_pos rfl
    rw [depthLoop, if_neg hna, hnx, Traced.ok_bind]
    dsimp only
    rw [hend]
    simpa using hf
  | x :: xs, n + 1, name, sub, depth, hn, hna, hl, hz => by
    obtain ⟨c, sub', hnx, hf, -, hl', hz'⟩ := nextName_cons hl hz
    obtain ⟨hne, hx⟩ := hz.left x (by rw [hl]; exact .head _)
    rw [depthLoop, if_neg hna, hnx]
    by_cases hlen : x.length ≤ 16
    · have hs : storedName x (fun _ => 0) 0 ≠ 0 := fun e => hne ((storedName_zero hx).mp e)
      obtain ⟨hc, hres⟩ := depthLoop_spec xs n (storedName x fun _ => 0) sub' (depth + 1)
        (Nat.lt_of_succ_lt_succ hn) hs hl' hz'
      rw [if_pos hlen, Traced.ok_bind]
      dsimp only
      rw [hres]
      constructor
      · rw [singleton_append, forall_mem_cons, forall_mem_cons, hf, hc]
      · simp only [forall_mem_cons, hlen, true_and, length_cons]
        congr 2
        omega
    · rw [if_neg hlen, Traced.error_bind]
      dsimp only
      rw [if_neg fun h => hlen (h x mem_cons_self)]
      simp only [mem_singleton, forall_eq, hf, forall_mem_cons, and_true]
      constructor
      · intro h
        omega
      · intro h
        exact h.1

theorem pathDepthCntInto_spec {pathname : List UInt8} (hz : 0 ∉ pathname) (old : Mem) :
    ((∀ c ∈ (pathDepthCntInto pathname old).calls, c.Fits) ↔ (∀ x ∈ names pathname, x.length ≤ 15) ∧
        ∃ j < 16, ((names pathname).headD []).length ≤ j ∧ old j = 0) ∧
      (pathDepthCntInto pathname old).result = pathDepthCnt pathname (old 0) := by
  have hf := ParseCall.fits_iff (c := ⟨pathname, old⟩) hz
  have hlen := names_length_le pathname
  unfold ParseCall.component at hf
  unfold pathDepthCntInto pathDepthCnt
  cases hxs : names pathname with
  | nil =>
    rw [hxs] at hf
    rw [parse_nil hxs, Traced.ok_bind]
    by_cases hold : old 0 = 0
    · have hend : depthLoop (pathname.length + 1) old none 0 = pure 0 := if_pos hold
      dsimp only
      rw [hend]
      simpa [hold, ok_bind, inBounds_of] using hf
    · obtain ⟨hc, hres⟩ := depthLoop_spec [] (pathname.length + 1) old none 0 (Nat.succ_pos _) hold rfl (by simp [NulFree])
      dsimp only
      rw [hres]
      constructor
      · rw [singleton_append, forall_mem_cons, hf, hc]
        simp
      · rw [inBounds_of (by simp), if_pos (by simp), ok_bind, if_pos rfl, if_neg hold]
        rfl
  | cons x xs =>
    rw [hxs] at hf hlen
    obtain ⟨hn, hsub⟩ : x ≠ [] ∧ 0 ∉ x := by
      have hx : x ∈ names pathname := by rw [hxs]; exact .head _
      exact ⟨(names_isName hx).1, fun hm => hz (names_sub hx hm)⟩
    obtain ⟨sub, hpa, hl, hz'⟩ := parse_cons hxs hz old
    rw [hpa]
    by_cases hx : x.length ≤ 16
    · have hs : storedName x old 0 ≠ 0 := by
        obtain ⟨c, x', rfl⟩ := exists_cons_of_ne_nil hn
        exact fun e => hsub (by rw [← show c = 0 from e]; exact .head _)
      obtain ⟨hc, hres⟩ := depthLoop_spec xs (pathname.length + 1) (storedName x old) sub 0
        (by rw [length_cons] at hlen; omega) hs hl hz'
      rw [if_pos hx, Traced.ok_bind]
      dsimp only
      rw [hres]
      constructor
      · rw [singleton_append, forall_mem_cons, hf, hc, forall_mem_cons]
        show (∃ j < 16, x.length ≤ j ∧ old j = 0) ∧ _ ↔ _ ∧ ∃ j < 16, x.length ≤ j ∧ old j = 0
        constructor
        · rintro ⟨⟨j, hj, hle, hnul⟩, hall⟩
          exact ⟨⟨by omega, hall⟩, j, hj, hle, hnul⟩
        · rintro ⟨⟨-, hall⟩, hnul⟩
          exact ⟨hnul, hall⟩
      · by_cases hall : ∀ y ∈ xs, y.length ≤ 16
        · have hall' : ∀ y ∈ x :: xs, y.length ≤ 16 := forall_mem_cons.mpr ⟨hx, hall⟩
          rw [if_pos hall, inBounds_of hall', ok_bind, if_neg (cons_ne_nil _ _), length_cons, Nat.zero_add,
            Nat.add_comm 1]
          rfl
        · rw [if_neg hall, inBounds_not fun h => hall (forall_mem_cons.mp h).2]
          rfl
    · rw [if_neg hx, Traced.error_bind, inBounds_not fun h => hx (h x mem_cons_self)]
      refine ⟨?_, rfl⟩
      dsimp only
      rw [forall_mem_singleton, hf]
      show (∃ j < 16, x.length ≤ j ∧ old j = 0) ↔ _
      constructor
      · rintro ⟨j, hj, hle, -⟩
        omega
      · rintro ⟨hall, -⟩
        have := hall x mem_cons_self
        omega

/-! ## `wash_path` -/

theorem washLoop_full {n : Nat} {new : List UInt8} {sub : Option (List UInt8)} (hn : 0 < n) (hx : 0 ∉ x)
    (hlen : 15 < x.length) :
    washLoop n new (storedName x fun _ => 0) sub = ⟨[], .error .outOfBounds⟩ := by
  obtain ⟨m, rfl⟩ := Nat.exists_eq_succ_of_ne_zero (Nat.ne_of_gt hn)
  have hne : storedName x (fun _ => 0) 0 ≠ 0 := fun e => by
    rw [(storedName_zero hx).mp e] at hlen
    cases hlen
  rw [washLoop, if_neg hne, cString_full hx hlen, Traced.lift_error_bind]

theorem washLoop_spec : ∀ (xs : List (List UInt8)) (x : List UInt8) (n : Nat) (new : List UInt8) (sub : Option (List UInt8)),
    xs.length < n → x ≠ [] → 0 ∉ x → x.length ≤ 15 → leftNames sub = xs → NulFree sub →
    ((∀ c ∈ (washLoop n new (storedName x fun _ => 0) sub).calls, c.Fits) ↔ ∀ y ∈ xs, y.length ≤ 15) ∧
      (washLoop n new (storedName x fun _ => 0) sub).result =
        if ∀ y ∈ xs, y.length < 16 then .ok ((x :: xs).foldl washStep new) else .error .outOfBounds
  | _, _, 0, _, _, hn, _, _, _, _, _ => absurd hn (Nat.not_lt_zero _)
  | [], x, n + 1, new, sub, hn, hne, hx, hlen, hl, hz => by
    obtain ⟨calls, hnx, hf, -⟩ := nextName_nil hl hz
    have hend : ∀ new, washLoop n new (fun _ => 0) none = pure new := by
      intro new
      cases n with
      | zero => rfl
      | succ n => exact if_pos rfl
    rw [washLoop, if_neg fun e => hne ((storedName_zero hx).mp e), cString_stored hx hlen, Traced.lift_ok_bind, hnx, Traced.ok_bind]
    dsimp only
    rw [hend]
    simpa using hf
  | y :: xs, x, n + 1, new, sub, hn, hne, hx, hlen, hl, hz => by
    obtain ⟨c, sub', hnx, hf, -, hl', hz'⟩ := nextName_cons hl hz
    obtain ⟨hyne, hy⟩ := hz.left y (by rw [hl]; exact .head _)
    rw [washLoop, if_neg fun e => hne ((storedName_zero hx).mp e), cString_stored hx hlen, Traced.lift_ok_bind, hnx]
    by_cases h15 : y.length ≤ 15
    · obtain ⟨hc, hres⟩ := washLoop_spec xs y n (washStep new x) sub' (Nat.lt_of_succ_lt_succ hn) hyne hy h15 hl' hz'
      rw [if_pos (by omega), Traced.ok_bind]
      dsimp only
      rw [hres, singleton_append, forall_mem_cons, hf, hc]
      constructor
      · rw [forall_mem_cons]
      · simp only [forall_mem_cons, Nat.lt_succ_of_le h15, true_and]
        rfl
    · have hnot : ¬ ∀ z ∈ y :: xs, z.length ≤ 15 := fun h => h15 (h y mem_cons_self)
      have hnot' : ¬ ∀ z ∈ y :: xs, z.length < 16 := fun h => hnot fun z hz => Nat.le_of_lt_succ (h z hz)
      rw [if_neg hnot']
      by_cases h16 : y.length ≤ 16
      · rw [if_pos h16, Traced.ok_bind]
        dsimp only
        rw [washLoop_full (by rw [length_cons] at hn; omega) hy (by omega)]
        simp [hf, h15]
      · rw [if_neg h16, Traced.error_bind]
        simp [hf, h15]

theorem washPathInto_spec {b : Build} {path : List UInt8} (hh : path.head? = some slash) (hz : 0 ∉ path) :
    ((∀ c ∈ (washPathInto b path).calls, c.Fits) ↔ ∀ x ∈ names path, x.length ≤ 15) ∧
      (washPathInto b path).result = washPath b path := by
  unfold washPathInto washPath
  rw [assert_of _ hh, Traced.lift_ok_bind, ok_bind]
  have hsub : NulFree (some path) := fun p hp => by
    cases hp
    exact hz
  cases hxs : names path with
  | nil =>
    obtain ⟨calls, hn, hf, -⟩ := nextName_nil (show leftNames (some path) = [] from hxs) hsub
    have hpa : parse path (fun _ => 0) = _ := hn
    rw [hpa, Traced.ok_bind]
    dsimp only
    rw [if_pos rfl, inBounds_of (by simp), ok_bind, if_pos rfl]
    simpa using hf
  | cons x xs =>
    obtain ⟨c, sub, hn, hf, -, hl, hz'⟩ := nextName_cons (show leftNames (some path) = x :: xs from hxs) hsub
    have hpa : parse path (fun _ => 0) = _ := hn
    obtain ⟨hne, hx⟩ := hsub.left x (by show x ∈ names path; rw [hxs]; exact .head _)
    have hlen := names_length_le path
    rw [hxs, length_cons] at hlen
    have hs : storedName x (fun _ => 0) 0 ≠ 0 := fun e => hne ((storedName_zero hx).mp e)
    rw [hpa, forall_mem_cons]
    by_cases h15 : x.length ≤ 15
    · obtain ⟨hc, hres⟩ := washLoop_spec xs x (path.length + 1) [slash] sub (by omega) hne hx h15 hl hz'
      rw [if_pos (by omega), Traced.ok_bind]
      dsimp only
      rw [if_neg hs, hres, singleton_append, forall_mem_cons, hf, hc]
      refine ⟨Iff.rfl, ?_⟩
      by_cases hall : ∀ y ∈ xs, y.length < 16
      · have hall' : ∀ y ∈ x :: xs, y.length < 16 := forall_mem_cons.mpr ⟨Nat.lt_succ_of_le h15, hall⟩
        rw [if_pos hall, inBounds_of hall', ok_bind, if_neg (cons_ne_nil _ _)]
        rfl
      · rw [if_neg hall, inBounds_not fun h => hall (forall_mem_cons.mp h).2]
        rfl
    · rw [inBounds_not fun h => h15 (Nat.le_of_lt_succ (h x mem_cons_self))]
      by_cases h16 : x.length ≤ 16
      · rw [if_pos h16, Traced.ok_bind]
        dsimp only
        rw [if_neg hs, washLoop_full (Nat.succ_pos _) hx (by omega)]
        simp [hf, h15, error_bind]
      · rw [if_neg h16, Traced.error_bind]
        simp [hf, h15, error_bind]

/-! ## `search_file` -/

section
variable {part : Partition} {b : Build} {mem : Nat → Bool}

structure Parses (calls : List ParseCall) (xs : List (List UInt8)) : Prop where
  parsed : calls.filterMap ParseCall.component <+: xs
  fits : (∀ c ∈ calls, c.Fits) ↔ ∀ x ∈ calls.filterMap ParseCall.component, x.length ≤ 15

theorem Parses.empty (xs : List (List UInt8)) : Parses [] xs := ⟨List.nil_prefix, by simp⟩

theorem Parses.after {α β : Type} {x : Exec α} {f : α → Traced β} {xs : List (List UInt8)}
    (h : ∀ a, Parses (f a).calls xs) : Parses (lift x >>= f).calls xs := by
  cases x with
  | ok a => exact h a
  | error e => exact .empty xs

theorem Parses.next {α : Type} {sub : Option (List UInt8)} (hz : NulFree sub) {f : Mem × Option (List UInt8) → Traced α}
    (h : ∀ name sub', NulFree sub' → Parses (f (name, sub')).calls (leftNames sub')) :
    Parses (nextName sub >>= f).calls (leftNames sub) := by
  cases hxs : leftNames sub with
  | nil =>
    obtain ⟨calls, hn, hfi, hno⟩ := nextName_nil hxs hz
    obtain ⟨hp, hf⟩ := h (fun _ => 0) none (by simp [NulFree])
    rw [hn, Traced.ok_bind]
    constructor
    · rw [filterMap_append, hno, nil_append]
      exact hp
    · rw [filterMap_append, hno, nil_append, forall_mem_append, hf]
      exact and_iff_right hfi
  | cons x xs =>
    obtain ⟨c, sub', hn, hfi, hc, hl, hz'⟩ := nextName_cons hxs hz
    rw [hn]
    split
    · obtain ⟨hp, hf⟩ := h (storedName x fun _ => 0) sub' hz'
      rw [Traced.ok_bind]
      constructor
      · rw [singleton_append, filterMap_cons_some hc, cons_prefix_cons, ← hl]
        exact ⟨rfl, hp⟩
      · rw [singleton_append, filterMap_cons_some hc, forall_mem_cons, forall_mem_cons, hf, hfi]
    · rw [Traced.error_bind]
      constructor
      · rw [filterMap_cons_some hc, cons_prefix_cons]
        exact ⟨rfl, nil_prefix⟩
      · simp [filterMap_cons_some hc, hfi]

theorem searchLoopInto_parses : ∀ (n : Nat) (name : Mem) (sub : Option (List UInt8)) (st : Searching part), NulFree sub →
    Parses (searchLoopInto b mem n name sub st).calls (leftNames sub)
  | 0, _, _, _, _ => .empty _
  | n + 1, name, sub, st, hz => by
    rw [searchLoopInto]
    split
    · exact .empty _
    -- Only a lookup that succeeds is followed by a call.
    refine .after fun _ => ?_
    refine .after fun _ => ?_
    refine .after fun _ => ?_
    refine .after fun r => ?_
    obtain _ | e := r
    · exact .empty _
    refine Parses.next hz fun name' sub' hz' => ?_
    dsimp only
    split
    · refine .after fun _ => ?_
      refine .after fun _ => ?_
      exact searchLoopInto_parses n _ _ _ hz'
    · split
      · exact .empty _
      · exact searchLoopInto_parses n _ _ _ hz'

theorem searchFileInto_parses (s : Fs part) {pathname : List UInt8} (hz : 0 ∉ pathname) (old : UInt32) :
    Parses (searchFileInto b s pathname mem old).calls (names pathname) := by
  unfold searchFileInto
  split
  · exact .empty _
  · refine .after fun _ => ?_
    refine @Parses.next _ (some pathname) (fun p hp => by cases hp; exact hz) _ fun name sub hz' => ?_
    exact searchLoopInto_parses _ _ _ _ hz'

def AtNames (name : Mem) (sub : Option (List UInt8)) : List (List UInt8) → Prop
  | [] => name = fun _ => 0
  | x :: xs => name = storedName x (fun _ => 0) ∧ (x ≠ [] ∧ 0 ∉ x ∧ x.length ≤ 15) ∧ leftNames sub = xs ∧ NulFree sub

theorem nextName_result {α : Type} {sub : Option (List UInt8)} {xs : List (List UInt8)} {f : Mem × Option (List UInt8) → Traced α}
    {r : Exec α} (hl : leftNames sub = xs) (hz : NulFree sub) (h16 : ∀ y ∈ xs, y.length ≠ 16)
    (h : ∀ name sub', AtNames name sub' xs → (f (name, sub')).result = r) :
    (nextName sub >>= f).result = inBounds (∀ next ∈ xs.head?, next.length < 16) >>= fun _ => r := by
  cases xs with
  | nil =>
    obtain ⟨calls, hn, -, -⟩ := nextName_nil hl hz
    rw [hn, Traced.ok_bind, inBounds_of (by simp), ok_bind]
    exact h _ _ rfl
  | cons y ys =>
    obtain ⟨c, sub', hn, -, -, hl', hz'⟩ := nextName_cons hl hz
    obtain ⟨hne, hy⟩ := hz.left y (by rw [hl]; exact .head _)
    have hy16 := h16 y mem_cons_self
    rw [hn]
    by_cases hlen : y.length ≤ 16
    · rw [if_pos hlen, Traced.ok_bind, inBounds_of (by simp; omega), ok_bind]
      exact h _ _ ⟨rfl, ⟨hne, hy, by omega⟩, hl', hz'⟩
    · rw [if_neg hlen, Traced.error_bind, inBounds_not (by simp; omega)]
      rfl

theorem searchLoopInto_eq : ∀ (n : Nat) (xs : List (List UInt8)) (name : Mem) (sub : Option (List UInt8)) (st : Searching part),
    xs.length ≤ n → AtNames name sub xs → (∀ y ∈ xs, y.length ≠ 16) →
    (searchLoopInto b mem n name sub st).result = searchLoop b mem xs st
  | 0, [], _, _, _, _, _, _ => rfl
  | n + 1, [], _, _, _, _, hat, _ => by
    rw [searchLoopInto, if_pos (by rw [hat])]
    rfl
  | n + 1, x :: xs, name, sub, st, hn, ⟨hna, ⟨hne, hx, hlen⟩, hl, hz⟩, h16 => by
    have ih := fun name sub st hat => searchLoopInto_eq n xs name sub st (Nat.le_of_succ_le_succ hn) hat
      fun y hy => h16 y (mem_cons_of_mem x hy)
    rw [searchLoopInto, hna, if_neg fun e => hne ((storedName_zero hx).mp e), cString_stored hx hlen, searchLoop]
    simp only [Traced.result_bind, Traced.result_lift, ok_bind, hl]
    refine congrArg _ (funext fun _ => congrArg _ (funext fun c => congrArg _ (funext fun r => ?_)))
    obtain _ | e := r
    · rfl
    refine nextName_result hl hz (fun y hy => h16 y (mem_cons_of_mem x hy)) fun name sub' hat => ?_
    dsimp only
    split
    · simp only [Traced.result_bind, Traced.result_lift]
      exact congrArg _ (funext fun _ => congrArg _ (funext fun _ => ih _ _ _ hat))
    · split
      · rfl
      · exact ih _ _ _ hat

/-- **`search_file` on the array**, but for names that fill it. -/
theorem searchFileInto_eq (s : Fs part) {pathname : List UInt8} (hz : 0 ∉ pathname) (h16 : ∀ x ∈ names pathname, x.length ≠ 16)
    (old : UInt32) : (searchFileInto b s pathname mem old).result = searchFile b s pathname mem old := by
  have hsub : NulFree (some pathname) := fun p hp => by
    cases hp
    exact hz
  unfold searchFileInto searchFile
  split
  · rfl
  · simp only [Traced.result_bind, Traced.result_lift]
    refine congrArg _ (funext fun _ => ?_)
    rw [← Traced.result_bind]
    refine @nextName_result _ (some pathname) _ _ _ rfl hsub h16 fun name sub hat => ?_
    exact searchLoopInto_eq _ _ name sub _ (Nat.le_succ_of_le (names_length_le _)) hat h16

theorem searchFileInto_eq_home : (searchFileInto .debug homeFs [47, 97] homeEnv.lookups 0).result =
    searchFile .debug homeFs [47, 97] homeEnv.lookups 0 :=
  searchFileInto_eq homeFs (by decide) (by decide) 0

end

/-! ## All names of a path -/

/-- **The calls of `path_parse` fit iff** the names have at most 15 characters. `search_file`
parses only the names it comes to. -/
theorem name_buffer_fits_iff {pathname : List UInt8} (hhead : pathname.head? = some slash) (hz : 0 ∉ pathname) :
    (∀ old, (∀ c ∈ (pathDepthCntInto pathname old).calls, c.Fits) ↔ (∀ x ∈ components pathname, x.length ≤ 15) ∧
        ∃ j < 16, ((components pathname).headD []).length ≤ j ∧ old j = 0) ∧
      (∀ b, (∀ c ∈ (washPathInto b pathname).calls, c.Fits) ↔ ∀ x ∈ components pathname, x.length ≤ 15) ∧
      ∀ (part : Partition) b (s : Fs part) mem old,
        let calls := (searchFileInto b s pathname mem old).calls
        calls.filterMap ParseCall.component <+: components pathname ∧
          ((∀ c ∈ calls, c.Fits) ↔ ∀ x ∈ calls.filterMap ParseCall.component, x.length ≤ 15) := by
  rw [← names_eq_components]
  refine ⟨fun old => (pathDepthCntInto_spec hz old).1, fun b => (washPathInto_spec hhead hz).1, fun part b s mem old => ?_⟩
  obtain ⟨hpa, hf⟩ := @searchFileInto_parses part b mem s pathname hz old
  exact ⟨hpa, hf⟩

theorem name_buffer_fits_fifteen :
    (∀ c ∈ (pathDepthCntInto (slash :: List.replicate 15 97) fun _ => 0).calls, c.Fits) ∧
      ∀ c ∈ (washPathInto .debug (slash :: List.replicate 15 97)).calls, c.Fits := by
  obtain ⟨hde, hw, -⟩ := @name_buffer_fits_iff (slash :: List.replicate 15 97) rfl (by decide)
  exact ⟨(hde _).mpr ⟨by decide +kernel, 15, by decide +kernel⟩, (hw _).mpr (by decide +kernel)⟩

theorem parse_mem_calls {α : Type} (p : List UInt8) (name : Mem) (f : Mem × Option (List UInt8) → Traced α) :
    ⟨p, name⟩ ∈ (parse p name >>= f).calls := by
  unfold parse
  cases pathParseInto p name with
  | ok r => exact .head _
  | error e => exact .head _

/-- With a name of 17 characters, all three store a byte outside the array. -/
theorem name_buffer_overflows :
    let pathname := slash :: List.replicate 17 97
    pathname.head? = some slash ∧ pathname.length < 512 ∧
      (∃ c ∈ (pathDepthCntInto pathname fun _ => 0).calls, pathParseInto c.pathname c.name = .error .outOfBounds) ∧
      (∃ c ∈ (washPathInto .debug pathname).calls, pathParseInto c.pathname c.name = .error .outOfBounds) ∧
      ∀ (part : Partition) (s : Fs part) mem old,
        ∃ c ∈ (searchFileInto .debug s pathname mem old).calls, pathParseInto c.pathname c.name = .error .outOfBounds :=
  ⟨rfl, by decide, ⟨_, parse_mem_calls _ _ _, rfl⟩, ⟨_, parse_mem_calls _ _ _, rfl⟩,
    fun _ _ _ _ => ⟨_, parse_mem_calls _ _ _, rfl⟩⟩

end OperateSystem
