import OperateSystem.Fs

/-!
# Path strings

`path_parse` cuts a path into names. A path made of names, each behind a slash, is
cut into the same names again, and no path is shorter than the names in it.
`normalise` works off the dots in a list of names.
-/

namespace OperateSystem

open List
variable {xs : List (List UInt8)} {p x : List UInt8}

def IsName (x : List UInt8) : Prop := x ≠ [] ∧ slash ∉ x

def joinPath (xs : List (List UInt8)) : List UInt8 := xs.flatMap (slash :: ·)

@[simp] theorem joinPath_nil : joinPath [] = [] := rfl

@[simp] theorem joinPath_cons (x : List UInt8) (xs : List (List UInt8)) : joinPath (x :: xs) = slash :: (x ++ joinPath xs) := rfl

@[simp] theorem joinPath_append (xs ys : List (List UInt8)) : joinPath (xs ++ ys) = joinPath xs ++ joinPath ys := by
  simp [joinPath]

theorem joinPath_eq_nil : joinPath xs = [] ↔ xs = [] := by
  cases xs with
  | nil => simp
  | cons x xs => simp

/-! ## `path_parse` -/

theorem head_dropWhile_false {f : UInt8 → Bool} {c : UInt8} {q : List UInt8}
    (h : p.dropWhile f = c :: q) :
    f c = false := by
  have hc := head_dropWhile_not f (show p.dropWhile f ≠ [] by rw [h]; exact cons_ne_nil _ _)
  simpa only [h, head_cons] using hc

theorem pathParse_eq (p : List UInt8) : ∃ front rest : List UInt8, (∀ c ∈ front, c = slash) ∧
    p = front ++ (pathParse p).1 ++ rest ∧ slash ∉ (pathParse p).1 ∧ (rest = [] ∨ rest.head? = some slash) ∧
    (pathParse p).2 = (if rest = [] then none else some rest) ∧ (p.head? = some slash → front ≠ []) ∧
    ((pathParse p).1 = [] → rest = []) := by
  refine ⟨p.takeWhile (· = slash), (p.dropWhile (· = slash)).dropWhile (· ≠ slash), fun c hc => ?_, ?_, fun hm => ?_, ?_, rfl, fun hp => ?_, fun hnil => ?_⟩
  · simpa using all_eq_true.mp all_takeWhile c hc
  · show p = List.takeWhile _ p ++ (p.dropWhile (· = slash)).takeWhile (· ≠ slash) ++ _
    rw [append_assoc, takeWhile_append_dropWhile, takeWhile_append_dropWhile]
  · simpa using all_eq_true.mp all_takeWhile _ hm
  · cases hr : (p.dropWhile (· = slash)).dropWhile (· ≠ slash) with
    | nil => exact .inl rfl
    | cons c rest =>
      have hc := head_dropWhile_false hr
      simp only [ne_eq, decide_not, Bool.not_eq_false', decide_eq_true_eq] at hc
      exact .inr (by rw [hc]; rfl)
  · cases p with
    | nil => cases hp
    | cons c p =>
      have hc : c = slash := by simpa using hp
      simp [hc]
  · cases hq : p.dropWhile (· = slash) with
    | nil => rfl
    | cons c q =>
      have hc := head_dropWhile_false hq
      have hnil : (p.dropWhile (· = slash)).takeWhile (· ≠ slash) = [] := hnil
      simp_all

theorem pathNames_step (n : Nat) (p : List UInt8) : pathNames (n + 1) p =
    if (pathParse p).1 = [] then [] else (pathParse p).1 :: ((pathParse p).2.map (pathNames n)).getD [] := by
  rw [pathNames]
  generalize pathParse p = q
  obtain ⟨name, rest⟩ := q
  cases name with
  | nil => simp
  | cons c name => cases rest <;> simp

theorem pathNames_isName : ∀ (n : Nat) (p : List UInt8), ∀ x ∈ pathNames n p, IsName x ∧ ∀ c ∈ x, c ∈ p
  | 0, p, x, hx => absurd hx not_mem_nil
  | n + 1, p, x, hx => by
    obtain ⟨front, rest, -, hp, hs, -, hr, -, -⟩ := pathParse_eq p
    rw [pathNames_step, hr] at hx
    split at hx
    · cases hx
    rename_i hne
    rcases mem_cons.mp hx with rfl | hx
    · refine ⟨⟨hne, hs⟩, fun c hc => ?_⟩
      rw [hp]
      simp [hc]
    · split at hx
      · cases hx
      · obtain ⟨hn, hsub⟩ := pathNames_isName n rest x hx
        refine ⟨hn, fun c hc => ?_⟩
        rw [hp]
        exact mem_append_right _ (hsub c hc)

theorem names_isName (h : x ∈ names p) : IsName x := (pathNames_isName _ _ x h).1

theorem names_sub (h : x ∈ names p) {c : UInt8} (hc : c ∈ x) : c ∈ p := (pathNames_isName _ _ x h).2 c hc

theorem joinPath_pathNames_le : ∀ (n : Nat) (p : List UInt8), p = [] ∨ p.head? = some slash →
    (joinPath (pathNames n p)).length ≤ p.length
  | 0, p, _ => Nat.zero_le _
  | n + 1, p, hp => by
    obtain ⟨front, rest, -, hs, -, hh, hr, hf, -⟩ := pathParse_eq p
    rw [pathNames_step, hr]
    generalize (pathParse p).1 = name at *
    split
    · exact Nat.zero_le _
    rename_i hne
    have hf : 1 ≤ front.length := by
      refine length_pos_iff.mpr (hf (hp.resolve_left fun e => hne ?_))
      rw [e] at hs
      exact (append_eq_nil_iff.mp (append_eq_nil_iff.mp hs.symm).1).2
    have ih := joinPath_pathNames_le n rest hh
    have hlen : p.length = front.length + name.length + rest.length := by
      rw [hs]
      simp only [length_append]
    rw [joinPath_cons, length_cons, length_append]
    split
    · simp only [Option.map_none, Option.getD_none, joinPath_nil, length_nil]
      omega
    · simp only [Option.map_some, Option.getD_some]
      omega

theorem joinPath_names_le (h : p.head? = some slash) : (joinPath (names p)).length ≤ p.length :=
  joinPath_pathNames_le _ _ (.inr h)

theorem takeWhile_name (h : slash ∉ x) (r : List UInt8) (hr : r = [] ∨ r.head? = some slash) :
    (x ++ r).takeWhile (· ≠ slash) = x ∧ (x ++ r).dropWhile (· ≠ slash) = r := by
  induction x with
  | nil =>
    rcases hr with rfl | hr
    · simp
    · cases r with
      | nil => simp
      | cons c r =>
        have hc : c = slash := by simpa using hr
        simp [hc]
  | cons c x ih =>
    have hc : c ≠ slash := fun e => h (by simp [e])
    obtain ⟨h1, h2⟩ := ih fun hm => h (.tail _ hm)
    simp only [ne_eq, decide_not] at h1 h2
    simp [hc, h1, h2]

theorem joinPath_head (xs : List (List UInt8)) : joinPath xs = [] ∨ (joinPath xs).head? = some slash := by
  cases xs with
  | nil => exact .inl rfl
  | cons x xs => exact .inr rfl

theorem pathParse_join (h : IsName x) (xs : List (List UInt8)) :
    pathParse (joinPath (x :: xs)) = (x, if joinPath xs = [] then none else some (joinPath xs)) := by
  have hdr : (joinPath (x :: xs)).dropWhile (· = slash) = x ++ joinPath xs := by
    obtain ⟨c, y, rfl⟩ := exists_cons_of_ne_nil h.1
    have hc : c ≠ slash := fun e => h.2 (by simp [e])
    simp [hc]
  obtain ⟨h1, h2⟩ := takeWhile_name h.2 _ (joinPath_head xs)
  unfold pathParse
  dsimp only
  rw [hdr, h1, h2]

theorem pathNames_join : ∀ (xs : List (List UInt8)) (n : Nat), (∀ x ∈ xs, IsName x) → (joinPath xs).length ≤ n →
    pathNames n (joinPath xs) = xs
  | [], n, _, _ => by
    cases n with
    | zero => rfl
    | succ n => rfl
  | x :: xs, n, hx, hn => by
    rw [joinPath_cons, length_cons, length_append] at hn
    obtain ⟨n, rfl⟩ := Nat.exists_eq_succ_of_ne_zero (show n ≠ 0 by omega)
    have hna := hx x mem_cons_self
    have ih := pathNames_join xs n (fun y hy => hx y (.tail _ hy)) (by omega)
    rw [pathNames_step, pathParse_join hna, if_neg hna.1]
    split
    · rename_i hnil
      rw [joinPath_eq_nil.mp hnil]
      rfl
    · rw [Option.map_some, Option.getD_some, ih]

theorem names_join (h : ∀ x ∈ xs, IsName x) : names (joinPath xs) = xs :=
  pathNames_join xs _ h le_rfl

/-! ## Components -/

/-- What stands between the slashes of a path. -/
def components (path : List UInt8) : List (List UInt8) := (path.splitOnP (· = slash)).filter (· ≠ [])

theorem components_append_slash (p q : List UInt8) : components (p ++ slash :: q) = components p ++ components q := by
  unfold components
  rw [splitOnP_append_cons _ _ (by simp), filter_append]

theorem components_slashes {front : List UInt8} (h : ∀ c ∈ front, c = slash) (q : List UInt8) : components (front ++ q) = components q := by
  induction front with
  | nil => rfl
  | cons c front ih =>
    rw [h c mem_cons_self, cons_append]
    exact (components_append_slash [] _).trans (ih fun x hx => h x (mem_cons_of_mem c hx))

theorem components_name (h : IsName x) : components x = [x] := by
  unfold components
  rw [splitOnP_eq_singleton fun c hc => by simpa using fun e : c = slash => h.2 (e ▸ hc)]
  simp [h.1]

theorem pathNames_eq : ∀ (n : Nat) (p : List UInt8), p.length ≤ n → pathNames n p = components p
  | 0, p, hn => by
    rw [length_eq_zero_iff.mp (Nat.le_zero.mp hn)]
    rfl
  | n + 1, p, hn => by
    obtain ⟨front, rest, hf, hs, hsl, hh, hr, -, hnil⟩ := pathParse_eq p
    rw [pathNames_step, hr]
    generalize (pathParse p).1 = name at *
    have hp : components p = components (name ++ rest) := by
      rw [hs, append_assoc, components_slashes hf]
    rw [hp]
    split
    · rename_i he
      rw [he, hnil he]
      rfl
    · rename_i he
      have hna := components_name ⟨he, hsl⟩
      have hlen : p.length = front.length + name.length + rest.length := by
        rw [hs]
        simp only [length_append]
      have hpos := length_pos_iff.mpr he
      rcases hh with rfl | hh
      · rw [append_nil, hna]
        rfl
      · obtain ⟨c, r, rfl⟩ := exists_cons_of_ne_nil (show rest ≠ [] by rintro rfl; cases hh)
        obtain rfl : c = slash := Option.some.inj hh
        have ih := pathNames_eq n (slash :: r) (by omega)
        rw [if_neg (cons_ne_nil _ _), Option.map_some, Option.getD_some, ih, components_append_slash, hna]
        exact congrArg _ (components_append_slash [] r)

theorem names_eq_components (p : List UInt8) : names p = components p := pathNames_eq _ p le_rfl

theorem split_join (h : ∀ x ∈ xs, IsName x) : (joinPath xs).splitOnP (· = slash) = [] :: xs := by
  induction xs with
  | nil => rfl
  | cons x xs ih =>
    have hx := h x mem_cons_self
    have hone : x.splitOnP (· = slash) = [x] :=
      splitOnP_eq_singleton fun c hc => by simpa using fun e : c = slash => hx.2 (e ▸ hc)
    have ih := ih fun y hy => h y (mem_cons_of_mem x hy)
    have hcut : (slash :: (x ++ joinPath xs)).splitOnP (· = slash) = [] :: (x ++ joinPath xs).splitOnP (· = slash) :=
      splitOnP_append_cons [] _ (by simp)
    rw [joinPath_cons, hcut]
    cases xs with
    | nil => rw [joinPath_nil, append_nil, hone]
    | cons y ys =>
      have hcut' : (joinPath (y :: ys)).splitOnP (· = slash) = [] :: (y ++ joinPath ys).splitOnP (· = slash) :=
        splitOnP_append_cons [] _ (by simp)
      rw [hcut', List.cons.injEq] at ih
      rw [joinPath_cons, splitOnP_append_cons _ _ (by simp), hone, ih.2]
      rfl

/-! ## The last name -/

theorem takeWhile_reverse {front : List UInt8} (h : slash ∉ x) (hf : front.getLast? = some slash) :
    ((front ++ x).reverse.takeWhile (· ≠ slash)).reverse = x := by
  have hh : front.reverse = [] ∨ front.reverse.head? = some slash := .inr (by rwa [List.head?_reverse])
  rw [reverse_append, (takeWhile_name (by simpa using h) _ hh).1, reverse_reverse]

theorem afterSlash_split {u v : List UInt8} (h : slash ∉ v) : afterSlash (u ++ slash :: v) = .ok v := by
  have hs : u ++ slash :: v = (u ++ [slash]) ++ v := by simp
  unfold afterSlash
  rw [hs, inBounds_of (by simp), ok_bind, takeWhile_reverse h List.getLast?_concat]
  rfl

theorem joinPath_concat (xs : List (List UInt8)) (x : List UInt8) : joinPath (xs ++ [x]) = joinPath xs ++ slash :: x := by simp

theorem pathNames_last : ∀ (n : Nat) (p : List UInt8), p.length ≤ n → p.head? = some slash → p.getLast? ≠ some slash →
    (pathNames n p).getLast? = some ((p.reverse.takeWhile (· ≠ slash)).reverse)
  | 0, p, hn, hp, _ => by
    rw [length_eq_zero_iff.mp (Nat.le_zero.mp hn)] at hp
    cases hp
  | n + 1, p, hn, hp, hl => by
    obtain ⟨front, rest, hsl, hs, hna, hh, hre, hf, hnil⟩ := pathParse_eq p
    have hf := hf hp
    have hfl : front.getLast? = some slash := by
      rw [List.getLast?_eq_some_getLast hf, hsl _ (getLast_mem hf)]
    rw [pathNames_step, hre]
    generalize (pathParse p).1 = name at *
    rcases hh with rfl | hh
    · -- the path ends with this name
      rw [append_nil] at hs
      have hne : name ≠ [] := by
        rintro rfl
        rw [hs, append_nil] at hl
        exact hl hfl
      rw [if_neg hne, if_pos rfl, hs, takeWhile_reverse hna hfl]
      rfl
    · have hrne : rest ≠ [] := by
        rintro rfl
        cases hh
      have hlen : p.length = front.length + name.length + rest.length := by
        rw [hs]
        simp only [length_append]
      have hfn := length_pos_iff.mpr hf
      have hr : rest.getLast? ≠ some slash := by
        rwa [hs, List.getLast?_append_of_ne_nil _ hrne] at hl
      have ih := pathNames_last n rest (by omega) hh hr
      have hne : name ≠ [] := fun e => hrne (hnil e)
      rw [if_neg hne, if_neg hrne, Option.map_some, Option.getD_some]
      cases hxs : pathNames n rest with
      | nil =>
        rw [hxs] at ih
        cases ih
      | cons y ys =>
        rw [List.getLast?_cons_cons, ← hxs, ih]
        congr 2
        -- the last slash is in the rest
        rw [hs, reverse_append, takeWhile_append, if_neg]
        intro heq
        have hall := takeWhile_eq_self_iff.mp ((List.takeWhile_prefix _).eq_of_length heq)
        have hmem := mem_reverse.mpr (mem_of_mem_head? hh)
        simpa using hall slash hmem

theorem names_last (h : p.head? = some slash) (hl : p.getLast? ≠ some slash) :
    (names p).getLast? = some ((p.reverse.takeWhile (· ≠ slash)).reverse) :=
  pathNames_last _ p le_rfl h hl

/-! ## Without dots -/

def normStep (xs : List (List UInt8)) (x : List UInt8) : List (List UInt8) :=
  if x = dotDot then xs.dropLast else if x = dot then xs else xs ++ [x]

def normalise (xs : List (List UInt8)) : List (List UInt8) := xs.foldl normStep []

def pathString (xs : List (List UInt8)) : List UInt8 := if xs = [] then [slash] else joinPath xs

theorem normStep_mem {y : List UInt8} (h : y ∈ normStep xs x) : y ∈ xs ∨ y = x := by
  unfold normStep at h
  split at h
  · exact .inl (mem_of_mem_dropLast h)
  · split at h
    · exact .inl h
    · rcases mem_append.mp h with h | h
      · exact .inl h
      · exact .inr (mem_singleton.mp h)

theorem foldl_normStep_mem : ∀ (xs ys : List (List UInt8)) {y : List UInt8}, y ∈ xs.foldl normStep ys → y ∈ ys ∨ y ∈ xs
  | [], _, _, h => .inl h
  | x :: xs, ys, y, h => by
    rcases foldl_normStep_mem xs (normStep ys x) h with h | h
    · rcases normStep_mem h with h | rfl
      · exact .inl h
      · exact .inr mem_cons_self
    · exact .inr (.tail _ h)

theorem foldl_normStep_dotless (xs : List (List UInt8)) : ∀ ys : List (List UInt8), (∀ y ∈ ys, y ≠ dot ∧ y ≠ dotDot) →
    ∀ y ∈ xs.foldl normStep ys, y ≠ dot ∧ y ≠ dotDot := by
  induction xs with
  | nil => exact fun ys h => h
  | cons x xs ih =>
    intro ys h
    apply ih
    intro y hy
    unfold normStep at hy
    split at hy
    · exact h y (mem_of_mem_dropLast hy)
    · split at hy
      · exact h y hy
      · rename_i hdd hd
        rcases mem_append.mp hy with hy | hy
        · exact h y hy
        · rw [mem_singleton.mp hy]
          exact ⟨hd, hdd⟩

theorem normalise_dotless (xs : List (List UInt8)) : ∀ y ∈ normalise xs, y ≠ dot ∧ y ≠ dotDot :=
  foldl_normStep_dotless xs [] fun _ hy => absurd hy not_mem_nil

theorem foldl_normStep_of_dotless (h : ∀ x ∈ xs, x ≠ dot ∧ x ≠ dotDot) (ys : List (List UInt8)) :
    xs.foldl normStep ys = ys ++ xs := by
  induction xs generalizing ys with
  | nil => simp
  | cons x xs ih =>
    obtain ⟨hd, hdd⟩ := h x mem_cons_self
    rw [foldl_cons, normStep, if_neg hdd, if_neg hd, ih fun y hy => h y (mem_cons_of_mem x hy)]
    simp

theorem normalise_idem (xs : List (List UInt8)) : normalise (normalise xs) = normalise xs :=
  foldl_normStep_of_dotless (normalise_dotless xs) []

theorem normalise_sub {y : List UInt8} (h : y ∈ normalise xs) : y ∈ xs :=
  (foldl_normStep_mem _ _ h).resolve_left not_mem_nil

theorem joinPath_dropLast_le (xs : List (List UInt8)) : (joinPath xs.dropLast).length ≤ (joinPath xs).length := by
  rcases eq_nil_or_concat xs with rfl | ⟨ys, y, rfl⟩
  · exact le_rfl
  · rw [concat_eq_append, dropLast_concat, joinPath_append, length_append]
    exact Nat.le_add_right _ _

theorem normStep_le (xs : List (List UInt8)) (x : List UInt8) :
    (joinPath (normStep xs x)).length ≤ (joinPath xs).length + (x.length + 1) := by
  unfold normStep
  split
  · exact Nat.le_trans (joinPath_dropLast_le xs) (Nat.le_add_right _ _)
  · split
    · exact Nat.le_add_right _ _
    · simp

theorem foldl_normStep_le : ∀ xs ys : List (List UInt8),
    (joinPath (xs.foldl normStep ys)).length ≤ (joinPath ys).length + (joinPath xs).length
  | [], _ => le_rfl
  | x :: xs, ys => by
    have ih := foldl_normStep_le xs (normStep ys x)
    have hs := normStep_le ys x
    rw [foldl_cons, joinPath_cons, length_cons, length_append]
    omega

theorem normalise_le (xs : List (List UInt8)) : (joinPath (normalise xs)).length ≤ (joinPath xs).length := by
  have h := foldl_normStep_le xs []
  rwa [joinPath_nil, length_nil, Nat.zero_add] at h

end OperateSystem
