import OperateSystem.Printf

/-!
# What formatted output leaves in the buffer

A format and its arguments are a list of pieces. The loop stores the text of the
pieces, and a NUL behind it only if the last piece is a string; what is returned
is the distance to the first NUL.
-/

namespace OperateSystem

open Function List

/-! ## The reference -/

def natText (base n : Nat) : List UInt8 :=
  if n = 0 then [48] else (Nat.digits base n).reverse.map fun d => .ofNat ("0123456789ABCDEF".toList.getD d ' ').toNat

def intText (n : Int) : List UInt8 := if n < 0 then 45 :: natText 10 n.natAbs else natText 10 n.natAbs

/-- An ordinary character of the format, or a conversion with its argument. -/
inductive Piece where
  | lit (c : UInt8)
  | str (text : List UInt8)
  | chr (w : UInt32)
  | dec (w : UInt32)
  | hex (w : UInt32)

namespace Piece

def format : Piece → List UInt8
  | lit c => [c]
  | str _ => [37, 115]
  | chr _ => [37, 99]
  | dec _ => [37, 100]
  | hex _ => [37, 120]

def args : Piece → List VaArg
  | lit _ => []
  | str text => [.str text]
  | chr w | dec w | hex w => [.word w]

def text : Piece → List UInt8
  | lit c => [c]
  | str text => text
  | chr w => [w.toUInt8]
  | dec w => intText w.toInt32.toInt
  | hex w => natText 16 w.toNat

def Proper : Piece → Prop
  | lit c => c ≠ 0 ∧ c ≠ 37
  | str text => 0 ∉ text
  | chr w => w.toUInt8 ≠ 0
  | dec _ | hex _ => True

def nul : Piece → List UInt8
  | str _ => [0]
  | _ => []

end Piece

/-! ## Numbers -/

theorem digit_eq : ∀ d < 16, digit d = .ofNat ("0123456789ABCDEF".toList.getD d ' ').toNat ∧ 48 ≤ digit d := by decide

theorem itoa_eq {base : Nat} (hbase : 1 < base) (h16 : base ≤ 16) (n : Nat) : itoa base hbase n = natText base n := by
  induction n using Nat.strong_induction_on with
  | _ n ih =>
    have hdi := (digit_eq (n % base) (lt_of_lt_of_le (Nat.mod_lt _ (by omega)) h16)).1
    rw [itoa, hdi, natText]
    by_cases hn : n = 0
    · rw [hn, if_pos (Nat.zero_div _), if_pos rfl, Nat.zero_mod]
      rfl
    · rw [if_neg hn, Nat.digits_def' hbase (Nat.pos_of_ne_zero hn), reverse_cons, map_append]
      refine congrArg (· ++ _) ?_
      by_cases hq : n / base = 0
      · rw [if_pos hq, hq, Nat.digits_zero]
        rfl
      · rw [if_neg hq, ih _ (Nat.div_lt_self (Nat.pos_of_ne_zero hn) hbase), natText, if_neg hq]

section
variable {base : Nat} (hbase : 1 < base) (h16 : base ≤ 16)
include hbase h16

theorem natText_digits (n : Nat) : (∀ c ∈ natText base n, 48 ≤ c) ∧ natText base n ≠ [] := by
  unfold natText
  split
  · exact ⟨fun c hc => mem_singleton.mp hc ▸ UInt8.le_refl 48, by decide⟩
  · rename_i hn
    constructor
    · intro c hc
      obtain ⟨d, hd, rfl⟩ := mem_map.mp hc
      obtain ⟨heq, hle⟩ := digit_eq d (lt_of_lt_of_le (Nat.digits_lt_base hbase (mem_reverse.mp hd)) h16)
      rwa [← heq]
    · simpa [Nat.digits_ne_nil_iff_ne_zero] using hn

theorem natText_no {c : UInt8} (hc : c < 48) (n : Nat) : c ∉ natText base n :=
  fun h => absurd hc (UInt8.not_lt.mpr ((natText_digits hbase h16 n).1 c h))

end

theorem intText_pos (n : Int) : 0 ∉ intText n ∧ intText n ≠ [] := by
  have hno : 0 ∉ natText 10 n.natAbs := natText_no (by decide) (by decide) (by decide) _
  unfold intText
  split
  · simpa using hno
  · exact ⟨hno, (natText_digits (by decide) (by decide) _).2⟩

theorem dec_bytes (w : UInt32) :
    (if w.toInt32 < 0 then 45 :: itoa 10 (by decide) (0 - w.toInt32).toUInt32.toNat else itoa 10 (by decide) w.toInt32.toUInt32.toNat) =
      intText w.toInt32.toInt := by
  have hw := w.toNat_lt
  have hint := toInt_toInt32 w
  unfold intText
  rw [itoa_eq _ (by decide), itoa_eq _ (by decide)]
  by_cases hneg : w.toInt32.toInt < 0
  · rw [if_pos (Int32.lt_iff_toInt_lt.mpr hneg), if_pos hneg]
    have hsub : (0 - w.toInt32).toUInt32 = 0 - w := rfl
    rw [hsub, UInt32.toNat_sub, show (0 : UInt32).toNat = 0 from rfl]
    congr 2
    split at hint <;> omega
  · rw [if_neg fun h => hneg (Int32.lt_iff_toInt_lt.mp h), if_neg hneg, toNat_toUInt32 (by omega)]
    congr 1
    omega

/-! ## The loop -/

theorem putBytes_nil (buf : Mem) (p : Nat) : putBytes buf p [] = buf := by
  funext k
  simp [putBytes]

theorem putBytes_append (buf : Mem) (p : Nat) {a t b : List UInt8} (h : t.length ≤ b.length) :
    putBytes (putBytes buf p (a ++ t)) (p + a.length) b = putBytes buf p (a ++ b) := by
  funext k
  unfold putBytes
  by_cases hk : p ≤ k
  · simp only [if_pos hk, getD_eq_getElem?_getD]
    by_cases ha : p + a.length ≤ k
    · rw [if_pos ha, List.getElem?_append_right (by omega), List.getElem?_append_right (by omega), show k - p - a.length = k - (p + a.length) by omega]
      by_cases hb : k - (p + a.length) < b.length
      · rw [List.getElem?_eq_getElem hb, Option.getD_some, Option.getD_some]
      · rw [List.getElem?_eq_none (by omega), List.getElem?_eq_none (by omega), Option.getD_none, Option.getD_none]
    · rw [if_neg ha, List.getElem?_append_left (by omega), List.getElem?_append_left (by omega)]
  · rw [if_neg hk, if_neg hk, if_neg (by omega)]

section
variable {size : Nat}

theorem vsprintfLoop_cons {q : Piece} (hq : q.Proper) (format : List UInt8) (args : List VaArg) (buf : Mem) (p : Nat) :
    vsprintfLoop size (q.format ++ format) (q.args ++ args) buf p =
      emit size buf p (q.text ++ q.nul) q.text.length >>= fun r => vsprintfLoop size format args r.1 r.2 := by
  cases q with
  | lit c =>
    cases format with
    | nil => exact (if_pos hq.2).trans (bind_congr fun _ => rfl)
    | cons next format => exact if_pos hq.2
  | str text => rfl
  | chr w => rfl
  | dec w =>
    show (convert size buf p .d (.word w) >>= fun r => vsprintfLoop size format args r.1 r.2) = _
    simp only [convert, dec_bytes, Piece.text, Piece.nul, append_nil]
  | hex w =>
    show (convert size buf p .x (.word w) >>= fun r => vsprintfLoop size format args r.1 r.2) = _
    simp only [convert, itoa_eq _ (by decide : 16 ≤ 16), Piece.text, Piece.nul, append_nil]

theorem Piece.stores (q : Piece) : q.nul.length ≤ 1 ∧ q.text ++ q.nul ≠ [] := by
  cases q with
  | lit c => simp [nul, text]
  | str text => simp [nul]
  | chr w => simp [nul, text]
  | dec w => simpa [nul, text] using (intText_pos _).2
  | hex w => simpa [nul, text] using (natText_digits (by decide) (by decide) _).2

def lastNul (qs : List Piece) : List UInt8 := (qs.getLast?.map Piece.nul).getD []

theorem lastNul_cases (qs : List Piece) : ((∃ text, qs.getLast? = some (.str text)) ∧ lastNul qs = [0]) ∨
    ((¬ ∃ text, qs.getLast? = some (.str text)) ∧ lastNul qs = []) := by
  unfold lastNul
  cases qs.getLast? with
  | none => simp
  | some q => cases q <;> simp [Piece.nul]

theorem lastNul_cons (q r : Piece) (qs : List Piece) : lastNul (q :: r :: qs) = lastNul (r :: qs) := by
  rw [lastNul, List.getLast?_cons_cons]
  rfl

theorem stores_some : ∀ (q : Piece) (qs : List Piece), 0 < ((q :: qs).flatMap Piece.text ++ lastNul (q :: qs)).length
  | q, [] => by
    rw [flatMap_singleton]
    exact length_pos_iff.mpr q.stores.2
  | q, r :: qs => by
    have := stores_some r qs
    rw [flatMap_cons, lastNul_cons, append_assoc, length_append]
    omega

theorem vsprintfLoop_pieces : ∀ (qs : List Piece) (buf : Mem) (p : Nat), (∀ q ∈ qs, q.Proper) → p + (qs.flatMap Piece.text).length < size →
    vsprintfLoop size (qs.flatMap Piece.format) (qs.flatMap Piece.args) buf p = .ok (putBytes buf p (qs.flatMap Piece.text ++ lastNul qs))
  | [], buf, p, _, _ => by simp [vsprintfLoop, lastNul, putBytes_nil]
  | q :: qs, buf, p, hq, hsize => by
    have hnul := q.stores.1
    rw [flatMap_cons, length_append] at hsize
    rw [flatMap_cons, flatMap_cons, vsprintfLoop_cons (hq q mem_cons_self), emit,
      inBounds_of (by rw [length_append]; omega), ok_bind, pure_ok, ok_bind]
    rw [vsprintfLoop_pieces qs _ _ (fun r hr => hq r (.tail _ hr)) (by dsimp only; omega)]
    cases qs with
    | nil => simp [lastNul, putBytes_nil]
    | cons r qs =>
      have hlen := stores_some r qs
      rw [putBytes_append buf p (by omega), lastNul_cons, ← append_assoc]
      rfl

theorem Piece.text_no_nul {q : Piece} (h : q.Proper) : 0 ∉ q.text := by
  cases q with
  | lit c => simpa [Piece.text] using Ne.symm h.1
  | str text => exact h
  | chr w => simpa [Piece.text] using Ne.symm h
  | dec w => exact (intText_pos _).1
  | hex w => exact natText_no (by decide) (by decide) (by decide) _

section
variable {qs : List Piece} (hq : ∀ q ∈ qs, q.Proper)
include hq

theorem texts_no_nul : 0 ∉ qs.flatMap Piece.text := fun h => by
  obtain ⟨q, hmem, h⟩ := mem_flatMap.mp h
  exact Piece.text_no_nul (hq q hmem) h

/-- The length that is returned is the distance to the first NUL, which is behind the text or further on. -/
theorem vsprintf_pieces (str : Mem) (hsize : (qs.flatMap Piece.text).length < size) {len : Nat}
    (hlt : len < size) (hnul : putBytes str 0 (qs.flatMap Piece.text ++ lastNul qs) len = 0)
    (hrest : ∀ k, (qs.flatMap Piece.text).length ≤ k → k < len → putBytes str 0 (qs.flatMap Piece.text ++ lastNul qs) k ≠ 0) :
    vsprintf size str (qs.flatMap Piece.format) (qs.flatMap Piece.args) = .ok (putBytes str 0 (qs.flatMap Piece.text ++ lastNul qs), len) := by
  have hstr := strlen_ok hnul size 0 (Nat.zero_le _) (by omega) fun k _ hk => by
    by_cases hin : k < (qs.flatMap Piece.text).length
    · intro hze
      rw [putBytes, if_pos (Nat.zero_le k), Nat.sub_zero, getD_append _ _ _ _ hin, getD_eq_getElem _ _ hin] at hze
      exact texts_no_nul hq (hze ▸ getElem_mem hin)
    · exact hrest k (Nat.le_of_not_lt hin) hk
  rw [vsprintf, vsprintfLoop_pieces qs str 0 hq (by omega), ok_bind, hstr]
  rfl

end

end

theorem putBytes_behind (buf : Mem) {text nul : List UInt8} {k : Nat} (h : text.length ≤ k) :
    putBytes buf 0 (text ++ nul) k = nul.getD (k - text.length) (buf k) := by
  rw [putBytes, if_pos (Nat.zero_le k), Nat.sub_zero, getD_append_right _ _ _ _ h]

theorem putBytes_inside (buf : Mem) (text nul : List UInt8) : (List.range text.length).map (putBytes buf 0 (text ++ nul)) = text := by
  refine ext_getElem (by simp) fun k h1 h2 => ?_
  rw [getElem_map, getElem_range, putBytes, if_pos (Nat.zero_le k), Nat.sub_zero, getD_append _ _ _ _ h2,
    getD_eq_getElem _ _ h2]

section
variable {qs : List Piece} {size : Nat}

theorem putBytes_cleared {str : Mem} (hstr : ∀ k < size, str k = 0) {k : Nat} (hk : (qs.flatMap Piece.text).length ≤ k) (hlt : k < size) :
    putBytes str 0 (qs.flatMap Piece.text ++ lastNul qs) k = 0 := by
  rw [putBytes_behind str hk, hstr k hlt]
  rcases lastNul_cases qs with ⟨-, e⟩ | ⟨-, e⟩ <;> rw [e]
  · cases k - (qs.flatMap Piece.text).length <;> rfl
  · rfl

/-- **`vsprintf` formats correctly** into a cleared buffer with room for the text and a NUL. -/
theorem vsprintf_correct (hq : ∀ q ∈ qs, q.Proper) (hsize : (qs.flatMap Piece.text).length < size) (str : Mem) (hstr : ∀ k < size, str k = 0) :
    ∃ buf, vsprintf size str (qs.flatMap Piece.format) (qs.flatMap Piece.args) = .ok (buf, (qs.flatMap Piece.text).length) ∧
      (List.range (qs.flatMap Piece.text).length).map buf = qs.flatMap Piece.text ∧
      ∀ k, (qs.flatMap Piece.text).length ≤ k → k < size → buf k = 0 :=
  ⟨_, vsprintf_pieces hq str hsize hsize (putBytes_cleared hstr le_rfl hsize) fun k h1 h2 => by omega,
    putBytes_inside .., fun _ => putBytes_cleared hstr⟩

def sampleLine : List Piece := [.lit 110, .lit 61, .dec 0x80000000, .lit 32, .str [97, 98], .chr 58, .hex 31]

theorem vsprintf_correct_sample : ∃ buf, vsprintf 32 (fun _ => 0) (sampleLine.flatMap Piece.format) (sampleLine.flatMap Piece.args) = .ok (buf, 19) ∧
    (List.range 19).map buf = "n=-2147483648 ab:1F".toList.map fun c => .ofNat c.toNat := by
  have ht : sampleLine.flatMap Piece.text = "n=-2147483648 ab:1F".toList.map fun c => .ofNat c.toNat := by decide +kernel
  obtain ⟨buf, hrun, hbuf, -⟩ := @vsprintf_correct sampleLine 32 (by simp [sampleLine, Piece.Proper]) (by rw [ht]; decide)
    (fun _ => 0) fun _ _ => rfl
  rw [ht] at hrun hbuf
  exact ⟨buf, hrun, hbuf⟩

def seen (r : Mem × Nat) : List UInt8 × Nat := ((List.range r.2).map r.1, r.2)

/-- **When formatting does not depend on old buffer contents**: the last piece is a string. No other conversion stores a NUL. -/
theorem sprintf_independent_iff (hq : ∀ q ∈ qs, q.Proper) :
    (∃ r, ∀ (size : Nat) (buf : Mem), (qs.flatMap Piece.text).length < size →
      (sprintf size buf (qs.flatMap Piece.format) (qs.flatMap Piece.args)).map seen = .ok r) ↔ ∃ text, qs.getLast? = some (.str text) := by
  rcases lastNul_cases qs with ⟨hl, hnul⟩ | ⟨hl, hnul⟩
  · refine iff_of_true ⟨(qs.flatMap Piece.text, (qs.flatMap Piece.text).length), fun size buf hsize => ?_⟩ hl
    rw [sprintf, vsprintf_pieces hq buf hsize hsize ?_ fun k h1 h2 => by omega]
    · exact congrArg (fun t => Except.ok (t, _)) (putBytes_inside ..)
    · rw [putBytes_behind buf le_rfl, hnul, Nat.sub_self]
      rfl
  · refine iff_of_false (fun ⟨r, hr⟩ => ?_) hl
    -- the string ends one character later if the buffer holds one behind the text
    generalize hbuf : update (fun _ => 0 : Mem) (qs.flatMap Piece.text).length 7 = buf
    have hc : ∀ (m : Mem) k, (qs.flatMap Piece.text).length ≤ k → putBytes m 0 (qs.flatMap Piece.text ++ lastNul qs) k = m k :=
      fun m k hk => by rw [putBytes_behind m hk, hnul]; rfl
    have h0 := hr _ (fun _ => 0) (Nat.lt_add_of_pos_right (Nat.succ_pos 1))
    have h1 := hr _ buf (Nat.lt_add_of_pos_right (Nat.succ_pos 1))
    rw [sprintf, vsprintf_pieces hq _ (by omega) (Nat.lt_add_of_pos_right (Nat.succ_pos 1)) (hc _ _ le_rfl) fun k h1 h2 => by omega] at h0
    rw [sprintf, @vsprintf_pieces _ qs hq _ (by omega) ((qs.flatMap Piece.text).length + 1) (by omega)
      ((hc _ _ (Nat.le_succ _)).trans (by rw [← hbuf, update_of_ne (by omega)])) fun k h1 h2 => by
        rw [hc _ _ h1, ← hbuf, show k = (qs.flatMap Piece.text).length by omega, update_self]
        decide] at h1
    have := congrArg Prod.snd (Except.ok.inj (h0.trans h1.symm))
    exact absurd this (Nat.ne_of_lt (Nat.lt_succ_self _))

theorem sprintf_independent_name : ∃ r, ∀ (size : Nat) (buf : Mem), 3 < size →
    (sprintf size buf [115, 37, 115] [.str [100, 98]]).map seen = .ok r :=
  (@sprintf_independent_iff [.lit 115, .str [100, 98]] (by simp [Piece.Proper])).mpr ⟨_, rfl⟩

theorem sprintf_shows_old : (sprintf 8 (fun _ => 0) [37, 100] [.word 5]).toOption.map seen = some ([53], 1) ∧
    (sprintf 8 (fun k => if k < 4 then 55 else 0) [37, 100] [.word 5]).toOption.map seen = some ([53, 55, 55, 55], 4) := by
  decide +kernel

end

/-! ## Columns -/

def int16Of (ptr : Mem) : Int := (UInt16.ofNat ((ptr 0).toNat + 256 * (ptr 1).toNat)).toInt16.toInt

def PadFormat.text : PadFormat → List UInt8
  | .s text => text
  | .d ptr => intText (int16Of ptr)
  | .x ptr => natText 16 (word ptr 0).toNat

def padText (bufLen : Nat) (text : List UInt8) : List UInt8 := text ++ List.replicate (bufLen - 1 - text.length) 32

theorem padLoop_eq {bufLen : Nat} (h255 : bufLen ≤ 255) : ∀ (n : Nat) (idx : UInt8) (buf : Mem), idx.toNat ≤ bufLen → bufLen < idx.toNat + n →
    padLoop bufLen n idx buf = some (fill buf idx.toNat (bufLen - idx.toNat) 32)
  | 0, idx, buf, h1, h2 => by omega
  | n + 1, idx, buf, h1, h2 => by
    unfold padLoop
    split
    · rename_i hlt
      have hn : (idx + 1).toNat = idx.toNat + 1 := by
        rw [UInt8.toNat_add]
        exact Nat.mod_eq_of_lt (by have : (1 : UInt8).toNat = 1 := rfl; omega)
      rw [padLoop_eq h255 n (idx + 1) _ (by omega) (by omega), hn]
      congr 1
      funext k
      by_cases hk : k = idx.toNat
      · rw [fill_out (by omega), hk, update_self, fill_in (by omega) (by omega)]
      · by_cases hin : idx.toNat + 1 ≤ k ∧ k < bufLen
        · rw [fill_in (by omega) (by omega), fill_in (by omega) (by omega)]
        · rw [fill_out (by omega), update_of_ne hk, fill_out (by omega)]
    · rename_i hge
      rw [show bufLen - idx.toNat = 0 by omega]
      congr 1
      funext k
      rw [fill_out (by omega)]

section
variable {bufLen : Nat} (h255 : bufLen ≤ 255)
include h255

theorem padRest_text {buf : Mem} {text : List UInt8} (hbuf : (List.range text.length).map buf = text) (hlen : text.length < bufLen) :
    padRest bufLen (buf, text.length) = some (padText bufLen text) := by
  have hidx : (UInt8.ofNat text.length).toNat = text.length := by
    rw [UInt8.toNat_ofNat']
    exact Nat.mod_eq_of_lt (by omega)
  rw [padRest, padLoop_eq h255 256 _ buf (by rw [hidx]; omega) (by omega), Option.map_some, hidx, padText]
  refine congrArg some (ext_getElem (by simp; omega) fun k h1 h2 => ?_)
  rw [length_map, length_range] at h1
  rw [getElem_map, getElem_range]
  by_cases hk : k < text.length
  · rw [fill_out (by omega), getElem_append_left hk]
    have := getElem_of_eq hbuf (i := k) (by simpa using hk)
    rwa [getElem_map, getElem_range] at this
  · rw [fill_in (by omega) (by omega), getElem_append_right (by omega), getElem_replicate]

omit h255 in
theorem vsprintf_piece {q : Piece} (hq : q.Proper) (str : Mem) (hsize : q.text.length < bufLen) {len : Nat} (hlt : len < bufLen)
    (hnul : putBytes str 0 (q.text ++ q.nul) len = 0) (hrest : ∀ k, q.text.length ≤ k → k < len → putBytes str 0 (q.text ++ q.nul) k ≠ 0) :
    vsprintf bufLen str q.format q.args = .ok (putBytes str 0 (q.text ++ q.nul), len) := by
  have h := @vsprintf_pieces bufLen [q] (by simpa using hq) str
  simp only [flatMap_singleton] at h
  exact h hsize hlt hnul hrest

theorem padPrint_once {q : Piece} (hq : q.Proper) (hlen : q.text.length < bufLen) (buf : Mem) :
    ∃ r, sprintf bufLen (fill buf 0 bufLen 0) q.format q.args = .ok r ∧ padRest bufLen r = some (padText bufLen q.text) ∧
      (∀ k (h : k < q.text.length), r.1 k = q.text[k]) ∧ ∀ k, q.text.length ≤ k → k < bufLen → r.1 k = 0 := by
  have hrest := @putBytes_cleared [q] bufLen (fill buf 0 bufLen 0) fun k hk => fill_in (Nat.zero_le k) (by omega)
  rw [flatMap_singleton] at hrest
  have hin := putBytes_inside (fill buf 0 bufLen 0) q.text q.nul
  refine ⟨_, vsprintf_piece hq _ hlen hlen (hrest le_rfl hlen) fun k h1 h2 => by omega, padRest_text h255 hin hlen,
    fun k hk => ?_, fun _ => hrest⟩
  have := getElem_of_eq hin (i := k) (by simpa using hk)
  rwa [getElem_map, getElem_range] at this

/-- A number over an older text: without a NUL of its own, what is left of the text stays. -/
theorem sprintf_over {w : UInt32} {old : List UInt8} {m : Mem} (hold : ∀ k (h : k < old.length), m k = old[k])
    (hrest : ∀ k, old.length ≤ k → k < bufLen → m k = 0) (hno : 0 ∉ old) (hlen : old.length < bufLen)
    (hhex : (natText 16 w.toNat).length < bufLen) :
    ∃ r, sprintf bufLen m [37, 120] [.word w] = .ok r ∧
      padRest bufLen r = some (padText bufLen (natText 16 w.toNat ++ old.drop (natText 16 w.toNat).length)) := by
  have hpi := @vsprintf_piece bufLen (.hex w) trivial m
  simp only [Piece.text, Piece.nul, Piece.format, Piece.args] at hpi
  generalize natText 16 w.toNat = hex at *
  have hc : ∀ k, hex.length ≤ k → putBytes m 0 (hex ++ []) k = m k := fun k hk => putBytes_behind m hk
  have hsum : (hex ++ old.drop hex.length).length = max hex.length old.length := by
    rw [length_append, length_drop]
    omega
  refine ⟨_, @hpi hhex (max hex.length old.length) (by omega) ?_ fun k h1 h2 => ?_, ?_⟩
  · exact (hc _ (by omega)).trans (hrest _ (by omega) (by omega))
  · have hk : k < old.length := by omega
    rw [hc k h1, hold k hk]
    exact fun hz => hno (hz ▸ getElem_mem hk)
  rw [← hsum]
  refine padRest_text h255 (ext_getElem (by simp) fun k h1 h2 => ?_) (by omega)
  rw [getElem_map, getElem_range]
  by_cases hk : k < hex.length
  · rw [getElem_append_left hk, putBytes, if_pos (Nat.zero_le k), Nat.sub_zero, append_nil, getD_eq_getElem _ _ hk]
  · have hold' : k < old.length := by omega
    rw [hc k (by omega), hold k hold', getElem_append_right (by omega), getElem_drop]
    congr 1
    omega

omit h255 in
theorem sprintf_short {w : UInt32} {m : Mem} {r : Mem × Nat} (h : sprintf bufLen m [37, 120] [.word w] = .ok r) :
    (natText 16 w.toNat).length < bufLen := by
  obtain ⟨m', hloop, h⟩ := bind_ok.mp h
  obtain ⟨len, hstr, -⟩ := bind_ok.mp h
  obtain ⟨hlt, hz⟩ := strlen_nul _ _ hstr
  obtain ⟨⟨m1, p⟩, hemit, hend⟩ := bind_ok.mp ((vsprintfLoop_cons (q := .hex w) trivial [] [] m 0).symm.trans hloop)
  obtain ⟨_, -, hemit⟩ := bind_ok.mp hemit
  cases hemit
  cases hend
  by_contra hge
  have hin : len < (natText 16 w.toNat).length := by omega
  have hz : putBytes m 0 (natText 16 w.toNat ++ []) len = 0 := hz
  rw [putBytes, if_pos (Nat.zero_le _), Nat.sub_zero, getD_append _ _ _ _ hin, getD_eq_getElem _ _ hin] at hz
  exact natText_no (by decide) (by decide) (by decide) _ (hz ▸ getElem_mem hin)

end

theorem prefix_of_padded {c : UInt8} {l text : List UInt8} {n : Nat} (hc : c ∉ l) (h : l <+: text ++ List.replicate n c) : l <+: text := by
  rcases prefix_or_prefix_of_prefix h (prefix_append ..) with h' | ⟨rest, rfl⟩
  · exact h'
  · have hrest := (prefix_append_right_inj text).mp h
    cases rest with
    | nil => rw [append_nil]
    | cons x rest =>
      have hx := hrest.subset mem_cons_self
      exact absurd (mem_append_right _ (eq_of_mem_replicate hx ▸ .head _)) hc

def PadFormat.Proper : PadFormat → Prop
  | .s text => 0 ∉ text
  | _ => True

/-- **When a column is rendered correctly.** A decimal one is overwritten with the hexadecimal digits of the whole word. -/
theorem pad_print_iff {bufLen : Nat} (h255 : bufLen ≤ 255) (buf : Mem) {f : PadFormat} (hf : f.Proper) (hlen : f.text.length < bufLen) :
    padPrint buf bufLen f = .ok (some (padText bufLen f.text)) ↔
      ∀ ptr, f = .d ptr → natText 16 (word ptr 0).toNat <+: f.text := by
  cases f with
  | s text =>
    obtain ⟨r, hrun, hpad, -⟩ := padPrint_once h255 (q := .str text) hf hlen buf
    exact iff_of_true ((congrArg (· >>= _) hrun).trans (congrArg Except.ok hpad)) nofun
  | x ptr =>
    obtain ⟨r, hrun, hpad, -⟩ := padPrint_once h255 (q := .hex (word ptr 0)) trivial hlen buf
    exact iff_of_true ((congrArg (· >>= _) hrun).trans (congrArg Except.ok hpad)) nofun
  | d ptr =>
    have hdec : (Piece.dec (int16At ptr)).text = (PadFormat.d ptr).text := by
      show intText (int16At ptr).toInt32.toInt = intText (int16Of ptr)
      rw [int16At, Int32.toInt32_toUInt32, Int16.toInt_toInt32]
      rfl
    obtain ⟨r, hrun, -, ht, hrest⟩ := padPrint_once h255 (q := .dec (int16At ptr)) trivial (by rwa [hdec]) buf
    have hno : 0 ∉ (PadFormat.d ptr).text := (intText_pos _).1
    simp only [hdec] at ht hrest
    rw [padPrint, show sprintf bufLen (fill buf 0 bufLen 0) [37, 100] [.word (int16At ptr)] = .ok r from hrun, ok_bind]
    generalize (PadFormat.d ptr).text = dec at *
    constructor
    · rintro h _ ⟨⟩
      obtain ⟨r', hsp, hpad⟩ := bind_ok.mp h
      obtain ⟨r2, ho, hpad2⟩ := sprintf_over h255 ht hrest hno hlen (sprintf_short hsp)
      cases hsp.symm.trans ho
      have heq := Option.some.inj (hpad2.symm.trans (Except.ok.inj hpad))
      have hpre : natText 16 (word ptr 0).toNat <+: padText bufLen dec := by
        rw [← heq, padText, append_assoc]
        exact prefix_append ..
      exact prefix_of_padded (natText_no (by decide) (by decide) (by decide) _) hpre
    · intro hpre
      have h := hpre ptr rfl
      obtain ⟨r2, ho, hpad⟩ := sprintf_over (w := word ptr 0) h255 ht hrest hno hlen (lt_of_le_of_lt h.length_le hlen)
      rw [prefix_iff_eq_append.mp h] at hpad
      rw [ho, ok_bind, hpad]
      rfl

theorem pad_print_iff_pid : padPrint (fun _ => 0) 16 (.d fun k => if k = 0 then 7 else 0) = .ok (some (padText 16 [55])) :=
  (pad_print_iff (f := .d fun k => if k = 0 then 7 else 0) (by decide) _ trivial (by decide +kernel)).mpr fun ptr e => by cases e; decide +kernel

/-- Process 10 is listed as `A0`. -/
theorem pad_print_ten : (PadFormat.d fun k => if k = 0 then 10 else 0).text = [49, 48] ∧
    (padPrint (fun _ => 0) 16 (.d fun k => if k = 0 then 10 else 0)).toOption = some (some (padText 16 [65, 48])) := by
  decide +kernel

end OperateSystem
