import CCode.Lib.Block
import CCode.Lib.Checked

/-!
# Sample widths of `wav.c`

`wav_expand_24bit_to_32bit` makes samples of three bytes into samples of four, in the buffer they
are in. It works from the last sample down, since the place of a sample is not before it; the first
three, whose places overlap with themselves, are copied away first. `wav_32bit_to_24bit` is the way
back, from the first sample up. Lengths are `int`s, and so is the number of the wide bytes.

## Main definitions

* `widen`, `narrow` — the samples, out of place.
* `wavExpand24bitTo32bit`, `wav32bitTo24bit` — in place.

## Main results

* `wavExpand_spec`, `wav32bitTo24bit_spec` — in place is out of place.
* `expand_iff` — all lengths, and back.
-/

namespace CCode.General

open CCode.Lib

/-! ## The functions of the source -/

/-- `dst[0] = src[0]; dst[1] = src[1]; dst[2] = src[2];` -/
def copySample (data : List UInt8) (dst src : ℤ) : Option (List UInt8) := do
  let data ← store data dst (← load data src)
  let data ← store data (dst + 1) (← load data (src + 1))
  store data (dst + 2) (← load data (src + 2))

/-- The loop of `wav_expand_24bit_to_32bit`, with the number of rounds that are left; what it
leaves in the buffer, `dst` and `src`. -/
def expandLoop : ℕ → List UInt8 → ℤ → ℤ → Option (List UInt8 × ℤ × ℤ)
  | 0, data, dst, src => some (data, dst, src)
  | rounds + 1, data, dst, src => do
      let data ← copySample data dst src
      let data ← store data (dst + 3) 0
      expandLoop rounds data (dst - 4) (src - 3)

/-- The first three samples, from `tmp_sample`. -/
def expandFirst (data tmpSample : List UInt8) : Option (List UInt8) := do
  let data ← storeAll data 0 [← load tmpSample 0, ← load tmpSample 1, ← load tmpSample 2, 0]
  let data ← storeAll data 4 [← load tmpSample 3, ← load tmpSample 4, ← load tmpSample 5, 0]
  storeAll data 8 [← load tmpSample 6, ← load tmpSample 7, ← load tmpSample 8, 0]

/-- `wav_expand_24bit_to_32bit`, on the buffer at `data`; `none` where an access is out of the
buffer, an `int` overflows or an assertion fails. -/
def wavExpand24bitTo32bit (data : List UInt8) (len : ℤ) : Option (List UInt8) := do
  let len := if len.tmod 3 ≠ 0 then len - len.tmod 3 else len
  let size ← int32 (len.tdiv 3 * 4)
  let (data, dst, src) ← expandLoop (len.tdiv 3 - 3).toNat data (size - 4) (len - 3)
  let tmpSample ← bytesAt data 0 9
  let data ← expandFirst data tmpSample
  let src := src - 6
  let dst := dst - 8
  if src = 0 ∧ dst = 0 then some data else none

/-- The loop of `wav_32bit_to_24bit`, with a bound on the number of its rounds. -/
def narrowLoop (len : ℤ) : ℕ → List UInt8 → ℤ → ℤ → ℤ → Option (List UInt8)
  | 0, data, i, _, _ => if i < len then none else some data
  | fuel + 1, data, i, dst, src =>
      if i < len then do
        let data ← copySample data dst src
        let i ← int32 (i + 4)
        narrowLoop len fuel data i (dst + 3) (src + 4)
      else some data

/-- `wav_32bit_to_24bit`. It has no more than `len` rounds. -/
def wav32bitTo24bit (data : List UInt8) (len : ℤ) : Option (List UInt8) :=
  narrowLoop len len.toNat data 0 0 0

/-! ## Out of place -/

/-- Each sample of three bytes followed by a zero byte. -/
def widen : List UInt8 → List UInt8
  | a :: b :: c :: rest => a :: b :: c :: 0 :: widen rest
  | _ => []

/-- Each sample of four bytes without its last one. -/
def narrow : List UInt8 → List UInt8
  | a :: b :: c :: _ :: rest => a :: b :: c :: narrow rest
  | _ => []

/-- The end of a block. -/
theorem exists_append {L : List UInt8} {n k : ℕ} (h : L.length = n + k) :
    ∃ A B, L = A ++ B ∧ A.length = n ∧ B.length = k :=
  ⟨L.take n, L.drop n, (List.take_append_drop n L).symm, by simp; omega, by simp; omega⟩

/-- A block of a whole number of entries has a first one. -/
theorem exists_three {L : List UInt8} {n : ℕ} (h : L.length = 3 * (n + 1)) :
    ∃ a b c rest, L = a :: b :: c :: rest ∧ rest.length = 3 * n := by
  obtain _ | ⟨a, _ | ⟨b, _ | ⟨c, rest⟩⟩⟩ := L
  · simp at h
  · simp at h; omega
  · simp at h; omega
  · exact ⟨a, b, c, rest, rfl, by simp at h; omega⟩

theorem exists_four {L : List UInt8} {n : ℕ} (h : L.length = 4 * (n + 1)) :
    ∃ a b c d rest, L = a :: b :: c :: d :: rest ∧ rest.length = 4 * n := by
  obtain _ | ⟨a, _ | ⟨b, _ | ⟨c, _ | ⟨d, rest⟩⟩⟩⟩ := L
  · simp at h
  · simp at h; omega
  · simp at h; omega
  · simp at h; omega
  · exact ⟨a, b, c, d, rest, rfl, by simp at h; omega⟩

theorem length_widen {S : List UInt8} {n : ℕ} (h : S.length = 3 * n) :
    (widen S).length = 4 * n := by
  induction n generalizing S with
  | zero =>
      obtain rfl := List.eq_nil_of_length_eq_zero h
      rfl
  | succ n ih =>
      obtain ⟨a, b, c, rest, rfl, hrest⟩ := exists_three h
      simp only [widen, List.length_cons, ih hrest]
      omega

theorem widen_append {S : List UInt8} (S' : List UInt8) {n : ℕ} (h : S.length = 3 * n) :
    widen (S ++ S') = widen S ++ widen S' := by
  induction n generalizing S with
  | zero =>
      obtain rfl := List.eq_nil_of_length_eq_zero h
      rfl
  | succ n ih =>
      obtain ⟨a, b, c, rest, rfl, hrest⟩ := exists_three h
      simp only [List.cons_append, widen, ih hrest]

/-- **There and back.** -/
theorem narrow_widen {S : List UInt8} {n : ℕ} (h : S.length = 3 * n) : narrow (widen S) = S := by
  induction n generalizing S with
  | zero =>
      obtain rfl := List.eq_nil_of_length_eq_zero h
      rfl
  | succ n ih =>
      obtain ⟨a, b, c, rest, rfl, hrest⟩ := exists_three h
      simp only [widen, narrow, ih hrest]

/-! ## One sample -/

/-- **A sample is copied** where its place is behind it or not behind its start. -/
theorem copySample_spec {pre post : List UInt8} {x y z a b c : UInt8} {dst src : ℤ}
    (hdst : dst = pre.length) (hno : src + 2 < dst ∨ dst ≤ src)
    (ha : load (pre ++ x :: y :: z :: post) src = some a)
    (hb : load (pre ++ x :: y :: z :: post) (src + 1) = some b)
    (hc : load (pre ++ x :: y :: z :: post) (src + 2) = some c) :
    copySample (pre ++ x :: y :: z :: post) dst src = some (pre ++ a :: b :: c :: post) := by
  -- what is still to be read is not written before
  have hb' : load (pre ++ a :: y :: z :: post) (src + 1) = some b := by
    rw [← hb]
    exact load_append_of_ne (by omega)
  have hc' : load (pre ++ a :: b :: z :: post) (src + 2) = some c := by
    have hstep : load ((pre ++ [a]) ++ b :: z :: post) (src + 2)
        = load ((pre ++ [a]) ++ y :: z :: post) (src + 2) :=
      load_append_of_ne (by simp; omega)
    simp only [List.append_assoc, List.singleton_append] at hstep
    rw [hstep, ← hc]
    exact load_append_of_ne (by omega)
  have h₁ : store ((pre ++ [a]) ++ y :: z :: post) (dst + 1) b
      = some ((pre ++ [a]) ++ b :: z :: post) :=
    store_append (by simp [hdst]) b
  have h₂ : store ((pre ++ [a, b]) ++ z :: post) (dst + 2) c
      = some ((pre ++ [a, b]) ++ c :: post) :=
    store_append (by simp [hdst]) c
  simp only [List.append_assoc, List.cons_append, List.nil_append] at h₁ h₂
  simp only [copySample, ha, hb', hc', h₁, h₂, store_append hdst, Option.bind_eq_bind,
    Option.bind_some]

/-! ## In place -/

/-- One round: the last of the narrow samples gets the end of what is free behind them. -/
theorem expandLoop_succ {n : ℕ} {S J D : List UInt8} {a b c x y z w : UInt8} {dst src : ℤ}
    (hsrc : src = S.length) (hdst : dst = S.length + 3 + J.length) :
    expandLoop (n + 1) (S ++ [a, b, c] ++ (J ++ [x, y, z, w] ++ D)) dst src
      = expandLoop n (S ++ (a :: b :: c :: J ++ (a :: b :: c :: 0 :: D))) (dst - 4) (src - 3) := by
  have hdata : S ++ [a, b, c] ++ (J ++ [x, y, z, w] ++ D)
      = (S ++ a :: b :: c :: J) ++ x :: y :: z :: (w :: D) := by
    simp
  -- the sample is in front of its place
  have hcopy : copySample ((S ++ a :: b :: c :: J) ++ x :: y :: z :: (w :: D)) dst src
      = some ((S ++ a :: b :: c :: J) ++ a :: b :: c :: (w :: D)) := by
    refine copySample_spec (by simp; omega) (.inl (by omega)) ?_ ?_ ?_
    · rw [List.append_assoc]
      exact load_append hsrc
    · rw [List.append_assoc, List.cons_append, List.append_cons]
      exact load_append (by simp [hsrc])
    · rw [List.append_assoc, List.cons_append, List.append_cons, List.cons_append,
        List.append_cons]
      exact load_append (by simp; omega)
  have hzero : store ((S ++ a :: b :: c :: J ++ [a, b, c]) ++ w :: D) (dst + 3) 0
      = some ((S ++ a :: b :: c :: J ++ [a, b, c]) ++ 0 :: D) :=
    store_append (by simp; omega) 0
  simp only [List.append_assoc, List.cons_append, List.nil_append] at hcopy hzero
  rw [hdata, expandLoop]
  simp only [List.append_assoc, List.cons_append, hcopy, hzero, Option.bind_eq_bind,
    Option.bind_some]

/-- The loop leaves three samples, with their places free, and has widened the others. -/
theorem expandLoop_spec {n : ℕ} {S J D : List UInt8} {dst src : ℤ} (hS : S.length = 3 * (n + 3))
    (hJ : J.length = n + 3) (hdst : dst = 4 * (n + 2)) (hsrc : src = 3 * (n + 2)) :
    ∃ J', J'.length = 3 ∧ expandLoop n (S ++ (J ++ D)) dst src
      = some (S.take 9 ++ (J' ++ (widen (S.drop 9) ++ D)), 8, 6) := by
  induction n generalizing S J D dst src with
  | zero =>
      refine ⟨J, hJ, ?_⟩
      rw [expandLoop, List.take_of_length_le (by omega), List.drop_of_length_le (by omega)]
      simp [widen, hdst, hsrc]
  | succ n ih =>
      obtain ⟨S', t, rfl, hS', ht⟩ := exists_append (n := 3 * (n + 3)) (k := 3) (by rw [hS]; omega)
      obtain ⟨J₁, u, rfl, hJ₁, hu⟩ := exists_append (n := n) (k := 4) hJ
      obtain ⟨a, b, c, rfl⟩ := List.length_eq_three.mp ht
      obtain ⟨x, y, z, w, rest, rfl, hrest⟩ := exists_four (n := 0) hu
      obtain rfl := List.eq_nil_of_length_eq_zero hrest
      have hfree : (a :: b :: c :: J₁).length = n + 3 := by simp [hJ₁]
      have hdst' : dst - 4 = 4 * (n + 2) := by
        push_cast at hdst
        omega
      have hsrc' : src - 3 = 3 * (n + 2) := by
        push_cast at hsrc
        omega
      obtain ⟨J', hJ', hrun⟩ := ih (D := a :: b :: c :: 0 :: D) hS' hfree hdst' hsrc'
      have hwiden : widen ((S' ++ [a, b, c]).drop 9) = widen (S'.drop 9) ++ [a, b, c, 0] := by
        have hlen : (S'.drop 9).length = 3 * n := by
          simp
          omega
        rw [List.drop_append_of_le_length (by omega), widen_append [a, b, c] hlen]
        rfl
      refine ⟨J', hJ', ?_⟩
      rw [expandLoop_succ (by omega) (by omega), hrun, List.take_append_of_le_length (by omega),
        hwiden]
      simp

/-- The first three samples are widened from their copy. -/
theorem expandFirst_spec {T J : List UInt8} (R : List UInt8) (hT : T.length = 9)
    (hJ : J.length = 3) : expandFirst (T ++ (J ++ R)) T = some (widen T ++ R) := by
  obtain ⟨t₀, t₁, t₂, T', rfl, hT'⟩ := exists_three (n := 2) hT
  obtain ⟨t₃, t₄, t₅, T'', rfl, hT''⟩ := exists_three (n := 1) hT'
  obtain ⟨t₆, t₇, t₈, rest, rfl, hrest⟩ := exists_three (n := 0) hT''
  obtain rfl := List.eq_nil_of_length_eq_zero hrest
  obtain ⟨j₀, j₁, j₂, rfl⟩ := List.length_eq_three.mp hJ
  have h₀ : storeAll ([] ++ ([t₀, t₁, t₂, t₃] ++ ([t₄, t₅, t₆, t₇, t₈, j₀, j₁, j₂] ++ R))) 0
      [t₀, t₁, t₂, 0] = some ([] ++ ([t₀, t₁, t₂, 0] ++ ([t₄, t₅, t₆, t₇, t₈, j₀, j₁, j₂] ++ R))) :=
    storeAll_append rfl rfl
  have h₁ : storeAll ([t₀, t₁, t₂, 0] ++ ([t₄, t₅, t₆, t₇] ++ ([t₈, j₀, j₁, j₂] ++ R))) 4
      [t₃, t₄, t₅, 0] = some ([t₀, t₁, t₂, 0] ++ ([t₃, t₄, t₅, 0] ++ ([t₈, j₀, j₁, j₂] ++ R))) :=
    storeAll_append rfl rfl
  have h₂ : storeAll ([t₀, t₁, t₂, 0, t₃, t₄, t₅, 0] ++ ([t₈, j₀, j₁, j₂] ++ R)) 8
      [t₆, t₇, t₈, 0] = some ([t₀, t₁, t₂, 0, t₃, t₄, t₅, 0] ++ ([t₆, t₇, t₈, 0] ++ R)) :=
    storeAll_append rfl rfl
  simp only [List.nil_append, List.cons_append] at h₀ h₁ h₂
  simp only [expandFirst, load, List.cons_append, List.nil_append, widen]
  simp [h₀, h₁, h₂]

/-- **The buffer gets what it gets out of place**, and the assertions hold. -/
theorem wavExpand_spec {n : ℕ} {S J D : List UInt8} {len : ℤ} (hS : S.length = 3 * (n + 3))
    (hJ : J.length = n + 3) (hlen : len - len.tmod 3 = 3 * (n + 3)) (hint : 4 * (n + 3) < 2 ^ 31) :
    wavExpand24bitTo32bit (S ++ (J ++ D)) len = some (widen S ++ D) := by
  have hround : (if len.tmod 3 ≠ 0 then len - len.tmod 3 else len) = 3 * (n + 3) := by
    split_ifs with h
    · exact hlen
    · omega
  have hdiv : (3 * (n + 3) : ℤ).tdiv 3 = n + 3 := by
    rw [Int.mul_tdiv_cancel_left _ (by decide)]
  have hsize : int32 ((n + 3 : ℤ) * 4) = some ((n + 3 : ℤ) * 4) := int32_of_lt (by omega) (by omega)
  have hrounds : (n + 3 - 3 : ℤ).toNat = n := by omega
  obtain ⟨J', hJ', hloop⟩ := expandLoop_spec (D := D) hS hJ
    (show (n + 3 : ℤ) * 4 - 4 = 4 * (n + 2) by omega)
    (show (3 * (n + 3) : ℤ) - 3 = 3 * (n + 2) by omega)
  obtain ⟨T, S', rfl, hT, hS'⟩ := exists_append (n := 9) (k := 3 * n) (by rw [hS]; omega)
  rw [List.take_left' hT, List.drop_left' hT] at hloop
  have htmp : bytesAt (T ++ (J' ++ (widen S' ++ D))) 0 9 = some T := by
    have hread := bytesAt_append [] T (J' ++ (widen S' ++ D))
    rwa [hT] at hread
  have hlast := expandFirst_spec (widen S' ++ D) hT hJ'
  rw [wavExpand24bitTo32bit]
  rw [hround, hdiv, hsize, Option.bind_eq_bind, Option.bind_some, hrounds, hloop,
    Option.bind_eq_bind, Option.bind_some]
  dsimp only
  rw [htmp, Option.bind_eq_bind, Option.bind_some, hlast, Option.bind_some,
    if_pos (by decide), ← List.append_assoc, ← widen_append S' (n := 3) hT]

/-- One round: the place of a sample begins before it, and the rest of the place is free behind. -/
theorem narrowLoop_succ {fuel : ℕ} {X Y Y' R : List UInt8} {a b c d x y z : UInt8}
    {len i dst src : ℤ} (hdst : dst = X.length) (hsrc : src = X.length + Y.length)
    (hplace : Y ++ [a, b, c, d] = [x, y, z] ++ Y') (hi₀ : 0 ≤ i) (hi : i < len)
    (hint : i + 4 < 2 ^ 31) :
    narrowLoop len (fuel + 1) (X ++ (Y ++ a :: b :: c :: d :: R)) i dst src
      = narrowLoop len fuel (X ++ [a, b, c] ++ (Y' ++ R)) (i + 4) (dst + 3) (src + 4) := by
  have hbehind : Y ++ a :: b :: c :: d :: R = x :: y :: z :: (Y' ++ R) := by
    have hboth := congrArg (fun L => L ++ R) hplace
    simpa using hboth
  have hdata : X ++ x :: y :: z :: (Y' ++ R) = (X ++ Y) ++ a :: b :: c :: d :: R := by
    rw [← hbehind, List.append_assoc]
  have hcopy : copySample (X ++ x :: y :: z :: (Y' ++ R)) dst src
      = some (X ++ a :: b :: c :: (Y' ++ R)) := by
    refine copySample_spec hdst (.inr (by omega)) ?_ ?_ ?_
    · rw [hdata]
      exact load_append (by simp [hsrc])
    · rw [hdata, List.append_cons]
      exact load_append (by simp; omega)
    · rw [hdata, List.append_cons, List.append_cons]
      exact load_append (by simp; omega)
  rw [hbehind, narrowLoop, if_pos hi, hcopy, Option.bind_eq_bind, Option.bind_some,
    int32_of_lt (by omega) hint, Option.bind_eq_bind, Option.bind_some]
  simp

/-- The loop leaves the samples that it has not narrowed where they are. -/
theorem narrowLoop_spec {n k fuel : ℕ} {X Y W D : List UInt8} {len i dst src : ℤ}
    (hX : X.length = 3 * k) (hY : Y.length = k) (hW : W.length = 4 * n) (hi : i = 4 * k)
    (hdst : dst = 3 * k) (hsrc : src = 4 * k) (hlen : len = 4 * (k + n)) (hint : len < 2 ^ 31)
    (hfuel : n ≤ fuel) :
    ∃ Y', Y'.length = k + n ∧ narrowLoop len fuel (X ++ (Y ++ (W ++ D))) i dst src
      = some (X ++ (narrow W ++ (Y' ++ D))) := by
  induction n generalizing k fuel X Y W i dst src with
  | zero =>
      obtain rfl := List.eq_nil_of_length_eq_zero hW
      refine ⟨Y, hY, ?_⟩
      have hend : ¬ i < len := by omega
      cases fuel with
      | zero => simp [narrowLoop, hend, narrow]
      | succ fuel => simp [narrowLoop, hend, narrow]
  | succ n ih =>
      obtain ⟨fuel, rfl⟩ : ∃ l, fuel = l + 1 := ⟨fuel - 1, by omega⟩
      obtain ⟨a, b, c, d, W', rfl, hW'⟩ := exists_four hW
      have hfree : (Y ++ [a, b, c, d]).length = 3 + (k + 1) := by
        simp [hY]
        omega
      obtain ⟨U, Y', hplace, hU, hY'⟩ := exists_append hfree
      obtain ⟨x, y, z, rfl⟩ := List.length_eq_three.mp hU
      have hX' : (X ++ [a, b, c]).length = 3 * (k + 1) := by
        simp
        omega
      have hi' : i + 4 = 4 * ((k + 1 : ℕ) : ℤ) := by
        push_cast
        omega
      have hdst' : dst + 3 = 3 * ((k + 1 : ℕ) : ℤ) := by
        push_cast
        omega
      have hsrc' : src + 4 = 4 * ((k + 1 : ℕ) : ℤ) := by
        push_cast
        omega
      have hlen' : len = 4 * (((k + 1 : ℕ) : ℤ) + n) := by
        push_cast at hlen ⊢
        omega
      obtain ⟨Y'', hY'', hrun⟩ := ih hX' hY' hW' hi' hdst' hsrc' hlen'
        (Nat.le_of_succ_le_succ hfuel)
      refine ⟨Y'', by omega, ?_⟩
      rw [List.cons_append, List.cons_append, List.cons_append, List.cons_append,
        narrowLoop_succ (by omega) (by omega) hplace (by omega) (by omega) (by omega), hrun, narrow]
      simp

/-- **The samples are narrowed in place.** -/
theorem wav32bitTo24bit_spec {n : ℕ} {W D : List UInt8} {len : ℤ} (hW : W.length = 4 * n)
    (hlen : len = 4 * n) (hint : len < 2 ^ 31) :
    ∃ Y, Y.length = n ∧ wav32bitTo24bit (W ++ D) len = some (narrow W ++ (Y ++ D)) := by
  have hzero : ∀ m : ℤ, (0 : ℤ) = m * ((0 : ℕ) : ℤ) := fun m => by simp
  obtain ⟨Y, hY, hloop⟩ := narrowLoop_spec (k := 0) (X := []) (Y := []) (D := D) rfl rfl hW
    (hzero 4) (hzero 3) (hzero 4) (show len = 4 * (((0 : ℕ) : ℤ) + n) by simp [hlen]) hint
    (show n ≤ len.toNat by omega)
  rw [zero_add] at hY
  exact ⟨Y, hY, hloop⟩

/-! ## All lengths -/

/-- **A length of at least three samples**, in a buffer that holds the wide samples: they are in it
as they are out of place, nothing behind is changed, and narrowed they are what they were, exactly
if the number of the bytes is one that an `int` can hold. -/
theorem expand_iff (data : List UInt8) (len : ℤ) (hlen : 3 ≤ len.tdiv 3)
    (hfit : len.tdiv 3 * 4 ≤ data.length) :
    (∃ wide, wavExpand24bitTo32bit data len = some wide ∧
      wide = widen (data.take (len - len.tmod 3).toNat) ++ data.drop (len.tdiv 3 * 4).toNat ∧
      ∃ back, wav32bitTo24bit wide (len.tdiv 3 * 4) = some back ∧
        back.take (len - len.tmod 3).toNat = data.take (len - len.tmod 3).toNat) ↔
      len.tdiv 3 * 4 < 2 ^ 31 := by
  have hmod : len - len.tmod 3 = 3 * len.tdiv 3 := by
    have hdiv := Int.mul_tdiv_add_tmod len 3
    omega
  have htwice : (if len.tmod 3 ≠ 0 then len - len.tmod 3 else len).tdiv 3 = len.tdiv 3 := by
    have hround : (if len.tmod 3 ≠ 0 then len - len.tmod 3 else len) = 3 * len.tdiv 3 := by
      split_ifs with h
      · exact hmod
      · omega
    rw [hround, Int.mul_tdiv_cancel_left _ (by decide)]
  constructor
  · rintro ⟨wide, hwide, -⟩
    by_contra hbig
    rw [wavExpand24bitTo32bit, htwice, int32_eq_none (not_lt.mp hbig)] at hwide
    cases hwide
  · intro hint
    obtain ⟨n, hn⟩ : ∃ n : ℕ, len.tdiv 3 = n + 3 := ⟨(len.tdiv 3 - 3).toNat, by omega⟩
    have hnat : (len - len.tmod 3).toNat = 3 * (n + 3) := by omega
    have hnat' : (len.tdiv 3 * 4).toNat = 4 * (n + 3) := by omega
    obtain ⟨S, R, rfl, hS, hR⟩ := exists_append (L := data) (n := 3 * (n + 3))
      (k := data.length - 3 * (n + 3)) (by omega)
    obtain ⟨J, D, rfl, hJ, -⟩ := exists_append (L := R) (n := n + 3)
      (k := R.length - (n + 3)) (by omega)
    have hdrop : (S ++ (J ++ D)).drop (4 * (n + 3)) = D := by
      rw [← List.append_assoc]
      exact List.drop_left' (by simp; omega)
    obtain ⟨Y, -, hback⟩ := wav32bitTo24bit_spec (D := D) (length_widen hS)
      (show len.tdiv 3 * 4 = 4 * ((n + 3 : ℕ) : ℤ) by push_cast; omega) hint
    rw [narrow_widen hS] at hback
    refine ⟨widen S ++ D, wavExpand_spec hS hJ (by omega) (by omega), ?_, _, hback, ?_⟩
    · rw [hnat, hnat', List.take_left' hS, hdrop]
    · rw [hnat, List.take_left' hS, List.take_left' hS]

theorem expand_iff_four :
    ∃ wide, wavExpand24bitTo32bit [1, 2, 3, 4, 5, 6, 7, 8, 9, 10, 11, 12, 13, 0, 0, 0, 0] 13
      = some wide ∧
      wide = widen ([1, 2, 3, 4, 5, 6, 7, 8, 9, 10, 11, 12, 13, 0, 0, 0, 0].take 12) ++ [0] := by
  obtain ⟨wide, hwide, heq, -⟩ := (expand_iff
    [1, 2, 3, 4, 5, 6, 7, 8, 9, 10, 11, 12, 13, 0, 0, 0, 0] 13 (by decide) (by decide)).mpr
    (by decide)
  exact ⟨wide, hwide, heq⟩

/-- In a buffer of two gigabytes the number of the bytes is too large for an `int`. -/
theorem expand_overflows :
    3 ≤ (1610612736 : ℤ).tdiv 3 ∧
      (1610612736 : ℤ).tdiv 3 * 4 ≤ (List.replicate 2147483648 (0 : UInt8)).length ∧
      wavExpand24bitTo32bit (List.replicate 2147483648 0) 1610612736 = none := by
  refine ⟨by decide, ?_, ?_⟩
  · rw [List.length_replicate]
    decide
  · rw [wavExpand24bitTo32bit, int32_eq_none (by decide)]
    rfl

end CCode.General
