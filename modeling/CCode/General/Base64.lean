import CCode.Lib.Block
import CCode.Lib.Scan
import CCode.Lib.Sextets
import Mathlib.Data.List.TakeWhile

/-!
# Base64

`Base64encode` writes four characters for three bytes and closes the last four with `=`.
`Base64decode` takes the characters up to the first that is none of the alphabet, which may be a
`=`, the end of the string or anything else, and writes what their bits make. Both write one byte behind
what they return.

## Main definitions

* `base64encode`, `base64decode` — the functions.
* `code` — the characters for some bytes.

## Main results

* `base64encode_spec`, `base64decode_spec` — what they write and return, in a block of any length.
* `base64_round_trip` — bytes come back.
* `base64decode_canonical` — characters come back if and only if they are whole.
-/

namespace CCode.General

open CCode.Lib

/-! ## The functions of the source -/

/-- `pr2six`. -/
def pr2sixTable : List ℕ :=
  [64, 64, 64, 64, 64, 64, 64, 64, 64, 64, 64, 64, 64, 64, 64, 64,
   64, 64, 64, 64, 64, 64, 64, 64, 64, 64, 64, 64, 64, 64, 64, 64,
   64, 64, 64, 64, 64, 64, 64, 64, 64, 64, 64, 62, 64, 64, 64, 63,
   52, 53, 54, 55, 56, 57, 58, 59, 60, 61, 64, 64, 64, 64, 64, 64,
   64,  0,  1,  2,  3,  4,  5,  6,  7,  8,  9, 10, 11, 12, 13, 14,
   15, 16, 17, 18, 19, 20, 21, 22, 23, 24, 25, 64, 64, 64, 64, 64,
   64, 26, 27, 28, 29, 30, 31, 32, 33, 34, 35, 36, 37, 38, 39, 40,
   41, 42, 43, 44, 45, 46, 47, 48, 49, 50, 51, 64, 64, 64, 64, 64,
   64, 64, 64, 64, 64, 64, 64, 64, 64, 64, 64, 64, 64, 64, 64, 64,
   64, 64, 64, 64, 64, 64, 64, 64, 64, 64, 64, 64, 64, 64, 64, 64,
   64, 64, 64, 64, 64, 64, 64, 64, 64, 64, 64, 64, 64, 64, 64, 64,
   64, 64, 64, 64, 64, 64, 64, 64, 64, 64, 64, 64, 64, 64, 64, 64,
   64, 64, 64, 64, 64, 64, 64, 64, 64, 64, 64, 64, 64, 64, 64, 64,
   64, 64, 64, 64, 64, 64, 64, 64, 64, 64, 64, 64, 64, 64, 64, 64,
   64, 64, 64, 64, 64, 64, 64, 64, 64, 64, 64, 64, 64, 64, 64, 64,
   64, 64, 64, 64, 64, 64, 64, 64, 64, 64, 64, 64, 64, 64, 64, 64]

/-- `pr2six[c]`. -/
def pr2six (c : UInt8) : UInt8 := UInt8.ofNat (pr2sixTable.getD c.toNat 64)

/-- `basis_64`. -/
def basis64 : List UInt8 :=
  ascii "ABCDEFGHIJKLMNOPQRSTUVWXYZabcdefghijklmnopqrstuvwxyz0123456789+/"

/-- `basis_64[v]`. -/
def basis (v : UInt8) : UInt8 := basis64.getD v.toNat 0

/-- `'='`. -/
def pad : UInt8 := 61

/-- The loop of `Base64encode`, with `len - i`: it goes on as long as `i < len - 2`. What it leaves
is `i`, the block at `encoded`, and `p`. With the masks it does not matter whether a `char` has a
sign. -/
def encodeLoop (string : List UInt8) :
    ℕ → ℤ → List UInt8 → ℤ → Option (ℤ × List UInt8 × ℤ)
  | n + 3, i, encoded, p => do
      let s₀ ← load string i
      let s₁ ← load string (i + 1)
      let s₂ ← load string (i + 2)
      let encoded ← storeAll encoded p [basis ((s₀ >>> 2) &&& 0x3f),
        basis (((s₀ &&& 0x3) <<< 4) ||| ((s₁ &&& 0xf0) >>> 4)),
        basis (((s₁ &&& 0xf) <<< 2) ||| ((s₂ &&& 0xc0) >>> 6)), basis (s₂ &&& 0x3f)]
      encodeLoop string n (i + 3) encoded (p + 4)
  | _, i, encoded, p => some (i, encoded, p)

/-- What `Base64encode` writes behind the loop; the block, and `p`. -/
def encodeTail (string : List UInt8) (len i : ℤ) (encoded : List UInt8) (p : ℤ) :
    Option (List UInt8 × ℤ) :=
  if i < len then do
    let s₀ ← load string i
    let encoded ← store encoded p (basis ((s₀ >>> 2) &&& 0x3f))
    if i = len - 1 then
      let encoded ← storeAll encoded (p + 1) [basis ((s₀ &&& 0x3) <<< 4), pad]
      let encoded ← store encoded (p + 3) pad
      some (encoded, p + 4)
    else
      let s₁ ← load string (i + 1)
      let encoded ← storeAll encoded (p + 1)
        [basis (((s₀ &&& 0x3) <<< 4) ||| ((s₁ &&& 0xf0) >>> 4)), basis ((s₁ &&& 0xf) <<< 2)]
      let encoded ← store encoded (p + 3) pad
      some (encoded, p + 4)
  else some (encoded, p)

/-- `Base64encode`: the block at `encoded`, and what is returned; `none` where an access is out of a
block, or an `int` cannot hold a value. -/
def base64encode (encoded string : List UInt8) (len : ℤ) : Option (List UInt8 × ℤ) := do
  let (i, encoded, p) ← encodeLoop string len.toNat 0 encoded 0
  let (encoded, p) ← encodeTail string len i encoded p
  let encoded ← store encoded p 0
  some (encoded, ← int32 p)

/-- `while (pr2six[*(bufin++)] <= 63);` and the number of characters before the one that ends it. -/
def scanCoded : List UInt8 → Option ℕ
  | [] => none
  | c :: cs => if pr2six c ≤ 63 then (scanCoded cs).map (· + 1) else some 0

/-- `pr2six[bufin[k]]`. -/
def sextetAt (bufcoded : List UInt8) (bufin : ℤ) : Option UInt8 :=
  (load bufcoded bufin).map pr2six

/-- The loop of `Base64decode`, while `nprbytes > 4`; what it leaves is `nprbytes`, `bufin`, the
block at `bufplain`, and `bufout`. -/
def decodeLoop (bufcoded : List UInt8) :
    ℕ → ℤ → List UInt8 → ℤ → Option (ℕ × ℤ × List UInt8 × ℤ)
  | n + 5, bufin, plain, bufout => do
      let v₀ ← sextetAt bufcoded bufin
      let v₁ ← sextetAt bufcoded (bufin + 1)
      let v₂ ← sextetAt bufcoded (bufin + 2)
      let v₃ ← sextetAt bufcoded (bufin + 3)
      let plain ← storeAll plain bufout
        [(v₀ <<< 2) ||| (v₁ >>> 4), (v₁ <<< 4) ||| (v₂ >>> 2), (v₂ <<< 6) ||| v₃]
      decodeLoop bufcoded (n + 1) (bufin + 4) plain (bufout + 3)
  | n, bufin, plain, bufout => some (n, bufin, plain, bufout)

/-- What `Base64decode` writes behind the loop; the block, and `bufout`. -/
def decodeTail (bufcoded : List UInt8) (nprbytes : ℕ) (bufin : ℤ) (plain : List UInt8)
    (bufout : ℤ) : Option (List UInt8 × ℤ) := do
  let (plain, bufout) ←
    if nprbytes > 1 then do
      let v₀ ← sextetAt bufcoded bufin
      let v₁ ← sextetAt bufcoded (bufin + 1)
      let plain ← store plain bufout ((v₀ <<< 2) ||| (v₁ >>> 4))
      some (plain, bufout + 1)
    else some (plain, bufout)
  let (plain, bufout) ←
    if nprbytes > 2 then do
      let v₁ ← sextetAt bufcoded (bufin + 1)
      let v₂ ← sextetAt bufcoded (bufin + 2)
      let plain ← store plain bufout ((v₁ <<< 4) ||| (v₂ >>> 2))
      some (plain, bufout + 1)
    else some (plain, bufout)
  if nprbytes > 3 then do
    let v₂ ← sextetAt bufcoded (bufin + 2)
    let v₃ ← sextetAt bufcoded (bufin + 3)
    let plain ← store plain bufout ((v₂ <<< 6) ||| v₃)
    some (plain, bufout + 1)
  else some (plain, bufout)

/-- `Base64decode`: the block at `bufplain`, and what is returned; `none` as above. -/
def base64decode (bufplain bufcoded : List UInt8) : Option (List UInt8 × ℤ) := do
  let nprbytes ← scanCoded bufcoded
  let nbytesdecoded := (← int32 (nprbytes + 3)).tdiv 4 * 3
  let (nprbytes, bufin, plain, bufout) ← decodeLoop bufcoded nprbytes 0 bufplain 0
  let (plain, bufout) ← decodeTail bufcoded nprbytes bufin plain bufout
  let plain ← store plain bufout 0
  -- at most four are left
  some (plain, nbytesdecoded - ((4 - nprbytes) &&& 3 : ℕ))

/-! ## What is written -/

/-- The characters for some bytes. -/
def code (s : List UInt8) : List UInt8 :=
  (sextets s).map basis ++ List.replicate ((3 - s.length % 3) % 3) pad

theorem code_cons (a b c : UInt8) (rest : List UInt8) :
    code (a :: b :: c :: rest) = [basis ((a >>> 2) &&& 0x3f),
      basis (((a &&& 0x3) <<< 4) ||| ((b &&& 0xf0) >>> 4)),
      basis (((b &&& 0xf) <<< 2) ||| ((c &&& 0xc0) >>> 6)), basis (c &&& 0x3f)] ++ code rest := by
  have hlen : (a :: b :: c :: rest).length % 3 = rest.length % 3 := by
    simp only [List.length_cons]
    omega
  rw [code, code, hlen, sextets]
  rfl

theorem length_code (s : List UInt8) : (code s).length = 4 * ((s.length + 2) / 3) := by
  rw [code, List.length_append, List.length_map, length_sextets, List.length_replicate]
  omega

/-- The last four characters. -/
theorem store_four (encoded : List UInt8) (p : ℤ) (c₀ c₁ c₂ c₃ : UInt8) :
    ((store encoded p c₀).bind fun encoded => (storeAll encoded (p + 1) [c₁, c₂]).bind
        fun encoded => (store encoded (p + 3) c₃).bind fun encoded => some (encoded, p + 4))
      = (storeAll encoded p [c₀, c₁, c₂, c₃]).map fun encoded => (encoded, p + 4) := by
  simp only [storeAll, Option.bind_eq_bind, Option.bind_assoc, Option.bind_some,
    Option.map_eq_bind, Function.comp_def, add_assoc, Int.reduceAdd]

/-- The characters are written one behind the other. -/
theorem encodeLoop_bind_encodeTail {string pre post s : List UInt8} {i : ℤ}
    (hstring : string = pre ++ (s ++ post)) (hi : i = pre.length) (encoded : List UInt8) (p : ℤ) :
    ((encodeLoop string s.length i encoded p).bind fun x =>
        encodeTail string (i + s.length) x.1 x.2.1 x.2.2)
      = (storeAll encoded p (code s)).map fun encoded => (encoded, p + (code s).length) := by
  induction s using sextets.induct generalizing pre i encoded p with
  | case1 a b c rest ih =>
      have h₀ : load string i = some a := load_of_eq pre _ hstring hi
      have h₁ : load string (i + 1) = some b :=
        load_of_eq (pre ++ [a]) (c :: (rest ++ post)) (by simp [hstring]) (by simp [hi])
      have h₂ : load string (i + 2) = some c :=
        load_of_eq (pre ++ [a, b]) (rest ++ post) (by simp [hstring]) (by simp [hi])
      have hlen : (a :: b :: c :: rest).length = rest.length + 3 := rfl
      have hrest : i + ((rest.length + 3 : ℕ) : ℤ) = i + 3 + rest.length := by
        push_cast
        ring
      rw [hlen, encodeLoop, h₀, h₁, h₂, hrest, code_cons, storeAll_add]
      simp only [Option.bind_eq_bind, Option.bind_some, Option.bind_assoc, Option.map_bind]
      congr 1
      funext encoded
      have hnext := @ih (pre ++ [a, b, c]) (i + 3) (by simp [hstring]) (by simp [hi]) encoded
        (p + 4)
      rw [hnext, List.length_append]
      congr 1
      funext encoded
      push_cast
      rw [List.length_cons, List.length_cons, List.length_cons, List.length_singleton]
      push_cast
      ring_nf
  | case2 a b =>
      have h₀ : load string i = some a := load_of_eq pre _ hstring hi
      have h₁ : load string (i + 1) = some b :=
        load_of_eq (pre ++ [a]) post (by simp [hstring]) (by simp [hi])
      have hloop : encodeLoop string [a, b].length i encoded p = some (i, encoded, p) := rfl
      have hlast : ¬i = i + ([a, b].length : ℤ) - 1 := by
        rw [show ([a, b].length : ℤ) = 2 from rfl]
        omega
      rw [hloop, Option.bind_some, encodeTail, if_pos (by simp), h₀, Option.bind_eq_bind,
        Option.bind_some]
      simp only [if_neg hlast, h₁, Option.bind_eq_bind, Option.bind_some]
      exact store_four encoded p _ _ _ _
  | case3 a =>
      have h₀ : load string i = some a := load_of_eq pre _ hstring hi
      have hloop : encodeLoop string [a].length i encoded p = some (i, encoded, p) := rfl
      have hlast : i = i + ([a].length : ℤ) - 1 := by
        rw [show ([a].length : ℤ) = 1 from rfl]
        omega
      rw [hloop, Option.bind_some, encodeTail, if_pos (by simp), h₀, Option.bind_eq_bind,
        Option.bind_some]
      simp only [if_pos hlast]
      exact store_four encoded p _ _ _ _
  | case4 =>
      have hloop : encodeLoop string 0 i encoded p = some (i, encoded, p) := rfl
      rw [List.length_nil, hloop, Option.bind_some, encodeTail, if_neg (by simp)]
      simp [code, sextets, storeAll]

/-- A string with the byte that ends it. -/
theorem storeAll_string (b vs : List UInt8) :
    storeAll b 0 (vs ++ [0]) =
      if vs.length < b.length then some (vs ++ 0 :: b.drop (vs.length + 1)) else none := by
  rw [storeAll_zero _ (by simp), List.length_append, List.length_singleton, List.append_assoc,
    List.singleton_append]
  rfl

/-- **What `Base64encode` does**, in a block that holds the characters and the byte behind them. -/
theorem base64encode_spec {s : List UInt8} (hs : 4 * ((s.length + 2) / 3) < 2 ^ 31)
    (encoded post : List UInt8) :
    base64encode encoded (s ++ post) s.length =
      if (code s).length < encoded.length then
        some (code s ++ 0 :: encoded.drop ((code s).length + 1), ((code s).length : ℤ))
      else none := by
  have hwritten := @encodeLoop_bind_encodeTail (s ++ post) [] post s 0 rfl rfl encoded 0
  have hint : int32 ((code s).length : ℤ) = some ((code s).length : ℤ) :=
    int32_of_lt (Int.natCast_nonneg _) (by rw [length_code]; exact_mod_cast hs)
  have hall : base64encode encoded (s ++ post) s.length
      = ((encodeLoop (s ++ post) s.length 0 encoded 0).bind fun x =>
          encodeTail (s ++ post) (0 + s.length) x.1 x.2.1 x.2.2).bind fun y =>
            (store y.1 y.2 0).bind fun encoded => (int32 y.2).bind fun r => some (encoded, r) := by
    rw [base64encode, Int.toNat_natCast, Option.bind_assoc, zero_add]
    rfl
  have hblock := storeAll_string encoded (code s)
  rw [storeAll_add] at hblock
  simp only [storeAll_singleton, zero_add] at hblock
  rw [hall, hwritten]
  simp only [Option.bind_map, Function.comp_def, zero_add, hint, Option.bind_some]
  rw [← Option.bind_assoc, hblock]
  split
  · rfl
  · rfl

/-! ## What is read -/

/-- What the loop of `Base64decode` leaves of `n` characters. -/
def left (n : ℕ) : ℕ := if n = 0 then 0 else (n - 1) % 4 + 1

theorem left_add_four {n : ℕ} (h : n ≠ 0) : left (n + 4) = left n := by
  rw [left, left, if_neg h, if_neg (by omega)]
  omega

/-- What is returned for `n` characters. -/
theorem returned_eq (n : ℕ) :
    ((n : ℤ) + 3).tdiv 4 * 3 - ((4 - left n) &&& 3 : ℕ) = (3 * n / 4 : ℕ) := by
  have hdiv : ((n : ℤ) + 3).tdiv 4 = ((n + 3) / 4 : ℕ) := by
    rw [Int.tdiv_eq_ediv_of_nonneg (by omega)]
    push_cast
    rfl
  rw [hdiv, left]
  by_cases hn : n = 0
  · subst hn
    rfl
  · rw [if_neg hn]
    have hr : (n - 1) % 4 < 4 := Nat.mod_lt _ (by omega)
    generalize hr' : (n - 1) % 4 = r at hr
    interval_cases r <;> simp <;> omega

theorem sextetAt_of_eq (pre post : List UInt8) {coded : List UInt8} {c : UInt8}
    (hcoded : coded = pre ++ c :: post) {bufin : ℤ} (hin : bufin = pre.length) :
    sextetAt coded bufin = some (pr2six c) := by
  rw [sextetAt, load_of_eq pre post hcoded hin, Option.map_some]

section Tail

variable {coded : List UInt8} {bufin : ℤ} {v₀ v₁ v₂ v₃ : UInt8} (plain : List UInt8) (bufout : ℤ)

/-- One round of the loop. -/
theorem decodeLoop_round (n : ℕ) (h₀ : sextetAt coded bufin = some v₀)
    (h₁ : sextetAt coded (bufin + 1) = some v₁) (h₂ : sextetAt coded (bufin + 2) = some v₂)
    (h₃ : sextetAt coded (bufin + 3) = some v₃) :
    decodeLoop coded (n + 5) bufin plain bufout
      = (storeAll plain bufout [(v₀ <<< 2) ||| (v₁ >>> 4), (v₁ <<< 4) ||| (v₂ >>> 2),
          (v₂ <<< 6) ||| v₃]).bind fun plain =>
            decodeLoop coded (n + 1) (bufin + 4) plain (bufout + 3) := by
  have hround : decodeLoop coded (n + 5) bufin plain bufout = (do
      let v₀ ← sextetAt coded bufin
      let v₁ ← sextetAt coded (bufin + 1)
      let v₂ ← sextetAt coded (bufin + 2)
      let v₃ ← sextetAt coded (bufin + 3)
      let plain ← storeAll plain bufout
        [(v₀ <<< 2) ||| (v₁ >>> 4), (v₁ <<< 4) ||| (v₂ >>> 2), (v₂ <<< 6) ||| v₃]
      decodeLoop coded (n + 1) (bufin + 4) plain (bufout + 3)) := rfl
  rw [hround, h₀, h₁, h₂, h₃]
  rfl

/-- What is written for two characters, for three and for four. -/
theorem decodeTail_two (h₀ : sextetAt coded bufin = some v₀)
    (h₁ : sextetAt coded (bufin + 1) = some v₁) :
    decodeTail coded 2 bufin plain bufout
      = (storeAll plain bufout [(v₀ <<< 2) ||| (v₁ >>> 4)]).map fun plain => (plain, bufout + 1) := by
  simp [decodeTail, h₀, h₁, storeAll, Option.map_eq_bind]

theorem decodeTail_three (h₀ : sextetAt coded bufin = some v₀)
    (h₁ : sextetAt coded (bufin + 1) = some v₁) (h₂ : sextetAt coded (bufin + 2) = some v₂) :
    decodeTail coded 3 bufin plain bufout
      = (storeAll plain bufout [(v₀ <<< 2) ||| (v₁ >>> 4), (v₁ <<< 4) ||| (v₂ >>> 2)]).map
          fun plain => (plain, bufout + 2) := by
  simp [decodeTail, h₀, h₁, h₂, storeAll, Option.map_eq_bind, Option.bind_assoc, add_assoc]

theorem decodeTail_four (h₀ : sextetAt coded bufin = some v₀)
    (h₁ : sextetAt coded (bufin + 1) = some v₁) (h₂ : sextetAt coded (bufin + 2) = some v₂)
    (h₃ : sextetAt coded (bufin + 3) = some v₃) :
    decodeTail coded 4 bufin plain bufout
      = (storeAll plain bufout [(v₀ <<< 2) ||| (v₁ >>> 4), (v₁ <<< 4) ||| (v₂ >>> 2),
          (v₂ <<< 6) ||| v₃]).map fun plain => (plain, bufout + 3) := by
  simp [decodeTail, h₀, h₁, h₂, h₃, storeAll, Option.map_eq_bind, Option.bind_assoc, add_assoc]

end Tail

/-- The bytes are written one behind the other. -/
theorem decodeLoop_bind_decodeTail {coded pre post cs : List UInt8} {bufin : ℤ}
    (hcoded : coded = pre ++ (cs ++ post)) (hin : bufin = pre.length) (plain : List UInt8)
    (bufout : ℤ) :
    ((decodeLoop coded cs.length bufin plain bufout).bind fun x =>
        (decodeTail coded x.1 x.2.1 x.2.2.1 x.2.2.2).map fun y => (x.1, y))
      = (storeAll plain bufout (octets (cs.map pr2six))).map fun plain =>
          (left cs.length, plain, bufout + (octets (cs.map pr2six)).length) := by
  induction cs using octets.induct generalizing pre bufin plain bufout with
  | case1 c₀ c₁ c₂ c₃ rest ih =>
      have h₀ := sextetAt_of_eq pre _ hcoded hin
      have h₁ : sextetAt coded (bufin + 1) = some (pr2six c₁) :=
        sextetAt_of_eq (pre ++ [c₀]) (c₂ :: c₃ :: (rest ++ post)) (by simp [hcoded]) (by simp [hin])
      have h₂ : sextetAt coded (bufin + 2) = some (pr2six c₂) :=
        sextetAt_of_eq (pre ++ [c₀, c₁]) (c₃ :: (rest ++ post)) (by simp [hcoded]) (by simp [hin])
      have h₃ : sextetAt coded (bufin + 3) = some (pr2six c₃) :=
        sextetAt_of_eq (pre ++ [c₀, c₁, c₂]) (rest ++ post) (by simp [hcoded]) (by simp [hin])
      cases rest with
      | nil =>
          have hloop : decodeLoop coded 4 bufin plain bufout = some (4, bufin, plain, bufout) := rfl
          rw [show [c₀, c₁, c₂, c₃].length = 4 from rfl, hloop, Option.bind_some,
            decodeTail_four plain bufout h₀ h₁ h₂ h₃, Option.map_map]
          rfl
      | cons c rest =>
          have hloop := decodeLoop_round plain bufout rest.length h₀ h₁ h₂ h₃
          have hnext := fun plain => @ih (pre ++ [c₀, c₁, c₂, c₃]) (bufin + 4)
            (by simp [hcoded]) (by simp [hin]) plain (bufout + 3)
          have hoctets : octets ((c₀ :: c₁ :: c₂ :: c₃ :: c :: rest).map pr2six)
              = [(pr2six c₀ <<< 2) ||| (pr2six c₁ >>> 4), (pr2six c₁ <<< 4) ||| (pr2six c₂ >>> 2),
                  (pr2six c₂ <<< 6) ||| pr2six c₃] ++ octets ((c :: rest).map pr2six) := rfl
          rw [show (c₀ :: c₁ :: c₂ :: c₃ :: c :: rest).length = rest.length + 5 from rfl, hloop,
            show rest.length + 5 = (c :: rest).length + 4 from rfl, left_add_four (by simp), hoctets, storeAll_add, Option.bind_assoc,
            Option.map_bind, List.length_append, Nat.cast_add, ← add_assoc]
          congr 1
          funext plain
          exact hnext plain
  | case2 c₀ c₁ c₂ =>
      have h₀ := sextetAt_of_eq pre _ hcoded hin
      have h₁ : sextetAt coded (bufin + 1) = some (pr2six c₁) :=
        sextetAt_of_eq (pre ++ [c₀]) (c₂ :: post) (by simp [hcoded]) (by simp [hin])
      have h₂ : sextetAt coded (bufin + 2) = some (pr2six c₂) :=
        sextetAt_of_eq (pre ++ [c₀, c₁]) post (by simp [hcoded]) (by simp [hin])
      have hloop : decodeLoop coded 3 bufin plain bufout = some (3, bufin, plain, bufout) := rfl
      rw [show [c₀, c₁, c₂].length = 3 from rfl, hloop, Option.bind_some,
        decodeTail_three plain bufout h₀ h₁ h₂, Option.map_map]
      rfl
  | case3 c₀ c₁ =>
      have h₀ := sextetAt_of_eq pre _ hcoded hin
      have h₁ : sextetAt coded (bufin + 1) = some (pr2six c₁) :=
        sextetAt_of_eq (pre ++ [c₀]) post (by simp [hcoded]) (by simp [hin])
      have hloop : decodeLoop coded 2 bufin plain bufout = some (2, bufin, plain, bufout) := rfl
      rw [show [c₀, c₁].length = 2 from rfl, hloop, Option.bind_some,
        decodeTail_two plain bufout h₀ h₁, Option.map_map]
      rfl
  | case4 c =>
      have hloop : decodeLoop coded 1 bufin plain bufout = some (1, bufin, plain, bufout) := rfl
      have htail : decodeTail coded 1 bufin plain bufout = some (plain, bufout) := rfl
      rw [show [c].length = 1 from rfl, hloop, Option.bind_some, htail]
      exact congrArg (fun k => some (1, plain, k)) (add_zero bufout).symm
  | case5 =>
      have hloop : decodeLoop coded 0 bufin plain bufout = some (0, bufin, plain, bufout) := rfl
      have htail : decodeTail coded 0 bufin plain bufout = some (plain, bufout) := rfl
      rw [List.length_nil, hloop, Option.bind_some, htail]
      exact congrArg (fun k => some (0, plain, k)) (add_zero bufout).symm

/-- The characters up to the first that is none of the alphabet. -/
theorem scanCoded_append {cs : List UInt8} (hcs : ∀ c ∈ cs, pr2six c ≤ 63) {c : UInt8}
    (hc : ¬pr2six c ≤ 63) (post : List UInt8) : scanCoded (cs ++ c :: post) = some cs.length := by
  induction cs with
  | nil => rw [List.nil_append, scanCoded, if_neg hc, List.length_nil]
  | cons b cs ih =>
      rw [List.cons_append, scanCoded, if_pos (hcs b (by simp)),
        ih fun c hc => hcs c (by simp [hc])]
      rfl

/-- **What `Base64decode` does** with characters of the alphabet before another one. -/
theorem base64decode_spec {cs : List UInt8} (hcs : ∀ c ∈ cs, pr2six c ≤ 63) {c : UInt8}
    (hc : ¬pr2six c ≤ 63) (post plain : List UInt8) (hlen : cs.length + 3 < 2 ^ 31) :
    base64decode plain (cs ++ c :: post) =
      if (octets (cs.map pr2six)).length < plain.length then
        some (octets (cs.map pr2six) ++ 0 :: plain.drop ((octets (cs.map pr2six)).length + 1),
          ((octets (cs.map pr2six)).length : ℤ))
      else none := by
  have hwritten := @decodeLoop_bind_decodeTail (cs ++ c :: post) [] (c :: post) cs 0 rfl rfl plain 0
  have hint : int32 ((cs.length : ℤ) + 3) = some ((cs.length : ℤ) + 3) :=
    int32_of_lt (by omega) (by exact_mod_cast hlen)
  have hret : ((cs.length : ℤ) + 3).tdiv 4 * 3 - ((4 - left cs.length) &&& 3 : ℕ)
      = (octets (cs.map pr2six)).length := by
    rw [length_octets, List.length_map]
    exact returned_eq cs.length
  have hall : base64decode plain (cs ++ c :: post)
      = ((decodeLoop (cs ++ c :: post) cs.length 0 plain 0).bind fun x =>
          (decodeTail (cs ++ c :: post) x.1 x.2.1 x.2.2.1 x.2.2.2).map fun y => (x.1, y)).bind
            fun y => (store y.2.1 y.2.2 0).bind fun plain =>
              some (plain, ((cs.length : ℤ) + 3).tdiv 4 * 3 - ((4 - y.1) &&& 3 : ℕ)) := by
    rw [base64decode, scanCoded_append hcs hc post, Option.bind_eq_bind, Option.bind_some, hint]
    simp only [Option.bind_eq_bind, Option.bind_some, Option.bind_assoc, Option.bind_map,
      Function.comp_def]
  rw [hall, hwritten]
  simp only [Option.bind_map, Function.comp_def, zero_add, hret]
  have hblock := storeAll_string plain (octets (cs.map pr2six))
  rw [storeAll_add] at hblock
  simp only [storeAll_singleton, zero_add] at hblock
  rw [← Option.bind_assoc, hblock]
  split
  · rfl
  · rfl

/-! ## There and back -/

/-- The characters of the alphabet stand where `pr2six` says. -/
theorem alphabet_values : (∀ v < 64, pr2sixTable.getD (basis64.getD v 0).toNat 64 = v) ∧
    (∀ x ∈ pr2sixTable.zipIdx, x.1 ≤ 63 → (basis64.getD x.1 0).toNat = x.2) ∧
    (∀ x ∈ pr2sixTable, x < 256) ∧ pr2sixTable.length = 256 := by
  decide +kernel

theorem pr2six_basis {v : UInt8} (hv : v < 64) : pr2six (basis v) = v := by
  rw [pr2six, basis, alphabet_values.1 v.toNat (UInt8.lt_iff_toNat_lt.mp hv), UInt8.ofNat_toNat]

theorem basis_pr2six {c : UInt8} (hc : pr2six c ≤ 63) : basis (pr2six c) = c := by
  have hin : c.toNat < pr2sixTable.length := by
    rw [alphabet_values.2.2.2]
    exact c.toNat_lt
  have hget : pr2sixTable.getD c.toNat 64 = pr2sixTable[c.toNat] := by
    rw [List.getD_eq_getElem?_getD, List.getElem?_eq_getElem hin, Option.getD_some]
  have hsmall : pr2sixTable[c.toNat] < 256 := alphabet_values.2.2.1 _ (List.getElem_mem hin)
  have hval : (pr2six c).toNat = pr2sixTable[c.toNat] := by
    rw [pr2six, hget, UInt8.toNat_ofNat_of_lt' hsmall]
  have hmem : (pr2sixTable[c.toNat], c.toNat) ∈ pr2sixTable.zipIdx :=
    List.mem_zipIdx_iff_getElem?.mpr (List.getElem?_eq_getElem hin)
  have hback := alphabet_values.2.1 _ hmem (by
    rw [UInt8.le_iff_toNat_le, hval] at hc
    exact hc)
  rw [basis, hval]
  exact UInt8.toNat_inj.mp hback

/-- A value is one of the alphabet's. -/
theorem pr2six_basis_le {v : UInt8} (hv : v < 64) : pr2six (basis v) ≤ 63 := by
  rw [pr2six_basis hv]
  rw [UInt8.lt_iff_toNat_lt] at hv
  rw [UInt8.le_iff_toNat_le]
  exact Nat.le_of_lt_succ hv

theorem map_pr2six_basis {vs : List UInt8} (h : ∀ v ∈ vs, v < 64) :
    (vs.map basis).map pr2six = vs := by
  rw [List.map_map]
  nth_rewrite 2 [← List.map_id vs]
  apply List.map_congr_left
  intro v hv
  rw [Function.comp_apply, pr2six_basis (h v hv), id]

theorem map_basis_pr2six {cs : List UInt8} (h : ∀ c ∈ cs, pr2six c ≤ 63) :
    (cs.map pr2six).map basis = cs := by
  rw [List.map_map]
  nth_rewrite 2 [← List.map_id cs]
  apply List.map_congr_left
  intro c hc
  rw [Function.comp_apply, basis_pr2six (h c hc), id]

/-- The characters of some bytes are in the alphabet up to the `=` or to what is behind them. -/
theorem exists_code_append (s rest : List UInt8) :
    ∃ c post, ¬pr2six c ≤ 63 ∧ code s ++ 0 :: rest = (sextets s).map basis ++ c :: post := by
  have hzero : ¬pr2six 0 ≤ 63 := by decide
  have hpad : ¬pr2six pad ≤ 63 := by decide
  rw [code]
  cases (3 - s.length % 3) % 3 with
  | zero => exact ⟨0, rest, hzero, by simp⟩
  | succ k => exact ⟨pad, List.replicate k pad ++ 0 :: rest, hpad, by simp [List.replicate_succ]⟩

/-- The characters of some bytes are decoded to them. -/
theorem base64decode_code {s : List UInt8} (hs : 4 * ((s.length + 2) / 3) < 2 ^ 31)
    (rest plain : List UInt8) :
    base64decode plain (code s ++ 0 :: rest) =
      if s.length < plain.length then some (s ++ 0 :: plain.drop (s.length + 1), (s.length : ℤ))
      else none := by
  obtain ⟨c, post, hc, hcode⟩ := exists_code_append s rest
  have hcs : ∀ c ∈ (sextets s).map basis, pr2six c ≤ 63 := by
    intro c hc
    obtain ⟨v, hv, rfl⟩ := List.mem_map.mp hc
    exact pr2six_basis_le (sextets_lt s v hv)
  have hlen : ((sextets s).map basis).length + 3 < 2 ^ 31 := by
    rw [List.length_map, length_sextets]
    omega
  rw [hcode, base64decode_spec hcs hc post plain hlen, map_pr2six_basis (sextets_lt s),
    octets_sextets]

/-- **Bytes come back.** The block must hold the characters and one more byte; nothing behind that
is written. What is written there is decoded to the bytes, again with one more. -/
theorem base64_round_trip {s : List UInt8} (hs : 4 * ((s.length + 2) / 3) < 2 ^ 31)
    (encoded plain : List UInt8) :
    ((base64encode encoded s s.length).isSome ↔ 4 * ((s.length + 2) / 3) < encoded.length) ∧
    ∀ out n, base64encode encoded s s.length = some (out, n) →
      n = (4 * ((s.length + 2) / 3) : ℕ) ∧
      out.drop (n.toNat + 1) = encoded.drop (n.toNat + 1) ∧
      base64decode plain out =
        if s.length < plain.length then some (s ++ 0 :: plain.drop (s.length + 1), (s.length : ℤ))
        else none := by
  have henc := base64encode_spec hs encoded []
  rw [List.append_nil] at henc
  rw [henc, ← length_code]
  refine ⟨by split <;> simp [*], fun out n h => ?_⟩
  split at h
  · rw [Option.some.injEq, Prod.mk.injEq] at h
    have hdrop : (code s ++ 0 :: encoded.drop ((code s).length + 1)).drop ((code s).length + 1)
        = encoded.drop ((code s).length + 1) := by
      simp
    rw [← h.1, ← h.2, Int.toNat_natCast]
    exact ⟨rfl, hdrop, base64decode_code hs _ plain⟩
  · cases h

theorem base64_round_trip_two :
    (base64encode (List.replicate 5 7) [104, 105] 2).isSome ∧
    ∀ out n, base64encode (List.replicate 5 7) [104, 105] 2 = some (out, n) →
      base64decode [7, 7, 7] out = some ([104, 105, 0], 2) :=
  ⟨(base64_round_trip (s := [104, 105]) (by decide) _ []).1.mpr (by decide),
    fun out n h => ((base64_round_trip (s := [104, 105]) (by decide) _ [7, 7, 7]).2 out n h).2.2⟩

/-- The characters that are taken, where there are any that are not. -/
theorem exists_of_scanCoded {coded : List UInt8} {n : ℕ} (h : scanCoded coded = some n) :
    ∃ c post, ¬pr2six c ≤ 63 ∧ n = (coded.takeWhile fun c => pr2six c ≤ 63).length ∧
      coded = (coded.takeWhile fun c => pr2six c ≤ 63) ++ c :: post := by
  induction coded generalizing n with
  | nil => cases h
  | cons b cs ih =>
      rw [scanCoded] at h
      by_cases hb : pr2six b ≤ 63
      · rw [if_pos hb] at h
        obtain ⟨m, hm, rfl⟩ := Option.map_eq_some_iff.mp h
        obtain ⟨c, post, hc, hlen, hcs⟩ := ih hm
        refine ⟨c, post, hc, ?_, ?_⟩
        · simp [hb, hlen]
        · simp only [List.takeWhile_cons, hb, decide_true, if_true, List.cons_append]
          rw [← hcs]
      · rw [if_neg hb] at h
        refine ⟨b, cs, hb, ?_, ?_⟩
        · simpa [List.takeWhile_cons, hb] using h.symm
        · simp [hb]

/-- A call that returns has read the characters of the alphabet, and has written their bytes. -/
theorem of_base64decode {coded plain out : List UInt8} {n : ℤ}
    (h : base64decode plain coded = some (out, n)) :
    let vs := (coded.takeWhile fun c => pr2six c ≤ 63).map pr2six
    vs.length + 3 < 2 ^ 31 ∧ n = (octets vs).length ∧ ∃ post, out = octets vs ++ post := by
  intro vs
  cases hscan : scanCoded coded with
  | none =>
      rw [base64decode, hscan] at h
      cases h
  | some m =>
      obtain ⟨c, post, hc, hm, hcoded⟩ := exists_of_scanCoded hscan
      have hlen : m + 3 < 2 ^ 31 := by
        by_contra hbig
        have hint : int32 ((m : ℤ) + 3) = none :=
          int32_eq_none (by exact_mod_cast Nat.not_lt.mp hbig)
        rw [base64decode, hscan, Option.bind_eq_bind, Option.bind_some, hint] at h
        cases h
      have hcs : ∀ c ∈ coded.takeWhile fun c => pr2six c ≤ 63, pr2six c ≤ 63 := by
        intro c hc
        simpa using List.mem_takeWhile_imp hc
      rw [hcoded, base64decode_spec hcs hc post plain (by rwa [← hm])] at h
      split at h
      · rw [Option.some.injEq, Prod.mk.injEq] at h
        exact ⟨by rwa [List.length_map, ← hm], h.2.symm, _, h.1.symm⟩
      · cases h

/-- The characters of the alphabet among those for some bytes. -/
theorem takeWhile_code (s rest : List UInt8) :
    (code s ++ 0 :: rest).takeWhile (fun c => pr2six c ≤ 63) = (sextets s).map basis := by
  obtain ⟨c, post, hc, hcode⟩ := exists_code_append s rest
  have hcs : ∀ c ∈ (sextets s).map basis, decide (pr2six c ≤ 63) = true := by
    intro c hc
    obtain ⟨v, hv, rfl⟩ := List.mem_map.mp hc
    exact decide_eq_true (pr2six_basis_le (sextets_lt s v hv))
  rw [hcode, List.takeWhile_append_of_pos hcs]
  simp [hc]

/-- **Characters come back** if and only if they are whole: not one more than a multiple of four,
and no bit in the last that no byte takes. -/
theorem base64decode_canonical {coded plain out : List UInt8} {n : ℤ}
    (h : base64decode plain coded = some (out, n)) (encoded enc : List UInt8) (k : ℤ)
    (henc : base64encode encoded out n = some (enc, k)) :
    let cs := coded.takeWhile fun c => pr2six c ≤ 63
    n = (3 * cs.length / 4 : ℕ) ∧ k = (4 * ((n.toNat + 2) / 3) : ℕ) ∧
      ((enc.takeWhile fun c => pr2six c ≤ 63) = cs ↔ Whole (cs.map pr2six)) := by
  intro cs
  have hcs : ∀ c ∈ cs, pr2six c ≤ 63 := by
    intro c hc
    simpa using List.mem_takeWhile_imp hc
  have hvs : ∀ v ∈ cs.map pr2six, v < 64 := by
    intro v hv
    obtain ⟨c, hc, rfl⟩ := List.mem_map.mp hv
    exact UInt8.lt_of_le_of_lt (hcs c hc) (by decide)
  have hread := of_base64decode h
  obtain ⟨post, hout⟩ := hread.2.2
  have hn : n = (octets (cs.map pr2six)).length := hread.2.1
  have hlen : 4 * (((octets (cs.map pr2six)).length + 2) / 3) < 2 ^ 31 := by
    have hbound : (cs.map pr2six).length + 3 < 2 ^ 31 := hread.1
    rw [length_octets]
    omega
  rw [hout, hn, base64encode_spec hlen] at henc
  split at henc
  · rw [Option.some.injEq, Prod.mk.injEq] at henc
    refine ⟨by rw [hn, length_octets, List.length_map], ?_, ?_⟩
    · rw [← henc.2, length_code, hn, Int.toNat_natCast]
    · rw [← henc.1, takeWhile_code, ← sextets_octets_iff hvs]
      constructor
      · intro heq
        have hback := congrArg (List.map pr2six) heq
        rwa [map_pr2six_basis (sextets_lt _)] at hback
      · intro heq
        rw [heq, map_basis_pr2six hcs]
  · cases henc

theorem base64decode_canonical_two :
    Whole (((ascii "aGk=" ++ [0]).takeWhile fun c => pr2six c ≤ 63).map pr2six) :=
  (@base64decode_canonical (ascii "aGk=" ++ [0]) [7, 7, 7] [104, 105, 0] 2 (by rfl)
    (List.replicate 5 7) (ascii "aGk=" ++ [0]) 4 (by rfl)).2.2.mp (by decide)

end CCode.General
