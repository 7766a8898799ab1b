import Mathlib.Data.List.GetD
import Mathlib.Data.Nat.Bitwise
import Mathlib.Data.Nat.Digits.Defs
import Mathlib.Tactic

/-!
# The tables of `aes.c`

The combined step of a round looks its bytes up in tables of products in the field of 256 elements.
A product with a constant is linear in the bits of the other factor, and that is all that is needed
of the field: with it, the two mixing steps are inverse to one another if they are for each bit of
a column alone, and a byte has only eight of those.

## Main definitions

* `sBox`, `isBox` — the substitution and its inverse.
* `gfm2Sb`, `gfm3Sb` — products with the substituted byte.
* `gfm9`, `gfmB`, `gfmD`, `gfmE` — products with the byte.
* `Linear`, `LinearNat` — what products have in common, of bytes and of numbers.

## Main results

* `isBox_sBox`, `sBox_isBox` — the substitutions are inverse.
* `unmix_mix`, `mix_unmix` — and so are the mixing steps, for each byte of a column.
-/

namespace CCode.Aes

/-! ## The macros and tables -/

/-- `WPOLY`. -/
abbrev WPOLY : ℕ := 0x011b

/-- `DPOLY`. -/
abbrev DPOLY : ℕ := 0x008d

def f1 (x : ℕ) : ℕ := x
def f2 (x : ℕ) : ℕ := (x <<< 1) ^^^ (((x >>> 7) &&& 1) * WPOLY)
def f4 (x : ℕ) : ℕ :=
  (x <<< 2) ^^^ (((x >>> 6) &&& 1) * WPOLY) ^^^ (((x >>> 6) &&& 2) * WPOLY)
def f8 (x : ℕ) : ℕ :=
  (x <<< 3) ^^^ (((x >>> 5) &&& 1) * WPOLY) ^^^ (((x >>> 5) &&& 2) * WPOLY)
    ^^^ (((x >>> 5) &&& 4) * WPOLY)
def d2 (x : ℕ) : ℕ := (x >>> 1) ^^^ (if x &&& 1 ≠ 0 then DPOLY else 0)

def f3 (x : ℕ) : ℕ := f2 x ^^^ x
def f9 (x : ℕ) : ℕ := f8 x ^^^ x
def fb (x : ℕ) : ℕ := f8 x ^^^ f2 x ^^^ x
def fd (x : ℕ) : ℕ := f8 x ^^^ f4 x ^^^ x
def fe (x : ℕ) : ℕ := f8 x ^^^ f4 x ^^^ f2 x

/-- The values of `sb_data`. -/
def sbValues : List ℕ :=
  [0x63, 0x7c, 0x77, 0x7b, 0xf2, 0x6b, 0x6f, 0xc5, 0x30, 0x01, 0x67, 0x2b, 0xfe, 0xd7, 0xab, 0x76,
   0xca, 0x82, 0xc9, 0x7d, 0xfa, 0x59, 0x47, 0xf0, 0xad, 0xd4, 0xa2, 0xaf, 0x9c, 0xa4, 0x72, 0xc0,
   0xb7, 0xfd, 0x93, 0x26, 0x36, 0x3f, 0xf7, 0xcc, 0x34, 0xa5, 0xe5, 0xf1, 0x71, 0xd8, 0x31, 0x15,
   0x04, 0xc7, 0x23, 0xc3, 0x18, 0x96, 0x05, 0x9a, 0x07, 0x12, 0x80, 0xe2, 0xeb, 0x27, 0xb2, 0x75,
   0x09, 0x83, 0x2c, 0x1a, 0x1b, 0x6e, 0x5a, 0xa0, 0x52, 0x3b, 0xd6, 0xb3, 0x29, 0xe3, 0x2f, 0x84,
   0x53, 0xd1, 0x00, 0xed, 0x20, 0xfc, 0xb1, 0x5b, 0x6a, 0xcb, 0xbe, 0x39, 0x4a, 0x4c, 0x58, 0xcf,
   0xd0, 0xef, 0xaa, 0xfb, 0x43, 0x4d, 0x33, 0x85, 0x45, 0xf9, 0x02, 0x7f, 0x50, 0x3c, 0x9f, 0xa8,
   0x51, 0xa3, 0x40, 0x8f, 0x92, 0x9d, 0x38, 0xf5, 0xbc, 0xb6, 0xda, 0x21, 0x10, 0xff, 0xf3, 0xd2,
   0xcd, 0x0c, 0x13, 0xec, 0x5f, 0x97, 0x44, 0x17, 0xc4, 0xa7, 0x7e, 0x3d, 0x64, 0x5d, 0x19, 0x73,
   0x60, 0x81, 0x4f, 0xdc, 0x22, 0x2a, 0x90, 0x88, 0x46, 0xee, 0xb8, 0x14, 0xde, 0x5e, 0x0b, 0xdb,
   0xe0, 0x32, 0x3a, 0x0a, 0x49, 0x06, 0x24, 0x5c, 0xc2, 0xd3, 0xac, 0x62, 0x91, 0x95, 0xe4, 0x79,
   0xe7, 0xc8, 0x37, 0x6d, 0x8d, 0xd5, 0x4e, 0xa9, 0x6c, 0x56, 0xf4, 0xea, 0x65, 0x7a, 0xae, 0x08,
   0xba, 0x78, 0x25, 0x2e, 0x1c, 0xa6, 0xb4, 0xc6, 0xe8, 0xdd, 0x74, 0x1f, 0x4b, 0xbd, 0x8b, 0x8a,
   0x70, 0x3e, 0xb5, 0x66, 0x48, 0x03, 0xf6, 0x0e, 0x61, 0x35, 0x57, 0xb9, 0x86, 0xc1, 0x1d, 0x9e,
   0xe1, 0xf8, 0x98, 0x11, 0x69, 0xd9, 0x8e, 0x94, 0x9b, 0x1e, 0x87, 0xe9, 0xce, 0x55, 0x28, 0xdf,
   0x8c, 0xa1, 0x89, 0x0d, 0xbf, 0xe6, 0x42, 0x68, 0x41, 0x99, 0x2d, 0x0f, 0xb0, 0x54, 0xbb, 0x16]

/-- The values of `isb_data`. -/
def isbValues : List ℕ :=
  [0x52, 0x09, 0x6a, 0xd5, 0x30, 0x36, 0xa5, 0x38, 0xbf, 0x40, 0xa3, 0x9e, 0x81, 0xf3, 0xd7, 0xfb,
   0x7c, 0xe3, 0x39, 0x82, 0x9b, 0x2f, 0xff, 0x87, 0x34, 0x8e, 0x43, 0x44, 0xc4, 0xde, 0xe9, 0xcb,
   0x54, 0x7b, 0x94, 0x32, 0xa6, 0xc2, 0x23, 0x3d, 0xee, 0x4c, 0x95, 0x0b, 0x42, 0xfa, 0xc3, 0x4e,
   0x08, 0x2e, 0xa1, 0x66, 0x28, 0xd9, 0x24, 0xb2, 0x76, 0x5b, 0xa2, 0x49, 0x6d, 0x8b, 0xd1, 0x25,
   0x72, 0xf8, 0xf6, 0x64, 0x86, 0x68, 0x98, 0x16, 0xd4, 0xa4, 0x5c, 0xcc, 0x5d, 0x65, 0xb6, 0x92,
   0x6c, 0x70, 0x48, 0x50, 0xfd, 0xed, 0xb9, 0xda, 0x5e, 0x15, 0x46, 0x57, 0xa7, 0x8d, 0x9d, 0x84,
   0x90, 0xd8, 0xab, 0x00, 0x8c, 0xbc, 0xd3, 0x0a, 0xf7, 0xe4, 0x58, 0x05, 0xb8, 0xb3, 0x45, 0x06,
   0xd0, 0x2c, 0x1e, 0x8f, 0xca, 0x3f, 0x0f, 0x02, 0xc1, 0xaf, 0xbd, 0x03, 0x01, 0x13, 0x8a, 0x6b,
   0x3a, 0x91, 0x11, 0x41, 0x4f, 0x67, 0xdc, 0xea, 0x97, 0xf2, 0xcf, 0xce, 0xf0, 0xb4, 0xe6, 0x73,
   0x96, 0xac, 0x74, 0x22, 0xe7, 0xad, 0x35, 0x85, 0xe2, 0xf9, 0x37, 0xe8, 0x1c, 0x75, 0xdf, 0x6e,
   0x47, 0xf1, 0x1a, 0x71, 0x1d, 0x29, 0xc5, 0x89, 0x6f, 0xb7, 0x62, 0x0e, 0xaa, 0x18, 0xbe, 0x1b,
   0xfc, 0x56, 0x3e, 0x4b, 0xc6, 0xd2, 0x79, 0x20, 0x9a, 0xdb, 0xc0, 0xfe, 0x78, 0xcd, 0x5a, 0xf4,
   0x1f, 0xdd, 0xa8, 0x33, 0x88, 0x07, 0xc7, 0x31, 0xb1, 0x12, 0x10, 0x59, 0x27, 0x80, 0xec, 0x5f,
   0x60, 0x51, 0x7f, 0xa9, 0x19, 0xb5, 0x4a, 0x0d, 0x2d, 0xe5, 0x7a, 0x9f, 0x93, 0xc9, 0x9c, 0xef,
   0xa0, 0xe0, 0x3b, 0x4d, 0xae, 0x2a, 0xf5, 0xb0, 0xc8, 0xeb, 0xbb, 0x3c, 0x83, 0x53, 0x99, 0x61,
   0x17, 0x2b, 0x04, 0x7e, 0xba, 0x77, 0xd6, 0x26, 0xe1, 0x69, 0x14, 0x63, 0x55, 0x21, 0x0c, 0x7d]

/-- A table, with `w` at each value. -/
def sbData (w : ℕ → ℕ) : List UInt8 := sbValues.map fun x => UInt8.ofNat (w x)
def isbData (w : ℕ → ℕ) : List UInt8 := isbValues.map fun x => UInt8.ofNat (w x)

/-- `mm_data`, whose values are the bytes in order. -/
def mmData (w : ℕ → ℕ) : List UInt8 := (List.range 256).map fun x => UInt8.ofNat (w x)

def sbox : List UInt8 := sbData f1
def isbox : List UInt8 := isbData f1

def gfm2Sbox : List UInt8 := sbData f2
def gfm3Sbox : List UInt8 := sbData f3

def gfmul9 : List UInt8 := mmData f9
def gfmulB : List UInt8 := mmData fb
def gfmulD : List UInt8 := mmData fd
def gfmulE : List UInt8 := mmData fe

/-- An entry of a table. -/
def entry (table : List UInt8) (x : UInt8) : UInt8 := table.getD x.toNat 0

def sBox : UInt8 → UInt8 := entry sbox
def isBox : UInt8 → UInt8 := entry isbox
def gfm2Sb : UInt8 → UInt8 := entry gfm2Sbox
def gfm3Sb : UInt8 → UInt8 := entry gfm3Sbox
def gfm9 : UInt8 → UInt8 := entry gfmul9
def gfmB : UInt8 → UInt8 := entry gfmulB
def gfmD : UInt8 → UInt8 := entry gfmulD
def gfmE : UInt8 → UInt8 := entry gfmulE

/-! ## Entries -/

/-- An entry of a table that is made from values. -/
theorem entry_map {values : List ℕ} (hlen : values.length = 256) (w : ℕ → ℕ) (x : UInt8) :
    entry (values.map fun x => UInt8.ofNat (w x)) x = UInt8.ofNat (w (values.getD x.toNat 0)) := by
  have hx : x.toNat < values.length := by rw [hlen]; exact x.toNat_lt
  rw [entry, List.getD_eq_getElem?_getD, List.getElem?_map, List.getD_eq_getElem?_getD,
    List.getElem?_eq_getElem hx]
  rfl

/-- An entry of a table of products. -/
theorem entry_mmData (w : ℕ → ℕ) (x : UInt8) : entry (mmData w) x = UInt8.ofNat (w x.toNat) := by
  rw [mmData, entry_map (by simp), List.getD_eq_getElem?_getD, List.getElem?_range x.toNat_lt,
    Option.getD_some]

/-- A byte of a list, from the list as one number. -/
theorem getD_eq_div {vs : List ℕ} (h : ∀ v ∈ vs, v < 256) (i : ℕ) :
    vs.getD i 0 = Nat.ofDigits 256 vs / 256 ^ i % 256 := by
  induction vs generalizing i with
  | nil => simp
  | cons v vs ih =>
      have hv : v < 256 := h v List.mem_cons_self
      cases i with
      | zero =>
          rw [List.getD_cons_zero, Nat.ofDigits_cons, pow_zero, Nat.div_one,
            Nat.add_mul_mod_self_left, Nat.mod_eq_of_lt hv]
      | succ i =>
          rw [List.getD_cons_succ, ih (fun w hw => h w (List.mem_cons_of_mem v hw)),
            Nat.ofDigits_cons, pow_succ', ← Nat.div_div_eq_div_mul,
            Nat.add_mul_div_left _ _ (by norm_num), Nat.div_eq_of_lt hv, Nat.zero_add]

/-- The tables as numbers, of which the values of the other one are the places. -/
theorem packed_values :
    sbValues.map (fun v => Nat.ofDigits 256 isbValues / 256 ^ v % 256) = List.range 256 ∧
    isbValues.map (fun v => Nat.ofDigits 256 sbValues / 256 ^ v % 256) = List.range 256 ∧
    (∀ v ∈ sbValues, v < 256) ∧ ∀ v ∈ isbValues, v < 256 := by
  decide +kernel

/-- The values of each table, looked up in the other one, are the numbers in order. -/
theorem map_values : sbValues.map (fun v => isbValues.getD v 0) = List.range 256 ∧
    isbValues.map (fun v => sbValues.getD v 0) = List.range 256 ∧
    (∀ v ∈ sbValues, v < 256) ∧ ∀ v ∈ isbValues, v < 256 := by
  have hpacked := packed_values
  refine ⟨?_, ?_, hpacked.2.2⟩
  · rw [← hpacked.1]
    exact List.map_congr_left fun v _ => getD_eq_div hpacked.2.2.2 v
  · rw [← hpacked.2.1]
    exact List.map_congr_left fun v _ => getD_eq_div hpacked.2.2.1 v

theorem length_sbValues : sbValues.length = 256 := by
  simpa using congrArg List.length map_values.1

theorem length_isbValues : isbValues.length = 256 := by
  simpa using congrArg List.length map_values.2.1

theorem sBox_eq (x : UInt8) : sBox x = UInt8.ofNat (sbValues.getD x.toNat 0) :=
  entry_map length_sbValues f1 x

theorem isBox_eq (x : UInt8) : isBox x = UInt8.ofNat (isbValues.getD x.toNat 0) :=
  entry_map length_isbValues f1 x

/-- A lookup that undoes another one. -/
theorem getD_getD {vs ws : List ℕ} (hlen : vs.length = 256)
    (h : vs.map (fun v => ws.getD v 0) = List.range 256) {n : ℕ} (hn : n < 256) :
    ws.getD (vs.getD n 0) 0 = n := by
  have hget := congrArg (fun l : List ℕ => l[n]?) h
  rw [List.getElem?_map, List.getElem?_range hn,
    List.getElem?_eq_getElem (by omega : n < vs.length), Option.map_some] at hget
  rw [List.getD_eq_getElem _ _ (by omega : n < vs.length)]
  exact Option.some.inj hget

theorem getD_lt {vs : List ℕ} (h : ∀ v ∈ vs, v < 256) (n : ℕ) : vs.getD n 0 < 256 := by
  rw [List.getD_eq_getElem?_getD]
  cases hget : vs[n]? with
  | none => exact Nat.zero_lt_succ 255
  | some v => exact h v (List.mem_of_getElem? hget)

theorem toNat_sBox (x : UInt8) : (sBox x).toNat = sbValues.getD x.toNat 0 := by
  rw [sBox_eq, UInt8.toNat_ofNat_of_lt' (getD_lt map_values.2.2.1 _)]

theorem toNat_isBox (x : UInt8) : (isBox x).toNat = isbValues.getD x.toNat 0 := by
  rw [isBox_eq, UInt8.toNat_ofNat_of_lt' (getD_lt map_values.2.2.2 _)]

/-- **The substitutions are inverse.** -/
theorem isBox_sBox (x : UInt8) : isBox (sBox x) = x := by
  apply UInt8.toNat_inj.mp
  rw [toNat_isBox, toNat_sBox, getD_getD length_sbValues map_values.1 x.toNat_lt]

theorem sBox_isBox (x : UInt8) : sBox (isBox x) = x := by
  apply UInt8.toNat_inj.mp
  rw [toNat_sBox, toNat_isBox, getD_getD length_isbValues map_values.2.1 x.toNat_lt]

/-! ## Linear maps -/

/-- A map that goes through the exclusive or. -/
def Linear (t : UInt8 → UInt8) : Prop := ∀ x y, t (x ^^^ y) = t x ^^^ t y

/-- The same for a macro. -/
def LinearNat (w : ℕ → ℕ) : Prop := ∀ m n, w (m ^^^ n) = w m ^^^ w n

/-- Four terms in another order. -/
theorem xor_four (a b c d : ℕ) : a ^^^ b ^^^ (c ^^^ d) = a ^^^ c ^^^ (b ^^^ d) := by
  ac_rfl

theorem linearNat_f1 : LinearNat f1 := fun _ _ => rfl

theorem LinearNat.xor {v w : ℕ → ℕ} (hv : LinearNat v) (hw : LinearNat w) :
    LinearNat fun x => v x ^^^ w x := by
  intro m n
  dsimp only
  rw [hv, hw, xor_four]

theorem linearNat_shiftLeft (k : ℕ) : LinearNat fun x => x <<< k :=
  fun _ _ => Nat.shiftLeft_xor_distrib

/-- The polynomial is taken off where a bit was shifted out. -/
theorem linearNat_reduce (k j p : ℕ) : LinearNat fun x => ((x >>> k) &&& 2 ^ j) * p := by
  intro m n
  dsimp only
  rw [Nat.shiftRight_xor_distrib, Nat.and_two_pow, Nat.and_two_pow, Nat.and_two_pow,
    Nat.testBit_xor]
  cases (m >>> k).testBit j <;> cases (n >>> k).testBit j <;> simp

theorem linearNat_f2 : LinearNat f2 := (linearNat_shiftLeft 1).xor (linearNat_reduce 7 0 WPOLY)

theorem linearNat_f4 : LinearNat f4 :=
  ((linearNat_shiftLeft 2).xor (linearNat_reduce 6 0 WPOLY)).xor (linearNat_reduce 6 1 WPOLY)

theorem linearNat_f8 : LinearNat f8 :=
  (((linearNat_shiftLeft 3).xor (linearNat_reduce 5 0 WPOLY)).xor
    (linearNat_reduce 5 1 WPOLY)).xor (linearNat_reduce 5 2 WPOLY)

/-- The products with 2 and 3, of a byte itself. -/
def mul2 (x : UInt8) : UInt8 := UInt8.ofNat (f2 x.toNat)
def mul3 (x : UInt8) : UInt8 := UInt8.ofNat (f3 x.toNat)

/-- A product with the substituted byte. -/
theorem entry_sbData (w : ℕ → ℕ) (x : UInt8) :
    entry (sbData w) x = UInt8.ofNat (w (sBox x).toNat) := by
  rw [sbData, entry_map length_sbValues, toNat_sBox]

theorem gfm2Sb_eq (x : UInt8) : gfm2Sb x = mul2 (sBox x) := entry_sbData f2 x
theorem gfm3Sb_eq (x : UInt8) : gfm3Sb x = mul3 (sBox x) := entry_sbData f3 x

/-- A product with a byte, in the low bits of the macro. -/
theorem LinearNat.linear {w : ℕ → ℕ} (hw : LinearNat w) :
    Linear fun x => UInt8.ofNat (w x.toNat) := by
  intro x y
  dsimp only
  rw [UInt8.toNat_xor, hw, UInt8.ofNat_xor]

theorem gfm9_eq : gfm9 = fun x => UInt8.ofNat (f9 x.toNat) := funext (entry_mmData f9)
theorem gfmB_eq : gfmB = fun x => UInt8.ofNat (fb x.toNat) := funext (entry_mmData fb)
theorem gfmD_eq : gfmD = fun x => UInt8.ofNat (fd x.toNat) := funext (entry_mmData fd)
theorem gfmE_eq : gfmE = fun x => UInt8.ofNat (fe x.toNat) := funext (entry_mmData fe)

theorem linear_mul2 : Linear mul2 := linearNat_f2.linear
theorem linear_mul3 : Linear mul3 := (linearNat_f2.xor linearNat_f1).linear

theorem linear_gfm9 : Linear gfm9 := by
  rw [gfm9_eq]
  exact (linearNat_f8.xor linearNat_f1).linear

theorem linear_gfmB : Linear gfmB := by
  rw [gfmB_eq]
  exact ((linearNat_f8.xor linearNat_f2).xor linearNat_f1).linear

theorem linear_gfmD : Linear gfmD := by
  rw [gfmD_eq]
  exact ((linearNat_f8.xor linearNat_f4).xor linearNat_f1).linear

theorem linear_gfmE : Linear gfmE := by
  rw [gfmE_eq]
  exact ((linearNat_f8.xor linearNat_f4).xor linearNat_f2).linear

theorem Linear.comp {s t : UInt8 → UInt8} (hs : Linear s) (ht : Linear t) :
    Linear fun x => s (t x) := by
  intro x y
  dsimp only
  rw [ht, hs]

theorem Linear.xor {s t : UInt8 → UInt8} (hs : Linear s) (ht : Linear t) :
    Linear fun x => s x ^^^ t x := by
  intro x y
  dsimp only
  rw [hs, ht]
  ac_rfl

theorem linear_id : Linear fun x => x := fun _ _ => rfl

theorem linear_zero : Linear fun _ => 0 := fun _ _ => UInt8.xor_self.symm

/-- The byte with one bit. -/
def bit (i : ℕ) : UInt8 := UInt8.ofNat (2 ^ i)

theorem Linear.map_zero {t : UInt8 → UInt8} (ht : Linear t) : t 0 = 0 := by
  have h := ht 0 0
  rwa [UInt8.xor_self, UInt8.xor_self] at h

/-- One bit above the others. -/
theorem two_pow_add_eq_xor {i m : ℕ} (h : m < 2 ^ i) : 2 ^ i + m = 2 ^ i ^^^ m := by
  have hor := Nat.two_pow_add_eq_or_of_lt h 1
  rw [Nat.mul_one] at hor
  rw [hor]
  apply Nat.eq_of_testBit_eq
  intro j
  rw [Nat.testBit_or, Nat.testBit_xor, Nat.testBit_two_pow]
  by_cases hj : i = j
  · subst hj
    simp [Nat.testBit_lt_two_pow h]
  · simp [hj]

/-- A linear map is known by the bits. -/
theorem Linear.ext {s t : UInt8 → UInt8} (hs : Linear s) (ht : Linear t)
    (h : ∀ i < 8, s (bit i) = t (bit i)) (x : UInt8) : s x = t x := by
  have hall : ∀ k ≤ 8, ∀ n < 2 ^ k, s (UInt8.ofNat n) = t (UInt8.ofNat n) := by
    intro k
    induction k with
    | zero =>
        intro _ n hn
        obtain rfl : n = 0 := by omega
        exact hs.map_zero.trans ht.map_zero.symm
    | succ k ih =>
        intro hk n hn
        by_cases hlt : n < 2 ^ k
        · exact ih (by omega) n hlt
        · have hm : n - 2 ^ k < 2 ^ k := by
            rw [pow_succ] at hn
            omega
          have hsum : n = 2 ^ k ^^^ (n - 2 ^ k) := by
            rw [← two_pow_add_eq_xor hm]
            omega
          have hbit : s (UInt8.ofNat (2 ^ k)) = t (UInt8.ofNat (2 ^ k)) := h k hk
          rw [hsum, UInt8.ofNat_xor, hs, ht, hbit, ih (by omega) _ hm]
  have hx := hall 8 le_rfl x.toNat x.toNat_lt
  rwa [UInt8.ofNat_toNat] at hx

/-! ## Mixing and unmixing -/

/-- What unmixing makes of one byte of a mixed column: it stays in its own place and goes from the
others. -/
theorem unmix_bits : ∀ i < 8,
    gfmE (mul2 (bit i)) ^^^ gfmB (bit i) ^^^ gfmD (bit i) ^^^ gfm9 (mul3 (bit i)) = bit i ∧
    gfmE (mul3 (bit i)) ^^^ gfmB (mul2 (bit i)) ^^^ gfmD (bit i) ^^^ gfm9 (bit i) = 0 ∧
    gfmE (bit i) ^^^ gfmB (mul3 (bit i)) ^^^ gfmD (mul2 (bit i)) ^^^ gfm9 (bit i) = 0 ∧
    gfmE (bit i) ^^^ gfmB (bit i) ^^^ gfmD (mul3 (bit i)) ^^^ gfm9 (mul2 (bit i)) = 0 := by
  rw [gfm9_eq, gfmB_eq, gfmD_eq, gfmE_eq]
  decide

/-- The same for mixing. -/
theorem mix_bits : ∀ i < 8,
    mul2 (gfmE (bit i)) ^^^ mul3 (gfm9 (bit i)) ^^^ gfmD (bit i) ^^^ gfmB (bit i) = bit i ∧
    mul2 (gfmB (bit i)) ^^^ mul3 (gfmE (bit i)) ^^^ gfm9 (bit i) ^^^ gfmD (bit i) = 0 ∧
    mul2 (gfmD (bit i)) ^^^ mul3 (gfmB (bit i)) ^^^ gfmE (bit i) ^^^ gfm9 (bit i) = 0 ∧
    mul2 (gfm9 (bit i)) ^^^ mul3 (gfmD (bit i)) ^^^ gfmB (bit i) ^^^ gfmE (bit i) = 0 := by
  rw [gfm9_eq, gfmB_eq, gfmD_eq, gfmE_eq]
  decide

theorem unmix_byte (x : UInt8) :
    gfmE (mul2 x) ^^^ gfmB x ^^^ gfmD x ^^^ gfm9 (mul3 x) = x ∧
    gfmE (mul3 x) ^^^ gfmB (mul2 x) ^^^ gfmD x ^^^ gfm9 x = 0 ∧
    gfmE x ^^^ gfmB (mul3 x) ^^^ gfmD (mul2 x) ^^^ gfm9 x = 0 ∧
    gfmE x ^^^ gfmB x ^^^ gfmD (mul3 x) ^^^ gfm9 (mul2 x) = 0 := by
  refine ⟨?_, ?_, ?_, ?_⟩
  · exact Linear.ext ((((linear_gfmE.comp linear_mul2).xor linear_gfmB).xor linear_gfmD).xor
      (linear_gfm9.comp linear_mul3)) linear_id (fun i hi => (unmix_bits i hi).1) x
  · exact Linear.ext ((((linear_gfmE.comp linear_mul3).xor (linear_gfmB.comp linear_mul2)).xor
      linear_gfmD).xor linear_gfm9) linear_zero (fun i hi => (unmix_bits i hi).2.1) x
  · exact Linear.ext (((linear_gfmE.xor (linear_gfmB.comp linear_mul3)).xor
      (linear_gfmD.comp linear_mul2)).xor linear_gfm9) linear_zero
      (fun i hi => (unmix_bits i hi).2.2.1) x
  · exact Linear.ext (((linear_gfmE.xor linear_gfmB).xor (linear_gfmD.comp linear_mul3)).xor
      (linear_gfm9.comp linear_mul2)) linear_zero (fun i hi => (unmix_bits i hi).2.2.2) x

theorem mix_byte (x : UInt8) :
    mul2 (gfmE x) ^^^ mul3 (gfm9 x) ^^^ gfmD x ^^^ gfmB x = x ∧
    mul2 (gfmB x) ^^^ mul3 (gfmE x) ^^^ gfm9 x ^^^ gfmD x = 0 ∧
    mul2 (gfmD x) ^^^ mul3 (gfmB x) ^^^ gfmE x ^^^ gfm9 x = 0 ∧
    mul2 (gfm9 x) ^^^ mul3 (gfmD x) ^^^ gfmB x ^^^ gfmE x = 0 := by
  refine ⟨?_, ?_, ?_, ?_⟩
  · exact Linear.ext ((((linear_mul2.comp linear_gfmE).xor (linear_mul3.comp linear_gfm9)).xor
      linear_gfmD).xor linear_gfmB) linear_id (fun i hi => (mix_bits i hi).1) x
  · exact Linear.ext ((((linear_mul2.comp linear_gfmB).xor (linear_mul3.comp linear_gfmE)).xor
      linear_gfm9).xor linear_gfmD) linear_zero (fun i hi => (mix_bits i hi).2.1) x
  · exact Linear.ext ((((linear_mul2.comp linear_gfmD).xor (linear_mul3.comp linear_gfmB)).xor
      linear_gfmE).xor linear_gfm9) linear_zero (fun i hi => (mix_bits i hi).2.2.1) x
  · exact Linear.ext ((((linear_mul2.comp linear_gfm9).xor (linear_mul3.comp linear_gfmD)).xor
      linear_gfmB).xor linear_gfmE) linear_zero (fun i hi => (mix_bits i hi).2.2.2) x

/-- Sixteen terms, by rows and by columns. -/
theorem xor_transpose (a₀ a₁ a₂ a₃ b₀ b₁ b₂ b₃ c₀ c₁ c₂ c₃ d₀ d₁ d₂ d₃ : UInt8) :
    a₀ ^^^ a₁ ^^^ a₂ ^^^ a₃ ^^^ (b₀ ^^^ b₁ ^^^ b₂ ^^^ b₃) ^^^ (c₀ ^^^ c₁ ^^^ c₂ ^^^ c₃)
        ^^^ (d₀ ^^^ d₁ ^^^ d₂ ^^^ d₃)
      = a₀ ^^^ b₀ ^^^ c₀ ^^^ d₀ ^^^ (a₁ ^^^ b₁ ^^^ c₁ ^^^ d₁) ^^^ (a₂ ^^^ b₂ ^^^ c₂ ^^^ d₂)
        ^^^ (a₃ ^^^ b₃ ^^^ c₃ ^^^ d₃) := by
  ac_rfl

/-- **Unmixing a mixed column**, the first byte. -/
theorem unmix_mix (a b c d : UInt8) :
    gfmE (mul2 a ^^^ mul3 b ^^^ c ^^^ d) ^^^ gfmB (a ^^^ mul2 b ^^^ mul3 c ^^^ d)
      ^^^ gfmD (a ^^^ b ^^^ mul2 c ^^^ mul3 d) ^^^ gfm9 (mul3 a ^^^ b ^^^ c ^^^ mul2 d) = a := by
  rw [linear_gfmE, linear_gfmE, linear_gfmE, linear_gfmB, linear_gfmB, linear_gfmB,
    linear_gfmD, linear_gfmD, linear_gfmD, linear_gfm9, linear_gfm9, linear_gfm9, xor_transpose,
    (unmix_byte a).1, (unmix_byte b).2.1, (unmix_byte c).2.2.1, (unmix_byte d).2.2.2]
  simp

/-- **Mixing an unmixed column**, the first byte. -/
theorem mix_unmix (a b c d : UInt8) :
    mul2 (gfmE a ^^^ gfmB b ^^^ gfmD c ^^^ gfm9 d)
      ^^^ mul3 (gfm9 a ^^^ gfmE b ^^^ gfmB c ^^^ gfmD d)
      ^^^ (gfmD a ^^^ gfm9 b ^^^ gfmE c ^^^ gfmB d) ^^^ (gfmB a ^^^ gfmD b ^^^ gfm9 c ^^^ gfmE d)
      = a := by
  rw [linear_mul2, linear_mul2, linear_mul2, linear_mul3, linear_mul3, linear_mul3, xor_transpose,
    (mix_byte a).1, (mix_byte b).2.1, (mix_byte c).2.2.1, (mix_byte d).2.2.2]
  simp

end CCode.Aes
