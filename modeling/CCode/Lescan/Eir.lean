import CCode.Lib.Checked

/-!
# Advertising data

`eir_parse_iBeacon` of `lescan.c` looks for the advertisement of a beacon in the payload of an
advertising report, a sequence of fields `| len | type | data |`. It stops at a field with the
length zero and at one that does not fit. The test for the latter forgets the byte of the length
itself, and a field that starts like a beacon is printed whatever its length is.

The offset and the pointer move together, so there is one of them; an offset is at most 256
beyond the end of the payload, which no block of memory makes a `size_t` overflow. Reads are
checked against the payload.

## Main definitions

* `matchesAt` — a chain of comparisons, each of which reads one byte more.
* `eirLoop`, `eirParseIBeacon` — the loop.
* `Overreads` — a field of the payload makes the loop read behind it.
-/

namespace CCode.Lescan

open CCode.Lib

/-- The bytes at an offset are compared one after the other, up to the first difference. -/
def matchesAt (eir : List UInt8) : ℕ → List UInt8 → Option Bool
  | _, [] => some true
  | p, b :: bs => do
      let c ← u8At eir p
      if c = b then matchesAt eir (p + 1) bs else some false

/-- The type of a vendor's field, the company and the indicator of a beacon. -/
def beaconPrefix : List UInt8 := [0xFF, 0x4C, 0x00, 0x02, 0x15]

/-- The places that are printed, in their order: the UUID, the numbers and the power. -/
def printed : List ℕ := (List.range 16).map (6 + ·) ++ [23, 22, 25, 24, 26]

/-- What is written to `buf`. -/
inductive Parsed
  | iBeacon (bytes : List UInt8)
  | notIBeacon
  deriving DecidableEq, Repr

/-- The loop of `eir_parse_iBeacon`, from an offset on. -/
def eirLoop (eir : List UInt8) : ℕ → ℕ → Option Parsed
  | 0, _ => none
  | fuel + 1, offset =>
      if offset < eir.length then do
        let fieldLen := (← u8At eir offset).toNat
        if fieldLen = 0 then some .notIBeacon
        else if offset + fieldLen > eir.length then some .notIBeacon
        else
          -- the `switch` and both `if`s
          let found ← matchesAt eir (offset + 1) beaconPrefix
          if found then (printed.mapM fun k => u8At eir (offset + k)).map .iBeacon
          else eirLoop eir fuel (offset + fieldLen + 1)
      else some .notIBeacon

/-- `eir_parse_iBeacon`. A round of the loop leaves two bytes behind or more. -/
def eirParseIBeacon (eir : List UInt8) : Option Parsed := eirLoop eir (eir.length + 1) 0

/-- Behind fields that are passed over, none of which is a beacon, there is one that ends the
payload before all that is read of it: it is the first bytes of a beacon and nothing more, or
those of a beacon with less than the 26 bytes that are printed or skipped. -/
inductive Overreads : List UInt8 → Prop
  | here {len : UInt8} {rest : List UInt8} :
      len ≠ 0 → len.toNat ≤ rest.length + 1 → rest.length < 26 →
      rest <+: beaconPrefix ∨ beaconPrefix <+: rest → Overreads (len :: rest)
  | skip {len : UInt8} {rest : List UInt8} :
      len ≠ 0 → len.toNat ≤ rest.length + 1 → ¬ beaconPrefix <+: rest →
      Overreads (rest.drop len.toNat) → Overreads (len :: rest)

/-! ## Reads -/

/-- The comparison leaves the payload if this ends with the first bytes of those wanted. -/
theorem matchesAt_append (pre rest bs : List UInt8) :
    matchesAt (pre ++ rest) pre.length bs =
      if bs <+: rest then some true else if rest <+: bs then none else some false := by
  induction bs generalizing pre rest with
  | nil => simp [matchesAt]
  | cons b bs ih =>
      cases rest with
      | nil => simp [matchesAt, u8At]
      | cons c rest =>
          rw [matchesAt, u8At_append, Option.bind_eq_bind, Option.bind_some]
          by_cases hc : c = b
          · have hnext := ih (pre ++ [c]) rest
            rw [List.append_assoc, List.singleton_append, List.length_append,
              List.length_singleton] at hnext
            simp only [hc, if_true, List.cons_prefix_cons, true_and]
            rw [hc] at hnext
            exact hnext
          · simp [hc, Ne.symm hc]

/-- Reads at several places. -/
theorem mapM_u8At_isSome {eir : List UInt8} {offset : ℕ} (ks : List ℕ) :
    (ks.mapM fun k => u8At eir (offset + k)).isSome ↔ ∀ k ∈ ks, offset + k < eir.length := by
  induction ks with
  | nil => simp
  | cons k ks ih =>
      rw [List.mapM_cons, List.forall_mem_cons, ← ih]
      by_cases hk : offset + k < eir.length
      · have hread : u8At eir (offset + k) = some eir[offset + k] := List.getElem?_eq_getElem hk
        rw [hread]
        cases hks : ks.mapM fun k => u8At eir (offset + k) with
        | none => simp
        | some bytes => simp [hk]
      · rw [u8At_eq_none (by omega)]
        simp [hk]

/-- The last byte that is printed is the 26th behind the length. -/
theorem forall_mem_printed {offset n : ℕ} : (∀ k ∈ printed, offset + k < n) ↔ offset + 26 < n := by
  constructor
  · intro h
    exact h 26 (by decide)
  · intro h k hk
    have hle : ∀ k ∈ printed, k ≤ 26 := by decide
    have := hle k hk
    omega

/-! ## The loop -/

/-- **A round of the loop on a field.** -/
theorem eirLoop_field (fuel : ℕ) (pre : List UInt8) {len : UInt8} (rest : List UInt8)
    (hne : len ≠ 0) (hfit : len.toNat ≤ rest.length + 1) :
    eirLoop (pre ++ len :: rest) (fuel + 1) pre.length =
      if beaconPrefix <+: rest then
        (printed.mapM fun k => u8At (pre ++ len :: rest) (pre.length + k)).map .iBeacon
      else if rest <+: beaconPrefix then none
      else eirLoop (pre ++ len :: rest) fuel (pre.length + len.toNat + 1) := by
  have hlt : pre.length < (pre ++ len :: rest).length := by simp
  have hzero : len.toNat ≠ 0 := fun h => hne (UInt8.toNat_inj.mp h)
  have hfit' : ¬ pre.length + len.toNat > (pre ++ len :: rest).length := by
    simp only [List.length_append, List.length_cons]
    omega
  have hmatch := matchesAt_append (pre ++ [len]) rest beaconPrefix
  rw [List.append_assoc, List.singleton_append, List.length_append, List.length_singleton] at hmatch
  rw [eirLoop, if_pos hlt, u8At_append, Option.bind_eq_bind, Option.bind_some, if_neg hzero,
    if_neg hfit', hmatch]
  by_cases hbeacon : beaconPrefix <+: rest
  · simp only [if_pos hbeacon, Option.bind_eq_bind, Option.bind_some, if_true]
  · by_cases hcut : rest <+: beaconPrefix
    · simp only [if_neg hbeacon, if_pos hcut, Option.bind_eq_bind, Option.bind_none]
    · simp only [if_neg hbeacon, if_neg hcut, Option.bind_eq_bind, Option.bind_some,
        Bool.false_eq_true, if_false]

/-- The end of the payload. -/
theorem eirLoop_end (fuel : ℕ) {eir : List UInt8} {offset : ℕ} (h : eir.length ≤ offset) :
    eirLoop eir (fuel + 1) offset = some .notIBeacon := by
  rw [eirLoop, if_neg (by omega)]

/-- A field without length, or one that does not fit. -/
theorem eirLoop_stop (fuel : ℕ) (pre : List UInt8) {len : UInt8} {rest : List UInt8}
    (h : ¬ (len ≠ 0 ∧ len.toNat ≤ rest.length + 1)) :
    eirLoop (pre ++ len :: rest) (fuel + 1) pre.length = some .notIBeacon := by
  have hlt : pre.length < (pre ++ len :: rest).length := by simp
  rw [eirLoop, if_pos hlt, u8At_append, Option.bind_eq_bind, Option.bind_some]
  by_cases hzero : len.toNat = 0
  · rw [if_pos hzero]
  · have hne : len ≠ 0 := by
      rintro rfl
      exact hzero rfl
    have hbig : pre.length + len.toNat > (pre ++ len :: rest).length := by
      have hbig := mt (And.intro hne) h
      simp only [List.length_append, List.length_cons]
      omega
    rw [if_neg hzero, if_pos hbig]

theorem not_overreads_nil : ¬ Overreads [] := by
  intro h
  cases h

/-- What a field of the payload makes of the rest. -/
theorem overreads_field_iff {len : UInt8} {rest : List UInt8} (hne : len ≠ 0)
    (hfit : len.toNat ≤ rest.length + 1) :
    Overreads (len :: rest) ↔
      if beaconPrefix <+: rest then rest.length < 26
      else rest <+: beaconPrefix ∨ Overreads (rest.drop len.toNat) := by
  by_cases hbeacon : beaconPrefix <+: rest
  · rw [if_pos hbeacon]
    constructor
    · intro h
      cases h with
      | here _ _ hshort _ => exact hshort
      | skip _ _ hno _ => exact absurd hbeacon hno
    · intro hshort
      exact .here hne hfit hshort (.inr hbeacon)
  · rw [if_neg hbeacon]
    constructor
    · intro h
      cases h with
      | here _ _ _ hstart => exact .inl (hstart.resolve_right hbeacon)
      | skip _ _ _ hrest => exact .inr hrest
    · rintro (hcut | hrest)
      · have hlen : rest.length ≤ 5 := hcut.length_le
        exact .here hne hfit (by omega) (.inl hcut)
      · exact .skip hne hfit hbeacon hrest

/-- **The loop leaves the payload exactly if a field of it makes it.** -/
theorem eirLoop_eq_none_iff {fuel : ℕ} {pre rest : List UInt8} (hfuel : rest.length < fuel) :
    eirLoop (pre ++ rest) fuel pre.length = none ↔ Overreads rest := by
  induction fuel generalizing pre rest with
  | zero => omega
  | succ fuel ih =>
      cases rest with
      | nil =>
          rw [eirLoop_end fuel (by simp)]
          exact iff_of_false (by simp) not_overreads_nil
      | cons len rest =>
          rw [List.length_cons] at hfuel
          by_cases hfield : len ≠ 0 ∧ len.toNat ≤ rest.length + 1
          · obtain ⟨hne, hfit⟩ := hfield
            rw [eirLoop_field fuel pre rest hne hfit, overreads_field_iff hne hfit]
            by_cases hbeacon : beaconPrefix <+: rest
            · rw [if_pos hbeacon, if_pos hbeacon, Option.map_eq_none_iff,
                ← Option.not_isSome_iff_eq_none, mapM_u8At_isSome, forall_mem_printed,
                List.length_append, List.length_cons]
              omega
            · rw [if_neg hbeacon, if_neg hbeacon]
              by_cases hcut : rest <+: beaconPrefix
              · simp [hcut]
              · rw [if_neg hcut, or_iff_right hcut]
                -- the loop goes on behind the field, or the payload ends there
                by_cases hend : len.toNat ≤ rest.length
                · have hnext := @ih (pre ++ len :: rest.take len.toNat) (rest.drop len.toNat)
                    (by rw [List.length_drop]; omega)
                  have hlen : (pre ++ len :: rest.take len.toNat).length =
                      pre.length + len.toNat + 1 := by
                    simp only [List.length_append, List.length_cons, List.length_take]
                    omega
                  rw [hlen, List.append_assoc, List.cons_append, List.take_append_drop] at hnext
                  exact hnext
                · obtain ⟨fuel, rfl⟩ : ∃ n, fuel = n + 1 := ⟨fuel - 1, by omega⟩
                  have hbehind : (pre ++ len :: rest).length ≤ pre.length + len.toNat + 1 := by
                    simp only [List.length_append, List.length_cons]
                    omega
                  rw [eirLoop_end fuel hbehind, List.drop_eq_nil_of_le (by omega)]
                  exact iff_of_false (by simp) not_overreads_nil
          · rw [eirLoop_stop fuel pre hfield]
            refine iff_of_false (by simp) ?_
            intro h
            cases h with
            | here hne hfit _ _ => exact hfield ⟨hne, hfit⟩
            | skip hne hfit _ _ => exact hfield ⟨hne, hfit⟩

/-- **The loop ends and stays in the payload exactly if no field makes it read on.** -/
theorem eirParseIBeacon_isSome_iff (eir : List UInt8) :
    (eirParseIBeacon eir).isSome ↔ ¬ Overreads eir := by
  have h := @eirLoop_eq_none_iff (eir.length + 1) [] eir (by omega)
  rw [← h, Option.isSome_iff_ne_none]
  rfl

/-- The flags, and a vendor's field of six bytes that starts like a beacon and ends there. -/
theorem eirParseIBeacon_short_beacon :
    ¬ (eirParseIBeacon
      [0x02, 0x01, 0x06, 0x06, 0xFF, 0x4C, 0x00, 0x02, 0x15, 0x00]).isSome := by
  decide

end CCode.Lescan
