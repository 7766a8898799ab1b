import CCode.Lib.Absorb

/-!
# The buffer of the hash contexts

`mbedtls_sha1_update` and `mbedtls_sha512_update` do the same with what they are given, for blocks
of 64 and of 128 bytes: complete the block that is in the buffer, compress whole blocks where they
lie in the input, keep what is left. The three hash functions of the repository also agree on how a
message is padded, up to the order of the bytes of its length.

## Main definitions

* `bufferInput` — the common part of the update functions.
* `Buffered` — state and buffer after a message.
* `padded` — a message with its padding.

## Main results

* `bufferInput_spec` — the buffer is never left, and the message grows by the input.
-/

namespace CCode.Digest

open CCode.Lib

variable {σ : Type}

/-! ## Update -/

/-- `while( ilen >= n )`, with a bound on the number of its rounds: the state and what is left of
the input. -/
def inputBlocks (n : ℕ) (process : σ → List UInt8 → σ) : ℕ → σ → List UInt8 → σ × List UInt8
  | 0, state, input => (state, input)
  | fuel + 1, state, input =>
      if n ≤ input.length then
        inputBlocks n process fuel (process state (input.take n)) (input.drop n)
      else (state, input)

/-- `if( ilen > 0 )`: what makes no block goes to the buffer. -/
def keepInput (state : σ) (buffer : List UInt8) (left : ℕ) (input : List UInt8) :
    Option (σ × List UInt8) :=
  if 0 < input.length then (storeAll buffer left input).map fun buffer => (state, buffer)
  else some (state, buffer)

/-- The loop and what comes behind it. -/
def blocksAndRest (n : ℕ) (process : σ → List UInt8 → σ) (state : σ) (buffer : List UInt8)
    (left : ℕ) (input : List UInt8) : Option (σ × List UInt8) :=
  let (state, input) := inputBlocks n process input.length state input
  keepInput state buffer left input

/-- An update function behind its counters; `none` where `memcpy` leaves the buffer. -/
def bufferInput (n : ℕ) (process : σ → List UInt8 → σ) (state : σ) (buffer : List UInt8)
    (left : ℕ) (input : List UInt8) : Option (σ × List UInt8) :=
  let fill := n - left
  if left ≠ 0 ∧ fill ≤ input.length then do
    let buffer ← storeAll buffer left (input.take fill)
    blocksAndRest n process (process state buffer) buffer 0 (input.drop fill)
  else blocksAndRest n process state buffer left input

/-- The state, and a buffer of `n` bytes that starts with those that wait for a block. -/
inductive Buffered (n : ℕ) (process : σ → List UInt8 → σ) (init : σ) (msg : List UInt8) :
    σ → List UInt8 → Prop
  | intro {state : σ} (rest tail : List UInt8) (habs : Absorbed n process init msg state rest)
      (hlen : (rest ++ tail).length = n) : Buffered n process init msg state (rest ++ tail)

variable {n : ℕ} {process : σ → List UInt8 → σ} {init state : σ} {msg buffer : List UInt8}

/-- The loop takes the whole blocks. -/
theorem inputBlocks_eq (hn : 0 < n) {fuel : ℕ} {input : List UInt8} (hfuel : input.length ≤ fuel)
    (state : σ) :
    inputBlocks n process fuel state input
      = (foldBlocks n process (input.length / n) state input,
          input.drop (n * (input.length / n))) := by
  induction fuel generalizing input state with
  | zero =>
      have hnil : input = [] := List.eq_nil_of_length_eq_zero (by omega)
      simp [hnil, inputBlocks, foldBlocks]
  | succ fuel ih =>
      by_cases hblock : n ≤ input.length
      · have hdiv : input.length / n = (input.drop n).length / n + 1 := by
          rw [List.length_drop, ← Nat.sub_add_cancel hblock, Nat.add_div_right _ hn,
            Nat.add_sub_cancel]
        have hmul : n * (input.length / n) = n + n * ((input.drop n).length / n) := by
          rw [hdiv, Nat.mul_succ, Nat.add_comm]
        have hshort : (input.drop n).length ≤ fuel := by
          rw [List.length_drop]
          omega
        rw [inputBlocks, if_pos hblock, ih hshort, hmul, hdiv, foldBlocks, List.drop_drop]
      · have hdiv : input.length / n = 0 := Nat.div_eq_of_lt (by omega)
        rw [inputBlocks, if_neg hblock, hdiv]
        rfl

/-- What makes no block is kept. -/
theorem keepInput_spec {rest tail input : List UInt8}
    (habs : Absorbed n process init msg state rest) (hlen : (rest ++ tail).length = n)
    (hshort : rest.length + input.length < n) :
    ∃ buffer', keepInput state (rest ++ tail) rest.length input = some (state, buffer') ∧
      Buffered n process init (msg ++ input) state buffer' := by
  rw [List.length_append] at hlen
  by_cases hpos : 0 < input.length
  · have hsplit : tail = tail.take input.length ++ tail.drop input.length :=
      (List.take_append_drop _ _).symm
    have htake : (tail.take input.length).length = input.length := by
      rw [List.length_take]
      omega
    have hstore : storeAll (rest ++ tail) (rest.length : ℕ) input
        = some (rest ++ (input ++ tail.drop input.length)) := by
      rw [hsplit, storeAll_append rfl htake, List.take_append_drop]
    refine ⟨(rest ++ input) ++ tail.drop input.length, ?_, ?_⟩
    · rw [keepInput, if_pos hpos, hstore, List.append_assoc]
      rfl
    · apply Buffered.intro _ _ (habs.short hshort)
      simp only [List.length_append, List.length_drop]
      omega
  · have hnil : input = [] := List.eq_nil_of_length_eq_zero (by omega)
    refine ⟨rest ++ tail, if_neg hpos, ?_⟩
    rw [hnil, List.append_nil]
    exact Buffered.intro rest tail habs (by rwa [List.length_append])

/-- An input when nothing waits. -/
theorem blocksAndRest_spec (habs : Absorbed n process init msg state [])
    (hlen : buffer.length = n) (input : List UInt8) :
    ∃ state' buffer', blocksAndRest n process state buffer 0 input = some (state', buffer') ∧
      Buffered n process init (msg ++ input) state' buffer' := by
  have hn : 0 < n := habs.length_lt
  have hle : n * (input.length / n) ≤ input.length := Nat.mul_div_le _ _
  have hwhole : (input.take (n * (input.length / n))).length = n * (input.length / n) := by
    rw [List.length_take, Nat.min_eq_left hle]
  have hstate : foldBlocks n process (input.length / n) state input
      = foldBlocks n process (input.length / n) state (input.take (n * (input.length / n))) := by
    have h := @foldBlocks_eq_of_append UInt8 σ n process _ _ hwhole state
      (input.drop (n * (input.length / n)))
    rwa [List.take_append_drop] at h
  have hshort : ([] : List UInt8).length + (input.drop (n * (input.length / n))).length < n := by
    have hmod := Nat.mod_lt input.length hn
    have hsum := Nat.div_add_mod input.length n
    simp only [List.length_nil, List.length_drop]
    omega
  obtain ⟨buffer', hkeep, hbuf⟩ :=
    keepInput_spec (habs.blocks hwhole) (by simpa using hlen) hshort
  rw [List.append_assoc, List.take_append_drop] at hbuf
  refine ⟨_, buffer', ?_, hbuf⟩
  rw [blocksAndRest, inputBlocks_eq hn le_rfl, hstate]
  exact hkeep

/-- An input that does not complete the block that is in the buffer. -/
theorem blocksAndRest_short {rest tail input : List UInt8}
    (habs : Absorbed n process init msg state rest) (hlen : (rest ++ tail).length = n)
    (hshort : rest.length + input.length < n) :
    ∃ state' buffer',
      blocksAndRest n process state (rest ++ tail) rest.length input = some (state', buffer') ∧
      Buffered n process init (msg ++ input) state' buffer' := by
  have hn : 0 < n := by omega
  have hdiv : input.length / n = 0 := Nat.div_eq_of_lt (by omega)
  have hloop : inputBlocks n process input.length state input = (state, input) := by
    rw [inputBlocks_eq hn le_rfl, hdiv]
    rfl
  obtain ⟨buffer', hkeep, hbuf⟩ := keepInput_spec habs hlen hshort
  refine ⟨state, buffer', ?_, hbuf⟩
  rw [blocksAndRest, hloop]
  exact hkeep

/-- **What is given is absorbed**, and the buffer is not left. -/
theorem bufferInput_spec (h : Buffered n process init msg state buffer) {left : ℕ}
    (hleft : left = msg.length % n) (input : List UInt8) :
    ∃ state' buffer', bufferInput n process state buffer left input = some (state', buffer') ∧
      Buffered n process init (msg ++ input) state' buffer' := by
  cases h with
  | intro rest tail habs hlen =>
      have hrest : left = rest.length := by rw [habs.length_rest, hleft]
      have hlt := habs.length_lt
      have hsum : rest.length + tail.length = n := by rwa [List.length_append] at hlen
      by_cases hfill : left ≠ 0 ∧ n - left ≤ input.length
      · -- the block that is in the buffer is completed first
        have htail : tail.length = (input.take (n - left)).length := by
          rw [List.length_take]
          omega
        have hstore : storeAll (rest ++ tail) left (input.take (n - left))
            = some (rest ++ input.take (n - left)) := by
          have h := @storeAll_append UInt8 rest tail [] _ left (by rw [hrest]) htail
          rwa [List.append_nil, List.append_nil] at h
        have hfull : rest.length + (input.take (n - left)).length = n := by omega
        have hblock : (rest ++ input.take (n - left)).length = n := by
          rwa [List.length_append]
        obtain ⟨state', buffer', heq, hbuf⟩ :=
          blocksAndRest_spec (habs.fill hfull) hblock (input.drop (n - left))
        rw [List.append_assoc, List.take_append_drop] at hbuf
        refine ⟨state', buffer', ?_, hbuf⟩
        rw [bufferInput, if_pos hfill, hstore]
        exact heq
      · rw [bufferInput, if_neg hfill, hrest]
        by_cases hzero : left = 0
        · have hnil : rest = [] := List.eq_nil_of_length_eq_zero (by omega)
          subst hnil
          exact blocksAndRest_spec habs hlen input
        · exact blocksAndRest_short habs hlen (by omega)

/-- What the buffer is made of. -/
theorem Buffered.split (h : Buffered n process init msg state buffer) :
    ∃ rest tail, buffer = rest ++ tail ∧ (rest ++ tail).length = n ∧
      Absorbed n process init msg state rest := by
  cases h with
  | intro rest tail habs hlen => exact ⟨rest, tail, rfl, hlen, habs⟩

/-- Without waiting bytes, the state is that of the whole message. -/
theorem Buffered.eq_compressAll (h : Buffered n process init msg state buffer)
    (hdvd : n ∣ msg.length) : state = compressAll n process init msg := by
  cases h with
  | intro rest tail habs hlen =>
      have hzero : rest.length = 0 := by rw [habs.length_rest, Nat.mod_eq_zero_of_dvd hdvd]
      have hnil : rest = [] := List.eq_nil_of_length_eq_zero hzero
      subst hnil
      exact habs.eq_compressAll

/-! ## Padding -/

/-- `sha1_padding`, `sha512_padding` and `PADDING`. -/
def padding (n : ℕ) : List UInt8 := 0x80 :: List.replicate (n - 1) 0

/-- How much of it is used, before a length of `l` bytes. -/
def padLen (n l last : ℕ) : ℕ := if last < n - l then n - l - last else 2 * n - l - last

theorem padLen_le {l last : ℕ} (hl : l ≤ n) (hlast : last < n) : padLen n l last ≤ n := by
  rw [padLen]
  split <;> omega

/-- The padding of the source is as long as it takes. -/
theorem padLen_eq {l : ℕ} (hl : l < n) (len : ℕ) :
    padLen n l (len % n) = zerosFor n l len + 1 := by
  have hmod := Nat.mod_lt len (by omega : 0 < n)
  rw [padLen, zerosFor]
  generalize len % n = r at hmod ⊢
  by_cases hlt : r < n - l
  · rw [if_pos hlt, show 2 * n - 1 - l - r = (n - 1 - l - r) + n by omega, Nat.add_mod_right,
      Nat.mod_eq_of_lt (by omega)]
    omega
  · rw [if_neg hlt, Nat.mod_eq_of_lt (by omega)]
    omega

/-- **Message, padding, length**, as the finishing functions give them to the buffer. -/
theorem padded_eq {lenBytes : List UInt8} (hl : lenBytes.length < n) (msg : List UInt8) :
    msg ++ (padding n).take (padLen n lenBytes.length (msg.length % n)) ++ lenBytes
      = padded n lenBytes msg := by
  have hlast := Nat.mod_lt msg.length (by omega : 0 < n)
  have hle := padLen_le (Nat.le_of_lt hl) hlast
  rw [padLen_eq hl] at hle ⊢
  rw [padded, padding, List.take_succ_cons, List.take_replicate, Nat.min_eq_left (by omega)]

/-- An input whose length a `w`-bit type can hold. -/
abbrev SizedInput (w : ℕ) := { input : List UInt8 // input.length < 2 ^ w }

end CCode.Digest
