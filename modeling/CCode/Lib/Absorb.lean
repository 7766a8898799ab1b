import CCode.Lib.Block

/-!
# Messages that come in pieces

A hash function compresses a message block by block into a state, and a program that has the
message only in pieces keeps those entries that do not make a block yet. This module says what such
a program holds at any moment, and what a piece does to that, by the length of the piece: it is too
short for a block, it completes the block, or it is a number of blocks of its own.

## Main definitions

* `foldBlocks` — so many blocks, one after the other.
* `compressAll` — a message of whole blocks.
* `Absorbed` — the state and the waiting entries after a message.
* `leBytes`, `beBytes` — the bytes of a number.
* `padded` — a message that ends with its length.

## Main results

* `Absorbed.short`, `Absorbed.fill`, `Absorbed.blocks` — one piece.
* `Absorbed.eq_compressAll` — what a message without waiting entries has come to.
* `dvd_length_padded` — a padded message is a number of blocks.
-/

namespace CCode.Lib

variable {α σ : Type*}

/-- `k` blocks of `n` entries, one after the other. -/
def foldBlocks (n : ℕ) (f : σ → List α → σ) : ℕ → σ → List α → σ
  | 0, s, _ => s
  | k + 1, s, xs => foldBlocks n f k (f s (xs.take n)) (xs.drop n)

theorem foldBlocks_succ (n : ℕ) (f : σ → List α → σ) (k : ℕ) (s : σ) (xs : List α) :
    foldBlocks n f (k + 1) s xs = foldBlocks n f k (f s (xs.take n)) (xs.drop n) := rfl

/-- The blocks of a message. -/
def compressAll (n : ℕ) (f : σ → List α → σ) (s : σ) (msg : List α) : σ :=
  foldBlocks n f (msg.length / n) s msg

variable {n : ℕ} {f : σ → List α → σ}

/-- Blocks behind others. -/
theorem foldBlocks_append {k : ℕ} {whole : List α} (hw : whole.length = n * k) (l : ℕ) (s : σ)
    (xs : List α) :
    foldBlocks n f (k + l) s (whole ++ xs) = foldBlocks n f l (foldBlocks n f k s whole) xs := by
  induction k generalizing whole s with
  | zero =>
      have hnil : whole = [] := List.eq_nil_of_length_eq_zero (by simpa using hw)
      rw [hnil, Nat.zero_add]
      rfl
  | succ k ih =>
      have hle : n ≤ whole.length := by
        rw [hw, Nat.mul_succ]
        exact Nat.le_add_left n (n * k)
      have hdrop : (whole.drop n).length = n * k := by
        rw [List.length_drop, hw, Nat.mul_succ, Nat.add_sub_cancel]
      rw [Nat.succ_add, foldBlocks_succ, foldBlocks_succ, List.take_append_of_le_length hle,
        List.drop_append_of_le_length hle]
      exact ih hdrop (f s (whole.take n))

/-- One block. -/
theorem foldBlocks_one {block : List α} (hb : block.length = n) (s : σ) :
    foldBlocks n f 1 s block = f s block := by
  rw [foldBlocks_succ, List.take_of_length_le (Nat.le_of_eq hb)]
  rfl

/-- A block that is not there yet changes nothing. -/
theorem foldBlocks_eq_of_append {k : ℕ} {whole : List α} (hw : whole.length = n * k) (s : σ)
    (xs : List α) : foldBlocks n f k s (whole ++ xs) = foldBlocks n f k s whole :=
  foldBlocks_append hw 0 s xs

/-- The state and the entries that wait for a block, after a message from the state `init`. -/
inductive Absorbed (n : ℕ) (f : σ → List α → σ) (init : σ) : List α → σ → List α → Prop
  | intro (k : ℕ) (whole rest : List α) (hwhole : whole.length = n * k) (hrest : rest.length < n) :
      Absorbed n f init (whole ++ rest) (foldBlocks n f k init whole) rest

namespace Absorbed

variable {init s : σ} {msg rest : List α}

theorem nil (hn : 0 < n) : Absorbed n f init [] init [] :=
  intro 0 [] [] rfl hn

theorem length_lt (h : Absorbed n f init msg s rest) : rest.length < n := by
  cases h
  assumption

/-- The number of the waiting entries is known from the length of the message. -/
theorem length_rest (h : Absorbed n f init msg s rest) : rest.length = msg.length % n := by
  cases h with
  | intro k whole rest hwhole hrest =>
      rw [List.length_append, hwhole, Nat.mul_add_mod, Nat.mod_eq_of_lt hrest]

/-- Without waiting entries, all of the message is in the state. -/
theorem eq_compressAll (h : Absorbed n f init msg s []) : s = compressAll n f init msg := by
  have hn := h.length_lt
  generalize hr : ([] : List α) = rest at h
  cases h with
  | intro k whole rest hwhole hrest =>
      rw [← hr, List.append_nil, compressAll, hwhole, Nat.mul_div_cancel_left k hn]

/-- **A piece that makes no block** waits with the rest. -/
theorem short (h : Absorbed n f init msg s rest) {xs : List α}
    (hlt : rest.length + xs.length < n) : Absorbed n f init (msg ++ xs) s (rest ++ xs) := by
  cases h with
  | intro k whole rest hwhole hrest =>
      rw [List.append_assoc]
      exact intro k whole (rest ++ xs) hwhole (by rwa [List.length_append])

/-- **A piece that completes the block.** -/
theorem fill (h : Absorbed n f init msg s rest) {xs : List α}
    (heq : rest.length + xs.length = n) :
    Absorbed n f init (msg ++ xs) (f s (rest ++ xs)) [] := by
  cases h with
  | intro k whole rest hwhole hrest =>
      have hblock : (rest ++ xs).length = n := by rwa [List.length_append]
      have hstate : foldBlocks n f (k + 1) init (whole ++ (rest ++ xs))
          = f (foldBlocks n f k init whole) (rest ++ xs) := by
        rw [foldBlocks_append hwhole, foldBlocks_one hblock]
      have hlen : (whole ++ (rest ++ xs)).length = n * (k + 1) := by
        rw [List.length_append, hwhole, hblock, Nat.mul_succ]
      rw [List.append_assoc, ← hstate, ← List.append_nil (whole ++ (rest ++ xs))]
      rw [foldBlocks_eq_of_append hlen]
      exact intro (k + 1) _ [] hlen (by simp; omega)

/-- **A piece that is a number of blocks**, when nothing waits. -/
theorem blocks (h : Absorbed n f init msg s []) {l : ℕ} {xs : List α}
    (hlen : xs.length = n * l) :
    Absorbed n f init (msg ++ xs) (foldBlocks n f l s xs) [] := by
  have hn := h.length_lt
  generalize hr : ([] : List α) = rest at h ⊢
  cases h with
  | intro k whole rest hwhole hrest =>
      subst hr
      have hall : (whole ++ xs).length = n * (k + l) := by
        rw [List.length_append, hwhole, hlen, Nat.mul_add]
      rw [List.append_nil, ← foldBlocks_append hwhole, ← List.append_nil (whole ++ xs),
        foldBlocks_eq_of_append hall]
      exact intro (k + l) _ [] hall hn

end Absorbed

/-! ## Padding -/

/-- The `k` lowest bytes of a number, the lowest first. -/
def leBytes : ℕ → ℕ → List UInt8
  | 0, _ => []
  | k + 1, v => UInt8.ofNat v :: leBytes k (v / 256)

/-- The `k` lowest bytes of a number, the highest first. -/
def beBytes (k v : ℕ) : List UInt8 := (leBytes k v).reverse

theorem leBytes_zero (v : ℕ) : leBytes 0 v = [] := rfl

theorem leBytes_succ (k v : ℕ) : leBytes (k + 1) v = UInt8.ofNat v :: leBytes k (v / 256) := rfl

@[simp] theorem length_leBytes (k v : ℕ) : (leBytes k v).length = k := by
  induction k generalizing v with
  | zero => rfl
  | succ k ih => rw [leBytes_succ, List.length_cons, ih]

@[simp] theorem length_beBytes (k v : ℕ) : (beBytes k v).length = k := by
  rw [beBytes, List.length_reverse, length_leBytes]

theorem leBytes_add (k l v : ℕ) : leBytes (k + l) v = leBytes k v ++ leBytes l (v / 256 ^ k) := by
  induction k generalizing v with
  | zero => rw [Nat.zero_add, Nat.pow_zero, Nat.div_one, leBytes_zero, List.nil_append]
  | succ k ih =>
      rw [Nat.succ_add, leBytes_succ, ih, leBytes_succ, List.cons_append, Nat.div_div_eq_div_mul,
        ← Nat.pow_succ']

theorem beBytes_add (k l v : ℕ) : beBytes (k + l) v = beBytes k (v / 256 ^ l) ++ beBytes l v := by
  rw [beBytes, Nat.add_comm, leBytes_add, List.reverse_append]
  rfl

/-- The bytes do not see what is above them. -/
theorem leBytes_mod (k v : ℕ) : leBytes k (v % 256 ^ k) = leBytes k v := by
  induction k generalizing v with
  | zero => rfl
  | succ k ih =>
      have hhead : UInt8.ofNat (v % 256 ^ (k + 1)) = UInt8.ofNat v := by
        apply UInt8.toNat_inj.mp
        rw [UInt8.toNat_ofNat', UInt8.toNat_ofNat', Nat.pow_succ]
        exact Nat.mod_mul_left_mod v (256 ^ k) 256
      have htail : v % 256 ^ (k + 1) / 256 = v / 256 % 256 ^ k := by
        rw [Nat.pow_succ']
        exact Nat.mod_mul_right_div_self v 256 (256 ^ k)
      rw [leBytes_succ, leBytes_succ, hhead, htail, ih]

theorem beBytes_mod (k v : ℕ) : beBytes k (v % 256 ^ k) = beBytes k v := by
  rw [beBytes, leBytes_mod, beBytes]

/-- The zeros between the byte `0x80` and the last `l` bytes of a block of `n`. -/
def zerosFor (n l len : ℕ) : ℕ := (2 * n - 1 - l - len % n) % n

/-- A message that ends with its length. -/
def padded (n : ℕ) (lenBytes msg : List UInt8) : List UInt8 :=
  msg ++ (0x80 :: List.replicate (zerosFor n lenBytes.length msg.length) 0) ++ lenBytes

/-- The padding is as long as it takes. -/
theorem dvd_zerosFor {l : ℕ} (hl : l < n) (len : ℕ) :
    n ∣ len % n + zerosFor n l len + 1 + l := by
  have hmod := Nat.mod_lt len (by omega : 0 < n)
  rw [zerosFor]
  generalize len % n = r at hmod ⊢
  by_cases hlt : r + l < n
  · have hz : (2 * n - 1 - l - r) % n = n - 1 - l - r := by
      rw [show 2 * n - 1 - l - r = (n - 1 - l - r) + n by omega, Nat.add_mod_right]
      exact Nat.mod_eq_of_lt (by omega)
    rw [hz]
    exact ⟨1, by omega⟩
  · rw [Nat.mod_eq_of_lt (show 2 * n - 1 - l - r < n by omega)]
    exact ⟨2, by omega⟩

/-- A padded message is a number of blocks. -/
theorem dvd_length_padded {lenBytes : List UInt8} (hl : lenBytes.length < n) (msg : List UInt8) :
    n ∣ (padded n lenBytes msg).length := by
  have hlen : (padded n lenBytes msg).length = n * (msg.length / n) + (msg.length % n
      + zerosFor n lenBytes.length msg.length + 1 + lenBytes.length) := by
    have hsum := Nat.div_add_mod msg.length n
    simp only [padded, List.length_append, List.length_cons, List.length_replicate]
    omega
  rw [hlen]
  exact Nat.dvd_add (Nat.dvd_mul_right n _) (dvd_zerosFor hl msg.length)

end CCode.Lib
