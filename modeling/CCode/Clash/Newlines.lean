import CCode.Lib.Checked

/-!
# The line ends of a screenshot

A screenshot that `adb` prints arrives with a carriage return in front of every line feed.
`th_get_screen` takes them out again: a loop over the file but its last byte drops each carriage
return with a line feed behind it, and the last byte is copied whatever it is. The image is
binary, so it has carriage returns of its own. On Windows the loop runs twice.

The loop counts bytes read, so its bound is that of the file; what is written is a list that
grows. Reads are checked against the buffer.

## Main definitions

* `crLoop`, `dropCr`, `thGetScreen` — the loop, with the last byte, and both passes.
* `withCr` — a carriage return in front of every line feed.
-/

namespace CCode.Clash

open CCode.Lib

/-- `0x0D`. -/
abbrev cr : UInt8 := 0x0D
/-- `0x0A`. -/
abbrev lf : UInt8 := 0x0A

/-- The rounds of the loop that are left, from `q` on. -/
def crLoop (orgBuf : List UInt8) : ℕ → ℕ → List UInt8 → Option (ℕ × List UInt8)
  | 0, q, newBuf => some (q, newBuf)
  | n + 1, q, newBuf => do
      let b ← u8At orgBuf q
      -- `&&` reads the next byte behind a carriage return only
      let drop ← if b = cr then (u8At orgBuf (q + 1)).map (· == lf) else some false
      if drop then crLoop orgBuf n (q + 1) newBuf
      else crLoop orgBuf n (q + 1) (newBuf ++ [b])

/-- The loop and the last byte. -/
def dropCr (orgBuf : List UInt8) (size : ℕ) : Option (List UInt8) := do
  let (q, newBuf) ← crLoop orgBuf (size - 1) 0 []
  let b ← u8At orgBuf q
  some (newBuf ++ [b])

/-- What `th_get_screen` publishes of a file. The second pass is compiled for Windows only; the
bytes of the first are copied over the start of the buffer. -/
def thGetScreen (win32 : Bool) (orgBuf : List UInt8) (size : ℕ) : Option (List UInt8) := do
  let newBuf ← dropCr orgBuf size
  if win32 then dropCr (newBuf ++ orgBuf.drop newBuf.length) newBuf.length else some newBuf

/-- A carriage return in front of every line feed. -/
def withCr (s : List UInt8) : List UInt8 := s.flatMap fun b => if b = lf then [cr, lf] else [b]

/-- What the loop and the last byte make of a string. -/
def joined : List UInt8 → List UInt8
  | [] => []
  | [b] => [b]
  | b :: b' :: s => if b = cr ∧ b' = lf then joined (b' :: s) else b :: joined (b' :: s)

/-- The loop stays in the string, and so does the last byte. -/
theorem crLoop_joined (pre s post newBuf : List UInt8) (b : UInt8) :
    (do
      let (q, newBuf) ← crLoop (pre ++ b :: s ++ post) s.length pre.length newBuf
      let b ← u8At (pre ++ b :: s ++ post) q
      some (newBuf ++ [b])) = some (newBuf ++ joined (b :: s)) := by
  induction s generalizing pre newBuf b with
  | nil => simp [crLoop, joined, u8At]
  | cons b' s ih =>
      have hb : u8At (pre ++ b :: (b' :: s) ++ post) pre.length = some b := by
        simp [u8At]
      have hb' : u8At (pre ++ b :: (b' :: s) ++ post) (pre.length + 1) = some b' := by
        simp [u8At]
      have hnext := fun newBuf => ih (pre ++ [b]) newBuf b'
      have hpre : pre ++ [b] ++ b' :: s ++ post = pre ++ b :: (b' :: s) ++ post := by simp
      rw [hpre, List.length_append, List.length_singleton] at hnext
      simp only [List.length_cons, crLoop, hb, hb', joined, Option.bind_eq_bind,
        Option.bind_some, Option.map_some] at hnext ⊢
      by_cases hcr : b = cr
      · by_cases hlf : b' = lf
        · simpa [hcr, hlf] using hnext newBuf
        · simpa [hcr, hlf] using hnext (newBuf ++ [b])
      · simpa [hcr] using hnext (newBuf ++ [b])

/-- **The loop on a string at the start of the buffer.** -/
theorem dropCr_eq {s : List UInt8} (hs : s ≠ []) (post : List UInt8) :
    dropCr (s ++ post) s.length = some (joined s) := by
  obtain ⟨b, s, rfl⟩ := List.exists_cons_of_ne_nil hs
  have h := crLoop_joined [] s post [] b
  simpa [dropCr] using h

/-- What starts with a carriage return in front of every line feed does not start with one. -/
theorem head_withCr (s : List UInt8) : (withCr s).head? ≠ some lf := by
  cases s with
  | nil => simp [withCr]
  | cons b s =>
      by_cases hb : b = lf
      · have hne : cr ≠ lf := by decide
        simpa [withCr, hb] using hne
      · simp [withCr, hb]

/-- A byte that is no carriage return in front of a line feed stays. -/
theorem joined_cons {b : UInt8} {s : List UInt8} (h : ¬ (b = cr ∧ s.head? = some lf)) :
    joined (b :: s) = b :: joined s := by
  cases s with
  | nil => rfl
  | cons b' s => rw [joined, if_neg (by simpa using h)]

theorem joined_withCr (s : List UInt8) : joined (withCr s) = s := by
  induction s with
  | nil => rfl
  | cons b s ih =>
      have hhead := head_withCr s
      by_cases hb : b = lf
      · have hcons : withCr (b :: s) = cr :: lf :: withCr s := by simp [withCr, hb]
        rw [hcons, joined, if_pos ⟨rfl, rfl⟩, joined_cons fun h => absurd h.1 (by decide), ih,
          hb]
      · have hcons : withCr (b :: s) = b :: withCr s := by simp [withCr, hb]
        rw [hcons, joined_cons fun h => hhead h.2, ih]

theorem withCr_ne_nil {s : List UInt8} (h : s ≠ []) : withCr s ≠ [] := by
  intro hnil
  have := joined_withCr s
  rw [hnil] at this
  exact h this.symm

/-- **Every string is recovered**, wherever it has carriage returns and line feeds of its own. -/
theorem dropCr_withCr {s : List UInt8} (hs : s ≠ []) (post : List UInt8) :
    dropCr (withCr s ++ post) (withCr s).length = some s := by
  rw [dropCr_eq (withCr_ne_nil hs), joined_withCr]

/-- A string that ends in a carriage return and has line feeds next to each other. -/
theorem dropCr_withCr_mixed :
    dropCr (withCr [cr, lf, lf, cr, cr] ++ [lf]) 7 = some [cr, lf, lf, cr, cr] :=
  dropCr_withCr (by decide) [lf]

/-- On Windows a string is recovered that has gone through both translations. -/
theorem thGetScreen_win32 {s : List UInt8} (hs : s ≠ []) (post : List UInt8) :
    thGetScreen true (withCr (withCr s) ++ post) (withCr (withCr s)).length = some s := by
  rw [thGetScreen, dropCr_withCr (withCr_ne_nil hs), Option.bind_eq_bind, Option.bind_some,
    if_pos rfl, dropCr_withCr hs]

end CCode.Clash
