import CCode.Lib.Flood
import Mathlib.Data.Finset.Prod

/-!
# The digits on a screenshot

`get_screen.c` finds the bright pixels that belong to a digit with a recursive fill of a small
window of the screenshot: `score_map` from every bright pixel of a row of the score, and
`num_map` from one pixel of a card. The map of marks is a `char` array over the window; the
calls have the coordinates in the window and those on the screen, which move together.

A call is `none` where it reads a pixel that the buffer of the screenshot does not have, or
where it goes deeper than its bound. Neither happens, and the map shows what is connected to
the seeds whatever their order is. What the marks are used for, the comparison with the digits,
is not part of it.

## Main definitions

* `Screen`, `Screen.pixel` — a screenshot, and a checked read.
* `pixelMap`, `numMap`, `scoreMap` — the fill.
* `fillScore`, `fillNum` — its calls in `get_1920_1080_score` and `get_1920_1080_num`.
* `WindowAt.picture` — a window of the screen as a picture.
-/

namespace CCode.Clash

open CCode.Lib

/-- `WIDTH`. -/
abbrev width : ℕ := 1080
/-- The number of whole rows in a buffer of `MAX_BUF_SIZE` bytes. -/
abbrev rows : ℕ := 970

example : rows = (4 <<< 20) / (4 * width) := by decide

/-- `struct rgba`. -/
structure Rgba where
  r : UInt8
  g : UInt8
  b : UInt8
  a : UInt8

/-- `struct screen`: the pixels. -/
structure Screen where
  data : Fin rows → Fin width → Rgba

/-- `screen->data[sy][sx]`. -/
def Screen.pixel (screen : Screen) (sx sy : ℤ) : Option Rgba :=
  if h : (0 ≤ sx ∧ sx < width) ∧ 0 ≤ sy ∧ sy < rows then
    some (screen.data ⟨sy.toNat, by omega⟩ ⟨sx.toNat, by omega⟩)
  else none

/-- `IS_NUM_COL`. -/
def isNumCol (c : Rgba) : Bool := c.r > 200 && c.g > 200 && c.b > 200

/-- `IS_SCORE_COL`. -/
def isScoreCol (c : Rgba) : Bool := c.r > 200 && c.g > 200 && c.b > 200

/-- The marks on a window, by the column and the row. -/
abbrev Marks := ℤ × ℤ → ℤ

/-- `num_map` and `score_map`, with the size of the window and the colour. -/
def pixelMap (w h : ℤ) (isCol : Rgba → Bool) (screen : Screen) :
    ℕ → Marks → ℤ → ℤ → ℤ → ℤ → Option Marks
  | 0, _, _, _, _, _ => none
  | fuel + 1, m, x, y, sx, sy =>
      if x < 0 ∨ y < 0 ∨ w ≤ x ∨ h ≤ y ∨ m (x, y) ≠ 0 then some m
      else do
        let c ← screen.pixel sx sy
        if isCol c then
          let m := Function.update m (x, y) 1
          let m ← pixelMap w h isCol screen fuel m x (y + 1) sx (sy + 1)
          let m ← pixelMap w h isCol screen fuel m x (y - 1) sx (sy - 1)
          let m ← pixelMap w h isCol screen fuel m (x + 1) y (sx + 1) sy
          pixelMap w h isCol screen fuel m (x - 1) y (sx - 1) sy
        else some (Function.update m (x, y) (-1))

/-- `num_map`. -/
def numMap (screen : Screen) : ℕ → Marks → ℤ → ℤ → ℤ → ℤ → Option Marks :=
  pixelMap 64 64 isNumCol screen

/-- `score_map`. -/
def scoreMap (screen : Screen) : ℕ → Marks → ℤ → ℤ → ℤ → ℤ → Option Marks :=
  pixelMap 100 30 isScoreCol screen

/-- `SC_POS_X_S`. -/
abbrev scPosXS : ℤ := 99
/-- `SC_POS_OFFSET`. -/
abbrev scPosOffset : ℤ := 192 + 1 + 5
/-- `SC_POS_Y`. -/
abbrev scPosY : ℤ := scPosOffset + 30 / 2

/-- The columns from `SC_POS_X_S` to before `SC_POS_X_E`, which is 198. -/
def scoreCols : List ℤ := (List.range 99).map fun i : ℕ => scPosXS + i

/-- The calls of `score_map` in `get_1920_1080_score`, for the columns in some order. -/
def fillScore (fuel : ℕ) (screen : Screen) (cols : List ℤ) : Option Marks :=
  cols.foldlM (fun sc i => do
    let c ← screen.pixel i scPosY
    if isScoreCol c then scoreMap screen fuel sc (i - scPosXS) (scPosY - scPosOffset) i scPosY
    else some sc) fun _ => 0

/-- `POS_X_1` to `POS_X_4`. -/
def cardPos : List ℤ := [354, 558, 762, 964]

/-- `USE_EX_Y_POS` and `SE_EX_Y_POS`. -/
def exYPos : List ℤ := [192 - (1920 - 1767), 192 - (1920 - 1736)]

/-- The call of `num_map` in `get_1920_1080_num`. -/
def fillNum (fuel : ℕ) (screen : Screen) (posX posY : ℤ) : Option Marks :=
  numMap screen fuel (fun _ => 0) 32 10 (posX - 18) (posY + 18)

/-! ## The window as a picture -/

/-- A window that lies on the screen, with the colour that counts as bright. -/
structure WindowAt where
  w : ℤ
  h : ℤ
  left : ℤ
  top : ℤ
  isCol : Rgba → Bool
  left_nonneg : 0 ≤ left
  right_le : left + w ≤ width
  top_nonneg : 0 ≤ top
  bottom_le : top + h ≤ rows

/-- The pixels of the window, each with the four beside it in the order of the calls. -/
def WindowAt.picture (win : WindowAt) (screen : Screen) : Picture (ℤ × ℤ) where
  window := (Finset.range win.w.toNat ×ˢ Finset.range win.h.toNat).map
    (Nat.castEmbedding.prodMap Nat.castEmbedding)
  bright c := (screen.pixel (c.1 + win.left) (c.2 + win.top)).any win.isCol
  nbrs c := [(c.1, c.2 + 1), (c.1, c.2 - 1), (c.1 + 1, c.2), (c.1 - 1, c.2)]

theorem WindowAt.mem_window (win : WindowAt) (screen : Screen) {x y : ℤ} :
    (x, y) ∈ (win.picture screen).window ↔ (0 ≤ x ∧ x < win.w) ∧ 0 ≤ y ∧ y < win.h := by
  simp only [picture, Finset.mem_map, Finset.mem_product, Finset.mem_range, Prod.exists,
    Function.Embedding.coe_prodMap, Nat.castEmbedding_apply, Prod.map_apply, Prod.mk.injEq]
  constructor
  · rintro ⟨i, j, ⟨hi, hj⟩, rfl, rfl⟩
    omega
  · intro h
    exact ⟨x.toNat, y.toNat, by omega, by omega, by omega⟩

/-- A pixel of the window is on the screen. -/
theorem WindowAt.exists_pixel (win : WindowAt) (screen : Screen) {x y : ℤ}
    (h : (0 ≤ x ∧ x < win.w) ∧ 0 ≤ y ∧ y < win.h) :
    ∃ c, screen.pixel (x + win.left) (y + win.top) = some c ∧
      (win.picture screen).bright (x, y) = win.isCol c := by
  have hx := win.left_nonneg
  have hx' := win.right_le
  have hy := win.top_nonneg
  have hy' := win.bottom_le
  have hin : (0 ≤ x + win.left ∧ x + win.left < width) ∧
      0 ≤ y + win.top ∧ y + win.top < rows := by omega
  refine ⟨_, dif_pos hin, ?_⟩
  simp only [picture, Screen.pixel, dif_pos hin, Option.any_some]

/-- **The fill of a window is the fill of the picture.** -/
theorem WindowAt.pixelMap_eq (win : WindowAt) (screen : Screen) (fuel : ℕ) (m : Marks) (x y : ℤ) :
    pixelMap win.w win.h win.isCol screen fuel m x y (x + win.left) (y + win.top) =
      (win.picture screen).flood fuel m (x, y) := by
  induction fuel generalizing m x y with
  | zero => rfl
  | succ fuel ih =>
      have hskip : (x < 0 ∨ y < 0 ∨ win.w ≤ x ∨ win.h ≤ y ∨ m (x, y) ≠ 0) ↔
          ((x, y) ∉ (win.picture screen).window ∨ m (x, y) ≠ 0) := by
        rw [mem_window]
        omega
      rw [pixelMap, Picture.flood]
      simp only [hskip]
      by_cases hleave : (x, y) ∉ (win.picture screen).window ∨ m (x, y) ≠ 0
      · rw [if_pos hleave, if_pos hleave]
      · have hin := not_not.mp (not_or.mp hleave).1
        obtain ⟨c, hc, hbright⟩ := win.exists_pixel screen ((win.mem_window screen).mp hin)
        rw [if_neg hleave, if_neg hleave, hc, hbright, Option.bind_eq_bind, Option.bind_some]
        -- the coordinates on the screen move with those in the window
        have hdown := fun m => ih m x (y + 1)
        have hup := fun m => ih m x (y - 1)
        have hright := fun m => ih m (x + 1) y
        have hleft := fun m => ih m (x - 1) y
        simp only [add_right_comm, sub_add_eq_add_sub] at hdown hup hright hleft
        simp only [hdown, hup, hright, hleft, picture, List.foldlM_cons, List.foldlM_nil,
          Option.bind_eq_bind, bind_pure]

/-! ## The calls -/

/-- The window of the score. -/
def scoreWindow : WindowAt where
  w := 100
  h := 30
  left := scPosXS
  top := scPosOffset
  isCol := isScoreCol
  left_nonneg := by decide
  right_le := by decide
  top_nonneg := by decide
  bottom_le := by decide

/-- The bright pixels of the row. -/
def scoreSeeds (screen : Screen) (cols : List ℤ) : List (ℤ × ℤ) :=
  (cols.filter fun i => (screen.pixel i scPosY).any isScoreCol).map fun i => (i - scPosXS, 15)

theorem mem_scoreCols {i : ℤ} : i ∈ scoreCols ↔ 99 ≤ i ∧ i < 198 := by
  simp only [scoreCols, scPosXS, List.mem_map, List.mem_range]
  constructor
  · rintro ⟨k, hk, rfl⟩
    omega
  · intro h
    exact ⟨(i - 99).toNat, by omega, by omega⟩

/-- The loop over the columns visits the bright pixels. -/
theorem fillScore_eq (fuel : ℕ) (screen : Screen) {cols : List ℤ} (h : ∀ i ∈ cols, i ∈ scoreCols) :
    fillScore fuel screen cols =
      (scoreSeeds screen cols).foldlM ((scoreWindow.picture screen).flood fuel) fun _ => 0 := by
  rw [fillScore]
  generalize (fun _ => 0 : Marks) = m
  induction cols generalizing m with
  | nil => rfl
  | cons i cols ih =>
      have hi := mem_scoreCols.mp (h i List.mem_cons_self)
      have hin : (0 ≤ i - scPosXS ∧ i - scPosXS < scoreWindow.w) ∧
          (0 : ℤ) ≤ 15 ∧ 15 < scoreWindow.h := by
        simp only [scoreWindow, scPosXS]
        omega
      have hpixel := scoreWindow.exists_pixel screen hin
      have hx : i - scPosXS + scoreWindow.left = i := by
        simp [scoreWindow]
      have hy : (15 : ℤ) + scoreWindow.top = scPosY := rfl
      have hcall := scoreWindow.pixelMap_eq screen fuel m (i - scPosXS) 15
      rw [hx, hy] at hpixel hcall
      obtain ⟨c, hc, -⟩ := hpixel
      have hrest := ih fun j hj => h j (List.mem_cons_of_mem i hj)
      rw [List.foldlM_cons, hc, scoreSeeds]
      simp only [Option.bind_eq_bind, Option.bind_some] at hrest ⊢
      by_cases hcol : isScoreCol c = true
      · rw [if_pos hcol, List.filter_cons_of_pos (by simp [hc, hcol]), List.map_cons,
          List.foldlM_cons]
        refine congrArg₂ Option.bind hcall ?_
        funext m'
        exact hrest m'
      · rw [if_neg hcol, List.filter_cons_of_neg (by simp [hc, hcol])]
        exact hrest m

/-- The window of a card. -/
def numWindow {posX posY : ℤ} (hx : posX ∈ cardPos) (hy : posY ∈ exYPos) : WindowAt where
  w := 64
  h := 64
  left := posX - 50
  top := posY + 8
  isCol := isNumCol
  left_nonneg := by
    simp only [cardPos, List.mem_cons, List.not_mem_nil, or_false] at hx
    omega
  right_le := by
    simp only [cardPos, List.mem_cons, List.not_mem_nil, or_false] at hx
    simp only [width]
    omega
  top_nonneg := by
    simp only [exYPos, List.mem_cons, List.not_mem_nil, or_false] at hy
    omega
  bottom_le := by
    simp only [exYPos, List.mem_cons, List.not_mem_nil, or_false] at hy
    simp only [rows]
    omega

theorem fillNum_eq (fuel : ℕ) (screen : Screen) {posX posY : ℤ} (hx : posX ∈ cardPos)
    (hy : posY ∈ exYPos) : fillNum fuel screen posX posY =
      [(32, 10)].foldlM (((numWindow hx hy).picture screen).flood fuel) fun _ => 0 := by
  have hcall := (numWindow hx hy).pixelMap_eq screen fuel (fun _ => 0) 32 10
  have hsx : 32 + (numWindow hx hy).left = posX - 18 := by
    simp only [numWindow]
    omega
  have hsy : 10 + (numWindow hx hy).top = posY + 18 := by
    simp only [numWindow]
    omega
  rw [hsx, hsy] at hcall
  simp only [List.foldlM_cons, List.foldlM_nil, bind_pure]
  exact hcall

/-- The bright pixels of the row do not depend on the order of the columns. -/
theorem mem_scoreSeeds (screen : Screen) {cols : List ℤ} (h : cols.Perm scoreCols) (c : ℤ × ℤ) :
    c ∈ scoreSeeds screen cols ↔ c ∈ scoreSeeds screen scoreCols :=
  ((h.filter _).map _).mem_iff

/-- The bright pixels of the row are bright. -/
theorem scoreSeeds_bright (screen : Screen) {c : ℤ × ℤ} (h : c ∈ scoreSeeds screen scoreCols) :
    (scoreWindow.picture screen).bright c = true := by
  obtain ⟨i, hi, rfl⟩ := List.mem_map.mp h
  have hx : i - scPosXS + scoreWindow.left = i := by
    simp [scoreWindow]
  have hy : (15 : ℤ) + scoreWindow.top = scPosY := rfl
  simp only [WindowAt.picture, hx, hy]
  exact (List.mem_filter.mp hi).2

/-- **The fill.** The calls for the score, in whatever order, and the call for a card end. The
marks `1` are then on the pixels of the window that are connected to a seed through bright ones,
and the marks `-1` on the dark pixels next to those and, on a card, on the seed if it is dark. -/
theorem fill_connected (screen : Screen) :
    (∃ m, (∀ fuel, 100 * 30 < fuel → ∀ cols, cols.Perm scoreCols →
        fillScore fuel screen cols = some m) ∧
      (∀ c, m c = 1 ↔ (scoreWindow.picture screen).Filled (scoreSeeds screen scoreCols) c) ∧
      (∀ c, m c = -1 ↔ c ∈ (scoreWindow.picture screen).window ∧
        (scoreWindow.picture screen).bright c = false ∧
        ∃ a, m a = 1 ∧ c ∈ (scoreWindow.picture screen).nbrs a) ∧
      ∀ c, m c = 0 ∨ m c = 1 ∨ m c = -1) ∧
    ∀ posX posY, ∀ hx : posX ∈ cardPos, ∀ hy : posY ∈ exYPos,
      ∃ m, (∀ fuel, 64 * 64 < fuel → fillNum fuel screen posX posY = some m) ∧
        (∀ c, m c = 1 ↔ ((numWindow hx hy).picture screen).Filled [(32, 10)] c) ∧
        (∀ c, m c = -1 ↔ c ∈ ((numWindow hx hy).picture screen).window ∧
          ((numWindow hx hy).picture screen).bright c = false ∧
          (c = (32, 10) ∨ ∃ a, m a = 1 ∧ c ∈ ((numWindow hx hy).picture screen).nbrs a)) ∧
        ∀ c, m c = 0 ∨ m c = 1 ∨ m c = -1 := by
  constructor
  · -- one map, which the result for every bound and order is the same as
    have hcard : (scoreWindow.picture screen).window.card = 100 * 30 := by
      simp [WindowAt.picture, scoreWindow]
    have hfill : ∀ fuel, 100 * 30 < fuel → ∀ cols : List ℤ, cols.Perm scoreCols →
        ∃ m, fillScore fuel screen cols = some m ∧
          (scoreWindow.picture screen).Shows (scoreSeeds screen scoreCols) m := by
      intro fuel hfuel cols hcols
      obtain ⟨m, hm, hshows⟩ := Picture.foldlM_flood (G := scoreWindow.picture screen)
        (hcard ▸ hfuel) (scoreSeeds screen cols)
      refine ⟨m, (fillScore_eq fuel screen fun i hi => hcols.subset hi).trans hm, ?_⟩
      exact hshows.congr (mem_scoreSeeds screen hcols)
    obtain ⟨m, -, hshows⟩ := hfill _ (Nat.lt_succ_self _) scoreCols (List.Perm.refl _)
    refine ⟨m, ?_, hshows.filled, ?_, hshows.range⟩
    · intro fuel hfuel cols hcols
      obtain ⟨m', hm', hshows'⟩ := hfill fuel hfuel cols hcols
      rw [hm', hshows'.unique hshows]
    · intro c
      simp only [hshows.filled]
      rw [hshows.border, Picture.Border]
      refine and_congr_right fun _ => and_congr_right fun hdark => or_iff_right ?_
      intro hseed
      rw [scoreSeeds_bright screen hseed] at hdark
      cases hdark
  · intro posX posY hx hy
    have hcard : ((numWindow hx hy).picture screen).window.card = 64 * 64 := by
      simp [WindowAt.picture, numWindow]
    have hfill : ∀ fuel, 64 * 64 < fuel → ∃ m, fillNum fuel screen posX posY = some m ∧
        ((numWindow hx hy).picture screen).Shows [(32, 10)] m := by
      intro fuel hfuel
      rw [fillNum_eq fuel screen hx hy]
      exact Picture.foldlM_flood (hcard ▸ hfuel) _
    obtain ⟨m, -, hshows⟩ := hfill _ (Nat.lt_succ_self _)
    refine ⟨m, ?_, hshows.filled, ?_, hshows.range⟩
    · intro fuel hfuel
      obtain ⟨m', hm', hshows'⟩ := hfill fuel hfuel
      rw [hm', hshows'.unique hshows]
    · intro c
      simp only [hshows.filled]
      rw [hshows.border, Picture.Border, List.mem_singleton]

/-- A black screenshot. -/
def darkScreen : Screen := ⟨fun _ _ => ⟨0, 0, 0, 255⟩⟩

/-- There nothing is filled, also if the columns are visited from the right. -/
theorem fill_connected_dark :
    ∃ m, fillScore 3001 darkScreen scoreCols.reverse = some m ∧ ∀ c, m c ≠ 1 := by
  obtain ⟨m, hm, hfilled, -⟩ := (fill_connected darkScreen).1
  refine ⟨m, hm 3001 (by omega) _ (List.reverse_perm _), ?_⟩
  intro c hc
  have hbright := ((hfilled c).mp hc).bright.2
  have hdark : ∀ sx sy, (darkScreen.pixel sx sy).any isScoreCol = false := by
    intro sx sy
    rw [Screen.pixel]
    split <;> rfl
  exact absurd hbright (by simp [WindowAt.picture, scoreWindow, hdark])

/-- But a card gets a mark: the seed itself is marked as dark, next to nothing that is filled. -/
theorem num_map_marks_dark_seed :
    ∃ m, fillNum 4097 darkScreen 354 39 = some m ∧ m (32, 10) = -1 ∧ ∀ c, m c ≠ 1 := by
  refine ⟨Function.update (fun _ => 0) (32, 10) (-1), rfl, Function.update_self .., ?_⟩
  intro c
  by_cases hc : c = (32, 10)
  · simp [hc]
  · simp [Function.update_of_ne hc]

end CCode.Clash
