/-
The pattern of a colour filter around a site. Which of the three colours a neighbour carries depends on its offset and
on the phase of the site's row alone (`channelAround`): green sites form a chessboard, and of the other sites the rows
alternate between two colours.
- `colourAt_of_offset`: the filter around every site, at offsets of any sign and size, is the pattern of its row's phase;
- `neighbours_eq`, `neighbours_green`: which of the eight sites around a site carry a colour that it does not carry
  itself;
- `shift_induction`: what follows the origin of a filter by one column or one row follows it by any number of them.
-/
import Imaging.Filter.Phase
import Mathlib.Logic.Function.Iterate

namespace Imaging

namespace Phase

/-- the colour at an offset from column `x` of the row -/
def channelAround (p : Phase) (x : Nat) (dx dy : Int) : Channel :=
  if dy % 2 = 0 then if dx % 2 = 0 ↔ p.isGreen x = true then .green else p.rowChannel
  else if dx % 2 = 0 ↔ p.isGreen x = true then p.columnChannel else .green

/-- the row, seen one column to the right -/
def nextColumn (p : Phase) : Phase := { p with startsGreen := !p.startsGreen }

theorem isGreen_nextColumn (p : Phase) (x : Nat) : p.nextColumn.isGreen x = p.isGreen (x + 1) := by
  rcases Nat.mod_two_eq_zero_or_one x with h | h <;> simp [isGreen, nextColumn, Nat.add_mod, h]

/-- of red and blue, the one that is not the row's colour is the column's -/
theorem columnChannel_eq {p : Phase} {c : Channel} (hc : c ≠ .green) (hr : p.rowChannel ≠ c) : p.columnChannel = c := by
  rcases p with ⟨blue, startsGreen⟩
  cases blue <;> cases c <;> simp_all [rowChannel, columnChannel]

theorem atRow_nextX (t : Tile) (y : Nat) : atRow t.nextX y = (atRow t y).nextColumn := by
  cases t <;> simp only [atRow] <;> split <;> rfl

theorem atRow_nextY (t : Tile) (y : Nat) : atRow t.nextY y = atRow t (y + 1) := by
  rw [atRow_succ]
  unfold atRow
  split
  · rw [ofTile_nextY]
  · rw [ofTile_nextY]

theorem isGreen_atRow (t : Tile) (x y : Nat) : (atRow t y).isGreen x = true ↔ t.colourAt x y = .green := by
  rw [← channelAt_atRow, channelAt]
  split
  · simp [*]
  · simp [*, rowChannel_ne_green]

/-- **The pattern of a filter.** The colour at any offset from a site is read off the phase of the site's row. -/
theorem colourAt_of_offset (t : Tile) {x y a b : Nat} {dx dy : Int} (ha : (a : Int) = x + dx) (hb : (b : Int) = y + dy) :
    t.colourAt a b = (atRow t y).channelAround x dx dy := by
  have hdx : dx % 2 = 0 ↔ a % 2 = x % 2 := by omega
  have hdy : dy % 2 = 0 ↔ b % 2 = y % 2 := by omega
  simp only [channelAround, hdx, hdy, Tile.colourAt, atRow, isGreen]
  -- only the parities of the two sites are left
  rcases Nat.mod_two_eq_zero_or_one a with h₁ | h₁ <;> rcases Nat.mod_two_eq_zero_or_one b with h₂ | h₂ <;>
    rcases Nat.mod_two_eq_zero_or_one x with h₃ | h₃ <;> rcases Nat.mod_two_eq_zero_or_one y with h₄ | h₄ <;>
    simp only [h₁, h₂, h₃, h₄] <;> cases t <;> rfl

/-- the square of sites that a green site opens -/
theorem colourAt_square_of_green {t : Tile} {x y : Nat} (h : t.colourAt x y = .green) :
    t.colourAt (x + 1) y = (atRow t y).rowChannel ∧ t.colourAt x (y + 1) = (atRow t y).columnChannel ∧
      t.colourAt (x + 1) (y + 1) = .green := by
  have hg := (isGreen_atRow t x y).mpr h
  have hright : t.colourAt (x + 1) y = (atRow t y).channelAround x 1 0 := colourAt_of_offset t (by omega) (by omega)
  have hbelow : t.colourAt x (y + 1) = (atRow t y).channelAround x 0 1 := colourAt_of_offset t (by omega) (by omega)
  have hcorner : t.colourAt (x + 1) (y + 1) = (atRow t y).channelAround x 1 1 :=
    colourAt_of_offset t (by omega) (by omega)
  simp [hright, hbelow, hcorner, channelAround, hg]

/-- the square of sites that a site of another colour opens -/
theorem colourAt_square_of_ne {t : Tile} {x y : Nat} (h : t.colourAt x y ≠ .green) :
    t.colourAt x y = (atRow t y).rowChannel ∧ t.colourAt (x + 1) y = .green ∧ t.colourAt x (y + 1) = .green ∧
      t.colourAt (x + 1) (y + 1) = (atRow t y).columnChannel := by
  have hg : ¬(atRow t y).isGreen x = true := fun h' => h ((isGreen_atRow t x y).mp h')
  have hown := channelAt_atRow t x y
  have hright : t.colourAt (x + 1) y = (atRow t y).channelAround x 1 0 := colourAt_of_offset t (by omega) (by omega)
  have hbelow : t.colourAt x (y + 1) = (atRow t y).channelAround x 0 1 := colourAt_of_offset t (by omega) (by omega)
  have hcorner : t.colourAt (x + 1) (y + 1) = (atRow t y).channelAround x 1 1 :=
    colourAt_of_offset t (by omega) (by omega)
  simp [← hown, hright, hbelow, hcorner, channelAt, channelAround, hg]

end Phase

/-! ## The sites around a site -/

namespace Tile

/-- the sites around a site that carry a colour, row by row -/
def neighbours (t : Tile) (c : Channel) (x y : Nat) : List (Nat × Nat) :=
  [(x - 1, y - 1), (x, y - 1), (x + 1, y - 1), (x - 1, y), (x + 1, y), (x - 1, y + 1), (x, y + 1), (x + 1, y + 1)].filter
    fun n => t.colourAt n.1 n.2 = c

theorem mem_neighbours {t : Tile} {c : Channel} {x y : Nat} {n : Nat × Nat} (h : n ∈ t.neighbours c x y) :
    t.colourAt n.1 n.2 = c ∧ x ≤ n.1 + 1 ∧ y ≤ n.2 + 1 := by
  simp only [neighbours, List.mem_filter, List.mem_cons, List.not_mem_nil, or_false, decide_eq_true_eq] at h
  refine ⟨h.2, ?_⟩
  obtain ⟨rfl | rfl | rfl | rfl | rfl | rfl | rfl | rfl, _⟩ := h <;> omega

theorem colourAt_left (t : Tile) {x : Nat} (hx : 1 ≤ x) (y : Nat) : t.colourAt (x - 1) y = t.colourAt (x + 1) y := by
  rw [← t.colourAt_mod, ← t.colourAt_mod (x + 1), show (x - 1) % 2 = (x + 1) % 2 by omega]

theorem colourAt_above (t : Tile) (x : Nat) {y : Nat} (hy : 1 ≤ y) : t.colourAt x (y - 1) = t.colourAt x (y + 1) := by
  rw [← t.colourAt_mod, ← t.colourAt_mod x (y + 1), show (y - 1) % 2 = (y + 1) % 2 by omega]

/-- **The neighbours that carry red or blue,** where the site itself does not: at a green site the two beside it or the
two above and below it, and the four at its corners at a site of the other colour. -/
theorem neighbours_eq {t : Tile} {c : Channel} {x y : Nat} (hx : 1 ≤ x) (hy : 1 ≤ y) (hc : c ≠ .green)
    (hne : t.colourAt x y ≠ c) :
    t.neighbours c x y =
      if t.colourAt x y = .green then
        if t.colourAt (x + 1) y = c then [(x - 1, y), (x + 1, y)] else [(x, y - 1), (x, y + 1)]
      else [(x - 1, y - 1), (x + 1, y - 1), (x - 1, y + 1), (x + 1, y + 1)] := by
  have hleft (b : Nat) := t.colourAt_left hx b
  have hup (a : Nat) := t.colourAt_above a hy
  -- so the square to the right of and below the site shows the colours of all eight
  by_cases hg : t.colourAt x y = .green
  · obtain ⟨hright, hbelow, hcorner⟩ := Phase.colourAt_square_of_green hg
    by_cases hr : (Phase.atRow t y).rowChannel = c
    · have hcol : (Phase.atRow t y).columnChannel ≠ c := fun h => Phase.rowChannel_ne_columnChannel _ (hr.trans h.symm)
      simp [neighbours, hleft, hup, hg, hright, hbelow, hcorner, hr, hcol, hc.symm]
    · have hcol := Phase.columnChannel_eq hc hr
      simp [neighbours, hleft, hup, hg, hright, hbelow, hcorner, hr, hcol, hc.symm]
  · obtain ⟨hown, hright, hbelow, hcorner⟩ := Phase.colourAt_square_of_ne hg
    have hcol := Phase.columnChannel_eq hc (hown ▸ hne)
    simp [neighbours, hleft, hup, hg, hright, hbelow, hcorner, hcol, hc.symm]

/-- **The neighbours that carry green,** where the site does not: the four that touch it at its sides. -/
theorem neighbours_green {t : Tile} {x y : Nat} (hx : 1 ≤ x) (hy : 1 ≤ y) (h : t.colourAt x y ≠ .green) :
    t.neighbours .green x y = [(x, y - 1), (x - 1, y), (x + 1, y), (x, y + 1)] := by
  have hleft (b : Nat) := t.colourAt_left hx b
  have hup (a : Nat) := t.colourAt_above a hy
  obtain ⟨_, hright, hbelow, hcorner⟩ := Phase.colourAt_square_of_ne h
  simp [neighbours, hleft, hup, hright, hbelow, hcorner, Phase.columnChannel_ne_green]

end Tile

/-! ## Shifts -/

/-- the tile seen `i` columns to the right and `j` rows down -/
def Tile.shift (t : Tile) (i j : Nat) : Tile := Tile.nextY^[j] (Tile.nextX^[i] t)

namespace Tile

theorem shift_zero_zero (t : Tile) : t.shift 0 0 = t := rfl

theorem shift_succ_left (t : Tile) (i j : Nat) : t.shift (i + 1) j = t.nextX.shift i j := by
  rw [shift, Function.iterate_succ_apply, shift]

theorem shift_zero_succ (t : Tile) (j : Nat) : t.shift 0 (j + 1) = t.nextY.shift 0 j := by
  rw [shift, Function.iterate_zero_apply, Function.iterate_succ_apply, shift, Function.iterate_zero_apply]

/-- what holds of a tile and moves along with its origin, step by step, moves along with any shift -/
theorem shift_induction {motive : Tile → Nat → Nat → Prop} (t : Tile) (h₀ : ∀ t, motive t 0 0)
    (hx : ∀ t i j, motive t.nextX i j → motive t (i + 1) j) (hy : ∀ t j, motive t.nextY 0 j → motive t 0 (j + 1))
    (i j : Nat) : motive t i j := by
  induction i generalizing t with
  | zero =>
    induction j generalizing t with
    | zero => exact h₀ t
    | succ j ih => exact hy t j (ih t.nextY)
  | succ i ih => exact hx t i j (ih t.nextX)

theorem shift_of_even (t : Tile) {i j : Nat} (hi : i % 2 = 0) (hj : j % 2 = 0) : t.shift i j = t := by
  obtain ⟨a, rfl⟩ : ∃ a, i = 2 * a := ⟨i / 2, by omega⟩
  obtain ⟨b, rfl⟩ : ∃ b, j = 2 * b := ⟨j / 2, by omega⟩
  have hx : Tile.nextX^[2] = id := funext nextX_nextX
  have hy : Tile.nextY^[2] = id := funext nextY_nextY
  rw [shift, Function.iterate_mul, Function.iterate_mul, hx, hy, Function.iterate_id, Function.iterate_id]
  rfl

end Tile

end Imaging
