/-
Symmetries of a colour filter. A rectangle of whole tiles can be mirrored, turned upside down or transposed; behind the
filter `Symmetry.tile` the sensor then takes at every site the colour that it took before at the site's origin
(`colourAt_origin`). For a row that means: mirroring and flipping keep its colour, transposing makes rows of columns, so
at the green sites the colours of row and column change places (`rowBlue_tile`).

Exchanging red and blue is a symmetry of another kind: it moves no site, and each filter has a partner in which the two
colours have changed places (`Tile.exchange`, `colourAt_exchange`).
-/
import Imaging.Proofs.Filter.Pattern
import Imaging.Size

namespace Imaging

/-- the tile with its columns and rows exchanged -/
def Tile.transpose : Tile → Tile
  | rggb => rggb
  | bggr => bggr
  | grbg => gbrg
  | gbrg => grbg

/-! ## Symmetries of a rectangle -/

/-- a symmetry of a rectangle -/
inductive Symmetry where
  /-- left and right change places -/
  | mirror
  /-- top and bottom change places -/
  | flip
  /-- columns and rows change places -/
  | transpose
  deriving DecidableEq, Repr

namespace Symmetry

def size (σ : Symmetry) (w h : Nat) : Nat × Nat :=
  match σ with
  | mirror | flip => (w, h)
  | transpose => (h, w)

/-- where in a rectangle `w` by `h` the place `(x, y)` after the symmetry comes from -/
def origin (σ : Symmetry) (w h x y : Nat) : Nat × Nat :=
  match σ with
  | mirror => (w - 1 - x, y)
  | flip => (x, h - 1 - y)
  | transpose => (y, x)

/-- the filter behind which a sensor shows the rearranged rectangle -/
def tile (σ : Symmetry) (t : Tile) : Tile :=
  match σ with
  | mirror => t.nextX
  | flip => t.nextY
  | transpose => t.transpose

/-- in a rectangle `w` by `h`, the square of `n` sites a side at `(a, b)` becomes the square at `(x, y)` -/
def Takes (σ : Symmetry) (n w h a b x y : Nat) : Prop :=
  match σ with
  | mirror => a + x + n = w ∧ b = y
  | flip => a = x ∧ b + y + n = h
  | transpose => a = y ∧ b = x

theorem takes_origin (σ : Symmetry) {w h x y : Nat} (hx : x < (σ.size w h).1) (hy : y < (σ.size w h).2) :
    σ.Takes 1 w h (σ.origin w h x y).1 (σ.origin w h x y).2 x y := by
  cases σ with
  | mirror =>
    refine ⟨?_, rfl⟩
    simp only [size, origin] at hx ⊢
    omega
  | flip =>
    refine ⟨rfl, ?_⟩
    simp only [size, origin] at hy ⊢
    omega
  | transpose => exact ⟨rfl, rfl⟩

theorem origin_lt (σ : Symmetry) {w h x y : Nat} (hx : x < (σ.size w h).1) (hy : y < (σ.size w h).2) :
    (σ.origin w h x y).1 < w ∧ (σ.origin w h x y).2 < h := by
  cases σ <;> simp only [size, origin] at hx hy ⊢ <;> omega

/-- squares of one site each, drawn `n` times as large -/
theorem Takes.scale {σ : Symmetry} {w h a b x y : Nat} (htakes : σ.Takes 1 w h a b x y) (n : Nat) :
    σ.Takes n (n * w) (n * h) (n * a) (n * b) (n * x) (n * y) := by
  cases σ with
  | mirror =>
    obtain ⟨rfl, rfl⟩ := htakes
    exact ⟨by rw [Nat.mul_add, Nat.mul_add, Nat.mul_one], rfl⟩
  | flip =>
    obtain ⟨rfl, rfl⟩ := htakes
    exact ⟨rfl, by rw [Nat.mul_add, Nat.mul_add, Nat.mul_one]⟩
  | transpose =>
    obtain ⟨rfl, rfl⟩ := htakes
    exact ⟨rfl, rfl⟩

theorem wholeTiles_size (σ : Symmetry) {w h : Nat} (htiles : WholeTiles w h) :
    WholeTiles (σ.size w h).1 (σ.size w h).2 := by
  cases σ with
  | mirror | flip => exact htiles
  | transpose => exact ⟨htiles.2.1, htiles.1, htiles.2.2.2, htiles.2.2.1⟩

end Symmetry

/-! ## Rows under a symmetry -/

namespace Phase

theorem atRow_congr (t : Tile) {y y' : Nat} (h : y % 2 = y' % 2) : atRow t y = atRow t y' := by
  simp only [atRow, h]

theorem isGreen_congr (p : Phase) {x x' : Nat} (h : x % 2 = x' % 2) : p.isGreen x = p.isGreen x' := by
  simp only [isGreen, h]

theorem isGreen_succ (p : Phase) (x : Nat) : p.isGreen (x + 1) = !p.isGreen x := by
  rcases Nat.mod_two_eq_zero_or_one x with h | h <;> simp [isGreen, Nat.add_mod, h]

theorem isGreen_transpose (t : Tile) (x y : Nat) : (atRow t.transpose y).isGreen x = (atRow t x).isGreen y := by
  rcases Nat.mod_two_eq_zero_or_one x with hx | hx <;> rcases Nat.mod_two_eq_zero_or_one y with hy | hy
  all_goals
    simp only [isGreen, atRow, hx, hy]
    cases t <;> rfl

/-- a green site's column carries the colour that its row does not, another site's column the site's own -/
theorem blue_transpose (t : Tile) (x y : Nat) :
    (atRow t.transpose y).blue = ((atRow t x).blue != (atRow t x).isGreen y) := by
  rcases Nat.mod_two_eq_zero_or_one x with hx | hx <;> rcases Nat.mod_two_eq_zero_or_one y with hy | hy
  all_goals
    simp only [isGreen, atRow, hx, hy]
    cases t <;> rfl

end Phase

namespace Symmetry

open Phase

variable {σ : Symmetry} {w h a b x y : Nat}

/-- a green site stays green -/
theorem isGreen_tile (htakes : σ.Takes 1 w h a b x y) (htiles : WholeTiles w h) (t : Tile) :
    (atRow (σ.tile t) y).isGreen x = (atRow t b).isGreen a := by
  obtain ⟨_, _, hw, hh⟩ := htiles
  cases σ with
  | mirror =>
    obtain ⟨ha, rfl⟩ := htakes
    rw [tile, atRow_nextX, isGreen_nextColumn]
    exact isGreen_congr _ (by omega)
  | flip =>
    obtain ⟨rfl, hb⟩ := htakes
    rw [tile, atRow_nextY, atRow_congr t (show (y + 1) % 2 = b % 2 by omega)]
  | transpose =>
    obtain ⟨rfl, rfl⟩ := htakes
    exact isGreen_transpose t b a

/-- the colour of a site's row changes only where a green site is transposed -/
theorem rowBlue_tile (htakes : σ.Takes 1 w h a b x y) (htiles : WholeTiles w h) (t : Tile) :
    (atRow (σ.tile t) y).blue = ((atRow t b).blue != (decide (σ = transpose) && (atRow t b).isGreen a)) := by
  obtain ⟨_, _, hw, hh⟩ := htiles
  cases σ with
  | mirror =>
    obtain ⟨_, rfl⟩ := htakes
    rw [tile, atRow_nextX]
    simp [nextColumn]
  | flip =>
    obtain ⟨rfl, hb⟩ := htakes
    rw [tile, atRow_nextY, atRow_congr t (show (y + 1) % 2 = b % 2 by omega)]
    simp
  | transpose =>
    obtain ⟨rfl, rfl⟩ := htakes
    rw [tile, blue_transpose t b a]
    simp

/-- **Colours under a symmetry.** Behind the symmetry's filter a site has the colour of its origin. -/
theorem colourAt_origin (σ : Symmetry) (t : Tile) (htiles : WholeTiles w h) (hx : x < (σ.size w h).1)
    (hy : y < (σ.size w h).2) :
    (σ.tile t).colourAt x y = t.colourAt (σ.origin w h x y).1 (σ.origin w h x y).2 := by
  have htakes := σ.takes_origin hx hy
  have hgreen := isGreen_tile htakes htiles t
  have hblue := rowBlue_tile htakes htiles t
  rw [← channelAt_atRow, ← channelAt_atRow, channelAt, channelAt, hgreen]
  by_cases hg : (atRow t (σ.origin w h x y).2).isGreen (σ.origin w h x y).1 = true
  · rw [if_pos hg, if_pos hg]
  · rw [eq_false_of_ne_true hg, Bool.and_false, Bool.bne_false] at hblue
    rw [if_neg hg, if_neg hg, rowChannel, rowChannel, hblue]

end Symmetry

/-! ## Red and blue -/

/-- red and blue change places -/
def Channel.exchange : Channel → Channel
  | red => blue
  | green => green
  | blue => red

def Tile.exchange : Tile → Tile
  | rggb => bggr
  | bggr => rggb
  | grbg => gbrg
  | gbrg => grbg

def Phase.exchange (p : Phase) : Phase := { p with blue := !p.blue }

theorem Phase.atRow_exchange (t : Tile) (y : Nat) : atRow t.exchange y = (atRow t y).exchange := by
  cases t <;> simp only [atRow] <;> split <;> rfl

theorem Phase.isGreen_exchange (p : Phase) (x : Nat) : p.exchange.isGreen x = p.isGreen x := rfl

/-- **The partner of a filter** takes red where the filter takes blue, and blue where it takes red. -/
theorem Tile.colourAt_exchange (t : Tile) (x y : Nat) : t.exchange.colourAt x y = (t.colourAt x y).exchange := by
  rw [← Phase.channelAt_atRow, ← Phase.channelAt_atRow, Phase.atRow_exchange, Phase.channelAt, Phase.channelAt,
    Phase.isGreen_exchange]
  split
  · rfl
  · rcases Phase.atRow t y with ⟨blue, startsGreen⟩
    cases blue <;> rfl

end Imaging
