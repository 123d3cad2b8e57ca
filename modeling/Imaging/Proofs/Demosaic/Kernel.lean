/-
What the methods that interpolate by a fixed window leave in a raster, pixel by pixel. A kernel gives each colour of a
site from the samples around it (`Kernel.colour`), so the sites can be read one at a time:
- `get_fromCorners`, `get_fromCentres`: inside the margin a channel is the clamped colour of the kernel, outside it is
  zero, whatever the raster held before;
- `get_fromTiles`: demosaicing by reduction is a kernel too, `Kernel.tilewise`, taken at the first site of each tile;
- `colour_shift`: a kernel sees the same pattern from a tile whose origin has moved.
-/
import Imaging.Demosaic.Centred
import Imaging.Demosaic.Tilewise
import Imaging.Proofs.Filter.Pattern
import Imaging.Proofs.Raster.Clear

namespace Imaging

/-- a channel of an estimate at a site of a row with this phase -/
def Estimate.channel {α : Type} (e : Estimate α) (p : Phase) (c : Channel) : α :=
  if c = p.rowChannel then e.row else if c = p.columnChannel then e.column else e.green

namespace Estimate

variable {α : Type} (e : Estimate α) (p : Phase)

@[simp]
theorem channel_rowChannel : e.channel p p.rowChannel = e.row := if_pos rfl

@[simp]
theorem channel_columnChannel : e.channel p p.columnChannel = e.column := by
  rw [channel, if_neg p.rowChannel_ne_columnChannel.symm, if_pos rfl]

@[simp]
theorem channel_green : e.channel p .green = e.green := by
  rw [channel, if_neg p.rowChannel_ne_green.symm, if_neg p.columnChannel_ne_green.symm]

theorem eq_channel {e : Estimate α} {p : Phase} {f : Channel → α} (hrow : f p.rowChannel = e.row)
    (hgreen : f .green = e.green) (hcolumn : f p.columnChannel = e.column) (c : Channel) : f c = e.channel p c := by
  by_cases hc : c = .green
  · rw [hc, channel_green, hgreen]
  · by_cases hr : p.rowChannel = c
    · rw [← hr, channel_rowChannel, hrow]
    · rw [← Phase.columnChannel_eq hc hr, channel_columnChannel, hcolumn]

theorem channel_of_ne_green {e e' : Estimate α} (hrow : e.row = e'.row) (hcolumn : e.column = e'.column) (p : Phase)
    {c : Channel} (hc : c ≠ .green) : e.channel p c = e'.channel p c := by
  by_cases hr : p.rowChannel = c
  · rw [← hr, channel_rowChannel, channel_rowChannel, hrow]
  · rw [← Phase.columnChannel_eq hc hr, channel_columnChannel, channel_columnChannel, hcolumn]

theorem channel_map {β : Type} (f : α → β) (c : Channel) : (e.map f).channel p c = f (e.channel p c) := by
  rw [channel, channel]
  split
  · rfl
  · split
    · rfl
    · rfl

end Estimate

namespace Kernel

variable {α : Type}

/-- the colour that a kernel gives a site of a filter, from the samples around it -/
def colour (k : Kernel α) (t : Tile) (x y : Nat) (s : Window α) (c : Channel) : α :=
  (k.estimate (Phase.atRow t y) x s).channel (Phase.atRow t y) c

theorem colour_of_green {t : Tile} {x y : Nat} (h : (Phase.atRow t y).isGreen x = true) (k : Kernel α) (s : Window α)
    (c : Channel) : k.colour t x y s c = (k.atGreen s).channel (Phase.atRow t y) c := by
  rw [colour, estimate, if_pos h]

theorem colour_of_not_green {t : Tile} {x y : Nat} (h : ¬(Phase.atRow t y).isGreen x = true) (k : Kernel α)
    (s : Window α) (c : Channel) : k.colour t x y s c = (k.atColour s).channel (Phase.atRow t y) c := by
  rw [colour, estimate, if_neg h]

theorem colour_at_green {t : Tile} {x y : Nat} (h : t.colourAt x y = .green) (k : Kernel α) (s : Window α)
    (c : Channel) : k.colour t x y s c = (k.atGreen s).channel (Phase.atRow t y) c :=
  colour_of_green ((Phase.isGreen_atRow t x y).mpr h) k s c

theorem colour_at_other {t : Tile} {x y : Nat} (h : t.colourAt x y ≠ .green) (k : Kernel α) (s : Window α)
    (c : Channel) : k.colour t x y s c = (k.atColour s).channel (Phase.atRow t y) c :=
  colour_of_not_green (fun h' => h ((Phase.isGreen_atRow t x y).mp h')) k s c

theorem colour_own {k : Kernel α} {s : Window α} {v : α} (hgreen : (k.atGreen s).green = v)
    (hcolour : (k.atColour s).row = v) (t : Tile) (x y : Nat) : k.colour t x y s (t.colourAt x y) = v := by
  by_cases h : t.colourAt x y = .green
  · rw [colour_at_green h, h, Estimate.channel_green, hgreen]
  · rw [colour_at_other h, (Phase.colourAt_square_of_ne h).1, Estimate.channel_rowChannel, hcolour]

/-- red and blue are the samples of the tile that the site opens, green is the mean of its two, rounded down -/
def tilewise : Kernel Int where
  atGreen s := { row := s 1 0, green := (s 0 0 + s 1 1) / 2, column := s 0 1 }
  atColour s := { row := s 0 0, green := (s 1 0 + s 0 1) / 2, column := s 1 1 }

theorem colour_nextX (k : Kernel α) (t : Tile) (x y : Nat) (s : Window α) (c : Channel) :
    k.colour t.nextX x y s c = k.colour t (x + 1) y s c := by
  rw [colour, colour, Phase.atRow_nextX, estimate, estimate, Phase.isGreen_nextColumn]
  rfl

theorem colour_nextY (k : Kernel α) (t : Tile) (x y : Nat) (s : Window α) (c : Channel) :
    k.colour t.nextY x y s c = k.colour t x (y + 1) s c := by
  rw [colour, colour, Phase.atRow_nextY]

/-- a site of a filter whose origin has moved is a site of the filter -/
theorem colour_shift (k : Kernel α) (t : Tile) (i j x y : Nat) (s : Window α) (c : Channel) :
    k.colour (t.shift i j) x y s c = k.colour t (i + x) (j + y) s c := by
  refine Tile.shift_induction (motive := fun t i j => k.colour (t.shift i j) x y s c = k.colour t (i + x) (j + y) s c)
    t ?_ ?_ ?_ i j
  · intro t
    rw [Tile.shift_zero_zero, Nat.zero_add, Nat.zero_add]
  · intro t i j ih
    rw [Tile.shift_succ_left, ih, colour_nextX, Nat.succ_add]
  · intro t j ih
    rw [Tile.shift_zero_succ, ih, colour_nextY, Nat.succ_add]

end Kernel

theorem Mosaic.get_of_outside {m : Mosaic} {x y : Nat} (h : ¬(x < m.width ∧ y < m.height)) : m.get x y = 0 := if_neg h

theorem Mosaic.window_eq_get (m : Mosaic) {x y a b : Nat} {dx dy : Int} (ha : (a : Int) = x + dx)
    (hb : (b : Int) = y + dy) : m.window x y dx dy = m.get a b := by
  rw [window, ← ha, ← hb, sample_natCast]

theorem Mosaic.window_square (m : Mosaic) (x y : Nat) :
    m.window x y 0 0 = m.get x y ∧ m.window x y 1 0 = m.get (x + 1) y ∧ m.window x y 0 1 = m.get x (y + 1) ∧
      m.window x y 1 1 = m.get (x + 1) (y + 1) :=
  ⟨m.window_eq_get (by omega) (by omega), m.window_eq_get (by omega) (by omega), m.window_eq_get (by omega) (by omega),
    m.window_eq_get (by omega) (by omega)⟩

theorem Mosaic.window_beside (m : Mosaic) {x y : Nat} (hx : 1 ≤ x) (hy : 1 ≤ y) :
    m.window x y (-1) 0 = m.get (x - 1) y ∧ m.window x y 1 0 = m.get (x + 1) y ∧
      m.window x y 0 (-1) = m.get x (y - 1) ∧ m.window x y 0 1 = m.get x (y + 1) :=
  ⟨m.window_eq_get (by omega) (by omega), m.window_eq_get (by omega) (by omega), m.window_eq_get (by omega) (by omega),
    m.window_eq_get (by omega) (by omega)⟩

/-- the sums over a tile are what the tilewise kernel gives the first site of the tile -/
theorem Kernel.colour_tilewise (m : Mosaic) (t : Tile) (x y : Nat) (c : Channel) :
    Kernel.tilewise.colour t (2 * x) (2 * y) (m.window (2 * x) (2 * y)) c =
      if c = .green then m.tileSum t x y .green / 2 else m.tileSum t x y c := by
  have hy : Phase.atRow t (2 * y) = Phase.ofTile t := by simp [Phase.atRow]
  have hx : (Phase.ofTile t).isGreen (2 * x) = (Phase.ofTile t).startsGreen := by simp [Phase.isGreen]
  obtain ⟨h₀₀, h₁₀, h₀₁, h₁₁⟩ := m.window_square (2 * x) (2 * y)
  rw [Kernel.colour, hy, Kernel.estimate, hx]
  cases t <;> cases c <;>
    simp [Kernel.tilewise, Estimate.channel, Phase.ofTile, Phase.rowChannel, Phase.columnChannel, Mosaic.tileSum_eq,
      Tile.colourAt, Tile.nextX, Tile.nextY, Tile.corner, h₀₀, h₁₀, h₀₁, h₁₁]

namespace Raster

variable {r : Raster} {m : Mosaic}

theorem get_interpolate {g : Region} (hright : g.right ≤ r.width) (hbottom : g.bottom ≤ r.height) (t : Tile)
    (k : Kernel Int) (x y : Nat) (c : Channel) :
    (r.interpolate m t k g).get x y c =
      if g.Contains x y then clamp (k.colour t x y (m.window x y) c) r.ceiling else r.get x y c := by
  unfold interpolate
  refine get_sweep_pixels (v := fun x y c => clamp (k.colour t x y (m.window x y) c) r.ceiling)
    (fun x y s => sameShape_store s _ x y _) ?_ x y c
  intro a b s hg hs x' y' c'
  have ha : a < s.width := by rw [hs.width]; exact Nat.lt_of_lt_of_le hg.1.2 hright
  have hb : b < s.height := by rw [hs.height]; exact Nat.lt_of_lt_of_le hg.2.2 hbottom
  rw [get_store ha hb, hs.ceiling]
  by_cases h : a = x' ∧ b = y'
  · obtain ⟨rfl, rfl⟩ := h
    rfl
  · rw [if_neg h, if_neg h]

theorem not_inFrame_iff {n w h x y : Nat} : ¬InFrame n w h x y ↔ (Region.inside n w h).Contains x y := by
  simp only [InFrame, Region.Contains, Region.inside]
  omega

/-- **Interpolation from a centred window.** -/
theorem get_fromCentres (hw : r.width = m.width) (hh : r.height = m.height) (n : Nat) (k : Kernel Int) (t : Tile)
    (x y : Nat) (c : Channel) :
    (r.fromCentres n k m t).get x y c =
      if (Region.inside n m.width m.height).Contains x y then clamp (k.colour t x y (m.window x y) c) r.ceiling
      else 0 := by
  have hs := r.sameShape_clearBorders n
  rw [fromCentres, get_interpolate (by rw [hs.width, hw]; exact Nat.sub_le _ _)
    (by rw [hs.height, hh]; exact Nat.sub_le _ _), hs.ceiling]
  by_cases hin : (Region.inside n m.width m.height).Contains x y
  · rw [if_pos hin, if_pos hin]
  · rw [if_neg hin, if_neg hin, get_clearBorders, if_pos]
    rw [hw, hh]
    exact Decidable.not_not.mp fun h => hin (not_inFrame_iff.mp h)

/-- **Interpolation from a square of four.** -/
theorem get_fromCorners (hw : r.width = m.width) (hh : r.height = m.height) (k : Kernel Int) (t : Tile)
    (x y : Nat) (c : Channel) :
    (r.fromCorners k m t).get x y c =
      if (Region.corners m.width m.height).Contains x y then clamp (k.colour t x y (m.window x y) c) r.ceiling
      else 0 := by
  have hs := r.sameShape_clearLastRowColumn
  rw [fromCorners, get_interpolate (by rw [hs.width, hw]; exact Nat.sub_le _ _)
    (by rw [hs.height, hh]; exact Nat.sub_le _ _), hs.ceiling]
  by_cases hin : (Region.corners m.width m.height).Contains x y
  · rw [if_pos hin, if_pos hin]
  · rw [if_neg hin, if_neg hin, get_clearLastRowColumn, if_pos]
    simp only [Region.Contains, Region.corners] at hin
    omega

/-- **Demosaicing by reduction.** -/
theorem get_fromTiles (t : Tile) (x y : Nat) (c : Channel) :
    (r.fromTiles m t).get x y c =
      if (Region.whole r.width r.height).Contains x y then
        clamp (Kernel.tilewise.colour t (2 * x) (2 * y) (m.window (2 * x) (2 * y)) c) r.ceiling
      else 0 := by
  -- red, green and blue are stored as in a row whose other colour is red
  let p : Phase := { blue := false, startsGreen := false }
  let e (x y : Nat) : Estimate Int :=
    { row := m.tileSum t x y .red, green := m.tileSum t x y .green / 2, column := m.tileSum t x y .blue }
  have hsweep : r.fromTiles m t = r.sweep (.whole r.width r.height) fun x y s => s.store p x y (e x y) := rfl
  rw [hsweep, get_sweep_pixels (v := fun x y c => clamp ((e x y).channel p c) r.ceiling)
    (fun x y s => sameShape_store s p x y _)]
  · by_cases h : (Region.whole r.width r.height).Contains x y
    · rw [if_pos h, if_pos h, Kernel.colour_tilewise]
      cases c <;> rfl
    · rw [if_neg h, if_neg h]
      exact get_of_outside (fun hxy => h ⟨⟨Nat.zero_le x, hxy.1⟩, Nat.zero_le y, hxy.2⟩) c
  · intro a b s hg hs x' y' c'
    have ha : a < s.width := by rw [hs.width]; exact hg.1.2
    have hb : b < s.height := by rw [hs.height]; exact hg.2.2
    rw [get_store ha hb, hs.ceiling]
    by_cases h : a = x' ∧ b = y'
    · obtain ⟨rfl, rfl⟩ := h
      rfl
    · rw [if_neg h, if_neg h]

end Raster

end Imaging
