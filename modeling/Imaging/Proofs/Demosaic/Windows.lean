/-
The methods that look at a small window, told by the filter alone. A kernel names its neighbours by the row that the
site stands in; here the samples of one colour are collected from a window around the site, wherever in it they stand
(`Mosaic.samplesOf`), and a channel is their mean.
- `Kernel.colour_bilinear`: the colours that a site did not take are the means of the two or four samples of the colour
  among the nine around the site;
- `Kernel.colour_simple`: all colours are the means over the square of four that the site opens, which holds one red,
  one blue and two green samples (`samplesOf_square_of_ne_green`, `samplesOf_square_green`);
- `decode_means`, `decode_squares`: what the requests leave in every pixel; the loops over squares look up the first row
  of the filter alone.
-/
import Imaging.Proofs.Demosaic.Depth
import Imaging.Proofs.Demosaic.Rows

namespace Imaging

namespace Region

/-- a site and the eight sites around it -/
def around (x y : Nat) : Region := { left := x - 1, top := y - 1, right := x + 2, bottom := y + 2 }

/-- the square of four sites whose upper left corner the site is -/
def square (x y : Nat) : Region := { left := x, top := y, right := x + 2, bottom := y + 2 }

variable {x y : Nat}

theorem sites_around (hx : 1 ≤ x) (hy : 1 ≤ y) :
    (around x y).sites =
      [(x - 1, y - 1), (x, y - 1), (x + 1, y - 1), (x - 1, y), (x, y), (x + 1, y), (x - 1, y + 1), (x, y + 1),
        (x + 1, y + 1)] := by
  obtain ⟨a, rfl⟩ : ∃ a, x = a + 1 := ⟨x - 1, by omega⟩
  obtain ⟨b, rfl⟩ : ∃ b, y = b + 1 := ⟨y - 1, by omega⟩
  have hthree (n : Nat) : n + 1 + 2 - n = 3 := by omega
  simp [sites, around, hthree, List.range']

theorem sites_square (x y : Nat) : (square x y).sites = [(x, y), (x + 1, y), (x, y + 1), (x + 1, y + 1)] := by
  simp [sites, square, List.range']

end Region

/-- the mean of some samples, a half rounded up -/
def meanUp (samples : List Nat) : Nat := (samples.sum + samples.length / 2) / samples.length

theorem meanUp_singleton (a : Nat) : meanUp [a] = a := by
  simp [meanUp]

theorem meanUp_pair (a b : Nat) : meanUp [a, b] = (a + b + 1) / 2 := by
  simp [meanUp]

theorem meanUp_four (a b c d : Nat) : meanUp [a, b, c, d] = (a + b + c + d + 2) / 4 := by
  simp [meanUp, Nat.add_assoc]

/-! ## The samples of a colour -/

namespace Mosaic

/-- the samples of a colour in a region, row by row -/
def samplesOf (m : Mosaic) (t : Tile) (g : Region) (c : Channel) : List Nat :=
  (g.sites.filter fun site => t.colourAt site.1 site.2 = c).map fun site => m.get site.1 site.2

variable (m : Mosaic) {t : Tile} {x y : Nat} {c : Channel}

theorem samplesOf_around (hx : 1 ≤ x) (hy : 1 ≤ y) (hne : t.colourAt x y ≠ c) :
    m.samplesOf t (.around x y) c = (t.neighbours c x y).map fun site => m.get site.1 site.2 := by
  have hsites : (Region.around x y).sites.filter (fun site => t.colourAt site.1 site.2 = c) = t.neighbours c x y := by
    rw [Region.sites_around hx hy, Tile.neighbours]
    simp only [List.filter_cons, hne, decide_false, if_false, Bool.false_eq_true]
  rw [samplesOf, hsites]

/-- the samples of the square that a green site opens -/
def squareAtGreen (m : Mosaic) (x y : Nat) : Estimate (List Nat) where
  row := [m.get (x + 1) y]
  green := [m.get x y, m.get (x + 1) (y + 1)]
  column := [m.get x (y + 1)]

/-- the samples of the square that a site of another colour opens -/
def squareAtColour (m : Mosaic) (x y : Nat) : Estimate (List Nat) where
  row := [m.get x y]
  green := [m.get (x + 1) y, m.get x (y + 1)]
  column := [m.get (x + 1) (y + 1)]

theorem samplesOf_square_of_green (h : t.colourAt x y = .green) (c : Channel) :
    m.samplesOf t (.square x y) c = (m.squareAtGreen x y).channel (Phase.atRow t y) c := by
  obtain ⟨hright, hbelow, hcorner⟩ := Phase.colourAt_square_of_green h
  have hne := (Phase.atRow t y).rowChannel_ne_columnChannel
  have hrow := (Phase.atRow t y).rowChannel_ne_green
  have hcolumn := (Phase.atRow t y).columnChannel_ne_green
  refine Estimate.eq_channel ?_ ?_ ?_ c
  · simp [samplesOf, Region.sites_square, squareAtGreen, h, hright, hbelow, hcorner, hne.symm, hrow.symm]
  · simp [samplesOf, Region.sites_square, squareAtGreen, h, hright, hbelow, hcorner, hrow, hcolumn]
  · simp [samplesOf, Region.sites_square, squareAtGreen, h, hright, hbelow, hcorner, hne, hcolumn.symm]

theorem samplesOf_square_of_ne (h : t.colourAt x y ≠ .green) (c : Channel) :
    m.samplesOf t (.square x y) c = (m.squareAtColour x y).channel (Phase.atRow t y) c := by
  obtain ⟨hown, hright, hbelow, hcorner⟩ := Phase.colourAt_square_of_ne h
  have hne := (Phase.atRow t y).rowChannel_ne_columnChannel
  have hrow := (Phase.atRow t y).rowChannel_ne_green
  have hcolumn := (Phase.atRow t y).columnChannel_ne_green
  refine Estimate.eq_channel ?_ ?_ ?_ c
  · simp [samplesOf, Region.sites_square, squareAtColour, hown, hright, hbelow, hcorner, hne.symm, hrow.symm]
  · simp [samplesOf, Region.sites_square, squareAtColour, hown, hright, hbelow, hcorner, hrow, hcolumn]
  · simp [samplesOf, Region.sites_square, squareAtColour, hown, hright, hbelow, hcorner, hne, hcolumn.symm]

/-- a square holds one sample of the colour of its row, one of the other row's and two green samples -/
theorem exists_square (t : Tile) (x y : Nat) : ∃ row g₀ g₁ column, ∀ c,
    m.samplesOf t (.square x y) c =
      Estimate.channel { row := [row], green := [g₀, g₁], column := [column] } (Phase.atRow t y) c := by
  by_cases h : t.colourAt x y = .green
  · exact ⟨_, _, _, _, m.samplesOf_square_of_green h⟩
  · exact ⟨_, _, _, _, m.samplesOf_square_of_ne h⟩

theorem samplesOf_square_of_ne_green (t : Tile) (x y : Nat) (hc : c ≠ .green) :
    ∃ a, m.samplesOf t (.square x y) c = [a] := by
  obtain ⟨row, g₀, g₁, column, hsquare⟩ := m.exists_square t x y
  rw [hsquare]
  by_cases hr : (Phase.atRow t y).rowChannel = c
  · exact ⟨row, by rw [← hr, Estimate.channel_rowChannel]⟩
  · exact ⟨column, by rw [← Phase.columnChannel_eq hc hr, Estimate.channel_columnChannel]⟩

theorem samplesOf_square_green (t : Tile) (x y : Nat) : ∃ a b, m.samplesOf t (.square x y) .green = [a, b] := by
  obtain ⟨_, g₀, g₁, _, hsquare⟩ := m.exists_square t x y
  exact ⟨g₀, g₁, by rw [hsquare, Estimate.channel_green]⟩

end Mosaic

/-! ## The colours of the kernels -/

namespace Kernel

variable (m : Mosaic) {t : Tile} {x y : Nat} {c : Channel}

/-- a kernel that makes one thing of the samples of each colour in a square -/
theorem colour_of_square {k : Kernel Int} {f : List Nat → Int}
    (hgreen : k.atGreen (m.window x y) = (m.squareAtGreen x y).map f)
    (hcolour : k.atColour (m.window x y) = (m.squareAtColour x y).map f) (t : Tile) (c : Channel) :
    k.colour t x y (m.window x y) c = f (m.samplesOf t (.square x y) c) := by
  by_cases h : t.colourAt x y = .green
  · rw [colour_at_green h, hgreen, Estimate.channel_map, m.samplesOf_square_of_green h]
  · rw [colour_at_other h, hcolour, Estimate.channel_map, m.samplesOf_square_of_ne h]

/-- **The simple method** takes the mean of each colour in the square. -/
theorem colour_simple (t : Tile) (x y : Nat) (c : Channel) :
    Kernel.simple.colour t x y (m.window x y) c = meanUp (m.samplesOf t (.square x y) c) := by
  obtain ⟨h₀₀, h₁₀, h₀₁, h₁₁⟩ := m.window_square x y
  refine colour_of_square m (f := fun samples => meanUp samples) ?_ ?_ t c
  · simp [simple, roundedMean, Estimate.map, Mosaic.squareAtGreen, meanUp, h₀₀, h₁₀, h₀₁, h₁₁]
  · simp [simple, roundedMean, Estimate.map, Mosaic.squareAtColour, meanUp, h₀₀, h₁₀, h₀₁, h₁₁]

/-- **The nearest method** copies red and blue as the simple method does, -/
theorem colour_nearest (hc : c ≠ .green) (t : Tile) (x y : Nat) (s : Window Int) :
    Kernel.nearest.colour t x y s c = Kernel.simple.colour t x y s c := by
  by_cases h : t.colourAt x y = .green
  · rw [colour_at_green h, colour_at_green h]
    refine Estimate.channel_of_ne_green ?_ ?_ _ hc <;> rfl
  · rw [colour_at_other h, colour_at_other h]
    refine Estimate.channel_of_ne_green ?_ ?_ _ hc <;> rfl

/-- and one of the two green samples -/
theorem colour_nearest_green (t : Tile) (x y : Nat) :
    Kernel.nearest.colour t x y (m.window x y) .green =
      (if t.colourAt x y = .green then m.get (x + 1) (y + 1) else m.get (x + 1) y : Nat) := by
  obtain ⟨_, h₁₀, _, h₁₁⟩ := m.window_square x y
  by_cases h : t.colourAt x y = .green
  · rw [colour_at_green h, Estimate.channel_green, if_pos h]
    exact h₁₁
  · rw [colour_at_other h, Estimate.channel_green, if_neg h]
    exact h₁₀

theorem colour_bilinear_own (t : Tile) (x y : Nat) (s : Window Int) :
    Kernel.bilinear.colour t x y s (t.colourAt x y) = s 0 0 := colour_own rfl rfl t x y

/-- at a green site, red and blue are the means of the two samples beside it, or above and below it -/
theorem colour_bilinear_at_green (hx : 1 ≤ x) (hy : 1 ≤ y) (hg : t.colourAt x y = .green) (hc : c ≠ .green) :
    let near := m.samplesOf t (.around x y) c
    near.length = 2 ∧ Kernel.bilinear.colour t x y (m.window x y) c = meanUp near := by
  intro near
  have hne : t.colourAt x y ≠ c := hg ▸ hc.symm
  have hnear : near = (t.neighbours c x y).map fun site => m.get site.1 site.2 := m.samplesOf_around hx hy hne
  rw [Tile.neighbours_eq hx hy hc hne, if_pos hg, (Phase.colourAt_square_of_green hg).1] at hnear
  obtain ⟨hl, hr, hu, hd⟩ := m.window_beside hx hy
  rw [colour_at_green hg]
  -- the colour of the row stands beside the site, the other one above and below it
  by_cases hrow : (Phase.atRow t y).rowChannel = c
  · rw [if_pos hrow] at hnear
    rw [← hrow, Estimate.channel_rowChannel, hnear]
    refine ⟨rfl, ?_⟩
    calc (bilinear.atGreen (m.window x y)).row = (m.window x y (-1) 0 + m.window x y 1 0 + 1) / 2 := rfl
      _ = meanUp [m.get (x - 1) y, m.get (x + 1) y] := by rw [hl, hr, meanUp_pair]; omega
  · rw [if_neg hrow] at hnear
    rw [← Phase.columnChannel_eq hc hrow, Estimate.channel_columnChannel, hnear]
    refine ⟨rfl, ?_⟩
    calc (bilinear.atGreen (m.window x y)).column = (m.window x y 0 (-1) + m.window x y 0 1 + 1) / 2 := rfl
      _ = meanUp [m.get x (y - 1), m.get x (y + 1)] := by rw [hu, hd, meanUp_pair]; omega

/-- at another site, the colours that it did not take are the means of the four samples at its sides or corners -/
theorem colour_bilinear_at_other (hx : 1 ≤ x) (hy : 1 ≤ y) (hg : t.colourAt x y ≠ .green) (hne : t.colourAt x y ≠ c) :
    let near := m.samplesOf t (.around x y) c
    near.length = 4 ∧ Kernel.bilinear.colour t x y (m.window x y) c = meanUp near := by
  intro near
  have hnear : near = (t.neighbours c x y).map fun site => m.get site.1 site.2 := m.samplesOf_around hx hy hne
  rw [colour_at_other hg]
  -- green stands at the sides of the site, the third colour at its corners
  by_cases hc : c = .green
  · obtain ⟨hl, hr, hu, hd⟩ := m.window_beside hx hy
    rw [hc, Tile.neighbours_green hx hy hg] at hnear
    rw [hc, Estimate.channel_green, hnear]
    refine ⟨rfl, ?_⟩
    calc (bilinear.atColour (m.window x y)).green = (beside (m.window x y) + 2) / 4 := rfl
      _ = meanUp [m.get x (y - 1), m.get (x - 1) y, m.get (x + 1) y, m.get x (y + 1)] := by
        rw [beside, hl, hr, hu, hd, meanUp_four]
        omega
  · have hlu : m.window x y (-1) (-1) = m.get (x - 1) (y - 1) := m.window_eq_get (by omega) (by omega)
    have hru : m.window x y 1 (-1) = m.get (x + 1) (y - 1) := m.window_eq_get (by omega) (by omega)
    have hld : m.window x y (-1) 1 = m.get (x - 1) (y + 1) := m.window_eq_get (by omega) (by omega)
    have hrd : m.window x y 1 1 = m.get (x + 1) (y + 1) := m.window_eq_get (by omega) (by omega)
    have hrow : (Phase.atRow t y).rowChannel ≠ c := (Phase.colourAt_square_of_ne hg).1 ▸ hne
    rw [Tile.neighbours_eq hx hy hc hne, if_neg hg] at hnear
    rw [← Phase.columnChannel_eq hc hrow, Estimate.channel_columnChannel, hnear]
    refine ⟨rfl, ?_⟩
    calc (bilinear.atColour (m.window x y)).column = (diagonal (m.window x y) + 2) / 4 := rfl
      _ = meanUp [m.get (x - 1) (y - 1), m.get (x + 1) (y - 1), m.get (x - 1) (y + 1), m.get (x + 1) (y + 1)] := by
        rw [diagonal, hlu, hru, hld, hrd, meanUp_four]
        omega

/-- **The bilinear method** takes the means of the other colours among the nine samples around a site. -/
theorem colour_bilinear (hx : 1 ≤ x) (hy : 1 ≤ y) (hne : t.colourAt x y ≠ c) :
    let near := m.samplesOf t (.around x y) c
    (near.length = 2 ∨ near.length = 4) ∧ Kernel.bilinear.colour t x y (m.window x y) c = meanUp near := by
  by_cases hg : t.colourAt x y = .green
  · obtain ⟨htwo, hmean⟩ := colour_bilinear_at_green m hx hy hg (hg ▸ hne.symm)
    exact ⟨.inl htwo, hmean⟩
  · obtain ⟨hfour, hmean⟩ := colour_bilinear_at_other m hx hy hg hne
    exact ⟨.inr hfour, hmean⟩

end Kernel

/-! ## Pixels -/

/-- what the bilinear method leaves in a pixel -/
structure TakesMeans (m : Mosaic) (t : Tile) (ceiling x y : Nat) (pixel : Channel → Nat) : Prop where
  /-- a site one pixel inside the image keeps its sample in its own channel -/
  own : (Region.inside 1 m.width m.height).Contains x y → pixel (t.colourAt x y) = min (m.get x y) ceiling
  /-- and takes each other colour from the samples of that colour among the nine around it: two or four -/
  mean : (Region.inside 1 m.width m.height).Contains x y → ∀ c ≠ t.colourAt x y,
    let near := m.samplesOf t (.around x y) c
    (near.length = 2 ∨ near.length = 4) ∧ pixel c = min ((near.sum + near.length / 2) / near.length) ceiling
  /-- the pixels around are black -/
  border : ¬(Region.inside 1 m.width m.height).Contains x y → ∀ c, pixel c = 0

/-- what the nearest and the simple method leave in a pixel -/
structure ReadsSquare (m : Mosaic) (t : Tile) (ceiling x y : Nat) (nearest simple : Channel → Nat) : Prop where
  /-- a site that opens a square reads it by colour: one red, one blue and two green samples -/
  square : (Region.corners m.width m.height).Contains x y → ∃ r b g₀ g₁,
    (m.samplesOf t (.square x y) .red = [r] ∧ m.samplesOf t (.square x y) .blue = [b] ∧
        m.samplesOf t (.square x y) .green = [g₀, g₁]) ∧
      (nearest .red = min r ceiling ∧ simple .red = min r ceiling) ∧
      (nearest .blue = min b ceiling ∧ simple .blue = min b ceiling) ∧
      simple .green = min ((g₀ + g₁ + 1) / 2) ceiling ∧
      nearest .green = min (if t.colourAt x y = .green then m.get (x + 1) (y + 1) else m.get (x + 1) y) ceiling
  /-- the last row and the last column are black -/
  last : ¬(Region.corners m.width m.height).Contains x y → ∀ c, nearest c = 0 ∧ simple c = 0

namespace Method

variable {m : Mosaic} {t : Tile} {ceiling x y : Nat}

/-- a pixel of the interior, where each site has one and its method does not limit its samples first -/
theorem pixel_of_contains (k : Method) (hk : k ≠ downsample ∧ k ≠ edgeSense) (m : Mosaic) (t : Tile) (ceiling : Nat)
    (hin : (k.interior m.width m.height).Contains x y) (c : Channel) :
    k.pixel m t ceiling x y c = clamp (k.kernel.colour t x y (m.window x y) c) ceiling := by
  rw [pixel, if_pos hin, estimate_of_ne hk.1, source_of_ne hk.2]

theorem takesMeans_bilinear (m : Mosaic) (t : Tile) (ceiling x y : Nat) :
    TakesMeans m t ceiling x y (bilinear.pixel m t ceiling x y) := by
  refine ⟨fun hin => ?_, fun hin c hne => ?_, fun hborder c => if_neg hborder⟩
  · rw [pixel_of_contains bilinear (by decide) m t ceiling hin, kernel, Kernel.colour_bilinear_own,
      (m.window_square x y).1, clamp_natCast]
  · intro near
    obtain ⟨hlength, hmean⟩ := Kernel.colour_bilinear m hin.1.1 hin.2.1 hne.symm
    refine ⟨hlength, ?_⟩
    rw [pixel_of_contains bilinear (by decide) m t ceiling hin, kernel, hmean, clamp_natCast]
    rfl

theorem pixels_of_samplesOf (ceiling : Nat) {c : Channel} (hc : c ≠ .green)
    (hin : (Region.corners m.width m.height).Contains x y) {a : Nat} (ha : m.samplesOf t (.square x y) c = [a]) :
    nearest.pixel m t ceiling x y c = min a ceiling ∧ simple.pixel m t ceiling x y c = min a ceiling := by
  rw [pixel_of_contains nearest (by decide) m t ceiling hin, pixel_of_contains simple (by decide) m t ceiling hin, kernel,
    kernel, Kernel.colour_nearest hc, Kernel.colour_simple, ha, meanUp_singleton, clamp_natCast]
  exact ⟨rfl, rfl⟩

theorem readsSquare (m : Mosaic) (t : Tile) (ceiling x y : Nat) :
    ReadsSquare m t ceiling x y (nearest.pixel m t ceiling x y) (simple.pixel m t ceiling x y) := by
  refine ⟨fun hin => ?_, fun hlast c => ⟨if_neg hlast, if_neg hlast⟩⟩
  obtain ⟨r, hr⟩ := m.samplesOf_square_of_ne_green t x y (show Channel.red ≠ .green by decide)
  obtain ⟨b, hb⟩ := m.samplesOf_square_of_ne_green t x y (show Channel.blue ≠ .green by decide)
  obtain ⟨g₀, g₁, hg⟩ := m.samplesOf_square_green t x y
  refine ⟨r, b, g₀, g₁, ⟨hr, hb, hg⟩, ?_, ?_, ?_, ?_⟩
  · exact pixels_of_samplesOf ceiling (by decide) hin hr
  · exact pixels_of_samplesOf ceiling (by decide) hin hb
  · rw [pixel_of_contains simple (by decide) m t ceiling hin, kernel, Kernel.colour_simple, hg, meanUp_pair, clamp_natCast]
  · rw [pixel_of_contains nearest (by decide) m t ceiling hin, kernel, Kernel.colour_nearest_green, clamp_natCast]

end Method

/-- **The bilinear method by the filter.** Whatever the ceiling, a run leaves in each pixel inside the border the sample of
its site, in the colour of the site, and in each other colour the mean of the two or four samples of that colour around
it, a half rounded up; both are cut at the ceiling, and the border is black. A request that fits succeeds and leaves the
same in its image. -/
theorem decode_means (t : Tile) :
    (∀ (m : Mosaic) (r : Raster), r.width = m.width → r.height = m.height → ∀ x y,
        TakesMeans m t r.ceiling x y ((Method.bilinear.run m t r).get x y)) ∧
      ∀ {α : Type} (d : Depth α) {w h : Nat} {src dst : Array α} (hfit : Fits .bilinear w h src dst),
        let out := d.decode t .bilinear w h src dst
        out.result = .ok () ∧ ∀ x y, x < w → y < h → ∃ pixel : Channel → α,
          (∀ c, channelAt? w out.dst x y c = some (pixel c)) ∧
            TakesMeans (d.mosaic w h src hfit.src_size) t d.ceiling x y fun c => d.toNat (pixel c) := by
  refine ⟨fun m r hw hh x y => ?_, fun d w h src dst hfit => ⟨?_, fun x y hx hy => ?_⟩⟩
  · rw [Method.bilinear.get_run_pixel hw hh]
    exact Method.takesMeans_bilinear m t r.ceiling x y
  · exact (d.result_eq_ok_iff t .bilinear w h src dst).mpr hfit
  · obtain ⟨pixel, hat, hpixel⟩ := d.exists_pixel_decode hfit t hx hy
    refine ⟨pixel, hat, ?_⟩
    rw [hpixel]
    exact Method.takesMeans_bilinear _ t d.ceiling x y

/-- a blue and a green site of one patch, a pixel of its border, and the same sites under a ceiling of a hundred -/
theorem decode_means_patch :
    let patch : Array UInt8 := #[229, 67, 95, 146, 232, 51, 229, 241, 169, 161, 15, 52, 45, 175, 98, 197]
    let image := (decode8 .rggb .bilinear 4 4 patch (.replicate 48 255)).dst
    let low := Method.bilinear.run (Depth.byte.mosaic 4 4 patch rfl) .rggb (.blank 4 4 100)
    (∃ pixel : Channel → UInt8, (∀ c, channelAt? 4 image 1 1 c = some (pixel c)) ∧
        ((pixel .red).toNat, (pixel .green).toNat, (pixel .blue).toNat) = (127, 172, 51)) ∧
      (∃ pixel : Channel → UInt8, (∀ c, channelAt? 4 image 2 1 c = some (pixel c)) ∧
        ((pixel .red).toNat, (pixel .green).toNat, (pixel .blue).toNat) = (55, 229, 146)) ∧
      (∃ pixel : Channel → UInt8, (∀ c, channelAt? 4 image 0 2 c = some (pixel c)) ∧ ∀ c, (pixel c).toNat = 0) ∧
      (low.get 1 1 .red, low.get 1 1 .blue) = (100, 51) := by
  intro patch image low
  have hin : (Region.inside 1 4 4).Contains 1 1 := by decide
  have hin' : (Region.inside 1 4 4).Contains 2 1 := by decide
  obtain ⟨hrun, hdecode⟩ := decode_means .rggb
  obtain ⟨_, hpixels⟩ := hdecode .byte (show Fits .bilinear 4 4 patch (.replicate 48 255) by decide +kernel)
  refine ⟨?_, ?_, ?_, ?_⟩
  · obtain ⟨pixel, hat, hmeans⟩ := hpixels 1 1 (by decide) (by decide)
    have hred : (pixel .red).toNat = 127 := (hmeans.mean hin .red (by decide)).2.trans (by decide +kernel)
    have hgreen : (pixel .green).toNat = 172 := (hmeans.mean hin .green (by decide)).2.trans (by decide +kernel)
    have hblue : (pixel .blue).toNat = 51 := (hmeans.own hin).trans (by decide +kernel)
    exact ⟨pixel, hat, by rw [hred, hgreen, hblue]⟩
  · obtain ⟨pixel, hat, hmeans⟩ := hpixels 2 1 (by decide) (by decide)
    have hred : (pixel .red).toNat = 55 := (hmeans.mean hin' .red (by decide)).2.trans (by decide +kernel)
    have hgreen : (pixel .green).toNat = 229 := (hmeans.own hin').trans (by decide +kernel)
    have hblue : (pixel .blue).toNat = 146 := (hmeans.mean hin' .blue (by decide)).2.trans (by decide +kernel)
    exact ⟨pixel, hat, by rw [hred, hgreen, hblue]⟩
  · obtain ⟨pixel, hat, hmeans⟩ := hpixels 0 2 (by decide) (by decide)
    exact ⟨pixel, hat, hmeans.border (by decide)⟩
  · have hmeans := hrun (Depth.byte.mosaic 4 4 patch rfl) (.blank 4 4 100) rfl rfl 1 1
    have hred : low.get 1 1 .red = 100 := (hmeans.mean hin .red (by decide)).2.trans (by decide +kernel)
    have hblue : low.get 1 1 .blue = 51 := (hmeans.own hin).trans (by decide +kernel)
    rw [hred, hblue]

/-- **The nearest and the simple method by the filter.** Whatever the ceiling, both runs are loops that hand the phase on
from row to row. A site outside the last row and the last column opens a square with one red, one blue and two green
samples. Both runs leave its red and its blue sample in the pixel; the simple method leaves the mean of the two green
samples, a half rounded up, and the nearest method the green sample of the corner at a green site and the one on the
right at another site. All are cut at the ceiling, and the last row and the last column are black. Requests that fit
succeed and leave the same in their images. -/
theorem decode_squares (t : Tile) :
    (∀ (m : Mosaic) (r : Raster), r.width = m.width → r.height = m.height →
        (Method.nearest.run m t r = r.fromCornersByRows .nearest m t ∧
            Method.simple.run m t r = r.fromCornersByRows .simple m t) ∧
          ∀ x y, ReadsSquare m t r.ceiling x y ((Method.nearest.run m t r).get x y)
            ((Method.simple.run m t r).get x y)) ∧
      ∀ {α : Type} (d : Depth α) {w h : Nat} {src dst₁ dst₂ : Array α} (hnearest : Fits .nearest w h src dst₁),
        Fits .simple w h src dst₂ →
        let out₁ := d.decode t .nearest w h src dst₁
        let out₂ := d.decode t .simple w h src dst₂
        (out₁.result = .ok () ∧ out₂.result = .ok ()) ∧ ∀ x y, x < w → y < h → ∃ nearest simple : Channel → α,
          (∀ c, channelAt? w out₁.dst x y c = some (nearest c) ∧ channelAt? w out₂.dst x y c = some (simple c)) ∧
            ReadsSquare (d.mosaic w h src hnearest.src_size) t d.ceiling x y (fun c => d.toNat (nearest c))
              fun c => d.toNat (simple c) := by
  refine ⟨fun m r hw hh => ⟨⟨?_, ?_⟩, fun x y => ?_⟩, fun d w h src dst₁ dst₂ hnearest hsimple => ⟨⟨?_, ?_⟩, ?_⟩⟩
  · exact r.fromCorners_eq_byRows .nearest m t
  · exact r.fromCorners_eq_byRows .simple m t
  · rw [Method.nearest.get_run_pixel hw hh, Method.simple.get_run_pixel hw hh]
    exact Method.readsSquare m t r.ceiling x y
  · exact (d.result_eq_ok_iff t .nearest w h src dst₁).mpr hnearest
  · exact (d.result_eq_ok_iff t .simple w h src dst₂).mpr hsimple
  · intro x y hx hy
    obtain ⟨nearest, hat₁, hpixel₁⟩ := d.exists_pixel_decode hnearest t hx hy
    obtain ⟨simple, hat₂, hpixel₂⟩ := d.exists_pixel_decode hsimple t hx hy
    refine ⟨nearest, simple, fun c => ⟨hat₁ c, hat₂ c⟩, ?_⟩
    rw [hpixel₁, hpixel₂]
    exact Method.readsSquare _ t d.ceiling x y

/-- the red site and the last pixel of an image of one tile, twelve bits deep and with a sample above the ceiling -/
theorem decode_squares_tile :
    let tile : Array UInt16 := #[4000, 1001, 1002, 5000]
    let image₁ := (decode16 .rggb .nearest 2 2 12 tile (.replicate 12 7)).dst
    let image₂ := (decode16 .rggb .simple 2 2 12 tile (.replicate 12 9)).dst
    (∃ nearest simple : Channel → UInt16,
        (∀ c, channelAt? 2 image₁ 0 0 c = some (nearest c) ∧ channelAt? 2 image₂ 0 0 c = some (simple c)) ∧
          ((nearest .red).toNat, (nearest .green).toNat, (nearest .blue).toNat) = (4000, 1001, 4095) ∧
          ((simple .red).toNat, (simple .green).toNat, (simple .blue).toNat) = (4000, 1002, 4095)) ∧
      ∃ nearest simple : Channel → UInt16,
        (∀ c, channelAt? 2 image₁ 1 1 c = some (nearest c) ∧ channelAt? 2 image₂ 1 1 c = some (simple c)) ∧
          ∀ c, (nearest c).toNat = 0 ∧ (simple c).toNat = 0 := by
  intro tile image₁ image₂
  obtain ⟨_, hpixels⟩ := (decode_squares .rggb).2 (.word 12 (by decide))
    (show Fits .nearest 2 2 tile (.replicate 12 7) by decide +kernel)
    (show Fits .simple 2 2 tile (.replicate 12 9) by decide +kernel)
  refine ⟨?_, ?_⟩
  · obtain ⟨nearest, simple, hat, hsquare⟩ := hpixels 0 0 (by decide) (by decide)
    obtain ⟨r, b, g₀, g₁, ⟨hr, hb, hg⟩, ⟨hred₁, hred₂⟩, ⟨hblue₁, hblue₂⟩, hgreen₂, hgreen₁⟩ :=
      hsquare.square (by decide)
    cases hr.symm.trans (show _ = [4000] by decide +kernel)
    cases hb.symm.trans (show _ = [5000] by decide +kernel)
    cases hg.symm.trans (show _ = [1001, 1002] by decide +kernel)
    refine ⟨nearest, simple, hat, ?_, ?_⟩
    · exact Prod.ext hred₁ (Prod.ext (hgreen₁.trans (by decide +kernel)) hblue₁)
    · exact Prod.ext hred₂ (Prod.ext hgreen₂ hblue₂)
  · obtain ⟨nearest, simple, hat, hsquare⟩ := hpixels 1 1 (by decide) (by decide)
    exact ⟨nearest, simple, hat, hsquare.last (by decide)⟩

end Imaging
