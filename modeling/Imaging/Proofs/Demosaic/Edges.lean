/-
Demosaicing along edges, without a raster in between. The method fills one raster in passes, and each pass reads what
the passes before it and its own earlier steps have left. `Kernel.edgeSense` gives the three colours of a site from the
samples around it alone, and `alongEdges_eq` says that the passes compute nothing else: they interpolate by this kernel,
from samples that are limited to the ceiling.

Three facts carry this. The green pass reads samples alone (`get_fillGreen`). A colour pass reads green and the sampled
sites of its colour, and stores in neither (`get_fillColour`). The sites whose green has no estimate lie within two
pixels of an edge, and what is computed from them lies within three and is cleared.
-/
import Imaging.Demosaic.EdgeSense
import Imaging.Proofs.Demosaic.Kernel

namespace Imaging

/-- the samples around the site at an offset -/
def Window.moved {α : Type} (s : Window α) (a b : Int) : Window α := fun dx dy => s (a + dx) (b + dy)

/-- the mosaic with every sample above the ceiling lowered to it -/
def Mosaic.limit (m : Mosaic) (ceiling : Nat) : Mosaic where
  width := m.width
  height := m.height
  samples := m.samples.map fun v => min v ceiling
  size_eq := by rw [Array.size_map, m.size_eq]

/-- the samples of a mosaic whose buffer is another one's, each sample sent through a function that keeps zero -/
theorem Mosaic.get_of_map {l m : Mosaic} {f : Nat → Nat} (hw : l.width = m.width) (hh : l.height = m.height)
    (hsamples : l.samples = m.samples.map f) (hzero : f 0 = 0) (x y : Nat) : l.get x y = f (m.get x y) := by
  by_cases h : x < m.width ∧ y < m.height
  · have hi : y * m.width + x < m.samples.size := by
      rw [m.size_eq]
      exact Raster.place_lt h.1 h.2
    simp [get, hw, hh, hsamples, h, hi]
  · simp [get, hw, hh, h, hzero]

theorem Mosaic.get_limit (m : Mosaic) (ceiling x y : Nat) : (m.limit ceiling).get x y = min (m.get x y) ceiling :=
  get_of_map (l := m.limit ceiling) (m := m) (f := fun v => min v ceiling) rfl rfl rfl (Nat.zero_min ceiling) x y

theorem Mosaic.limit_of_le {m : Mosaic} {ceiling : Nat} (h : ∀ v ∈ m.samples, v ≤ ceiling) : m.limit ceiling = m := by
  have hsamples : m.samples.map (fun v => min v ceiling) = m.samples := by
    apply Array.ext
    · rw [Array.size_map]
    · intro i _ hi
      rw [Array.getElem_map, Nat.min_eq_left (h _ (Array.getElem_mem hi))]
  cases m
  simp only [limit, hsamples]

/-! ## The kernel -/

namespace Kernel

open EdgeSense

/-- green at a site of another colour -/
def edgeGreen (s : Window Int) : Int := greenEstimate s s

/-- how far the sample at an offset stands above green, where it is not green itself -/
def edgeDifference (s : Window Int) : Window Int := fun dx dy => s dx dy - edgeGreen (s.moved dx dy)

def edgeSense : Kernel Int where
  atGreen s :=
    { row := s 0 0 + meanOfTwo (edgeDifference s (-1) 0) (edgeDifference s 1 0)
      green := s 0 0
      column := s 0 0 + meanOfTwo (edgeDifference s 0 (-1)) (edgeDifference s 0 1) }
  atColour s :=
    { row := s 0 0
      green := edgeGreen s
      column := edgeGreen s + meanOfFour (edgeDifference s (-1) (-1)) (edgeDifference s 1 (-1))
        (edgeDifference s (-1) 1) (edgeDifference s 1 1) }

end Kernel

/-! ## What the estimates read -/

namespace EdgeSense

open Kernel

/-- green is estimated from the site's own colour, two steps around it, and from green, one step around it -/
theorem greenEstimate_congr {s s' g g' : Window Int}
    (hs : ∀ dx dy : Int, dx % 2 = 0 → dy % 2 = 0 → -2 ≤ dx ∧ dx ≤ 2 → -2 ≤ dy ∧ dy ≤ 2 → s dx dy = s' dx dy)
    (hg : ∀ dx dy : Int, (dx + dy) % 2 ≠ 0 → -1 ≤ dx ∧ dx ≤ 1 → -1 ≤ dy ∧ dy ≤ 1 → g dx dy = g' dx dy) :
    greenEstimate s g = greenEstimate s' g' := by
  have h₀ := hs 0 0 (by decide) (by decide) (by decide) (by decide)
  have hl₂ := hs (-2) 0 (by decide) (by decide) (by decide) (by decide)
  have hr₂ := hs 2 0 (by decide) (by decide) (by decide) (by decide)
  have hu₂ := hs 0 (-2) (by decide) (by decide) (by decide) (by decide)
  have hd₂ := hs 0 2 (by decide) (by decide) (by decide) (by decide)
  have hl := hg (-1) 0 (by decide) (by decide) (by decide)
  have hr := hg 1 0 (by decide) (by decide) (by decide)
  have hu := hg 0 (-1) (by decide) (by decide) (by decide)
  have hd := hg 0 1 (by decide) (by decide) (by decide)
  have hrow : secondDifferenceAlongRow s = secondDifferenceAlongRow s' := by
    rw [secondDifferenceAlongRow, secondDifferenceAlongRow, h₀, hl₂, hr₂]
  have hcolumn : secondDifferenceAlongColumn s = secondDifferenceAlongColumn s' := by
    rw [secondDifferenceAlongColumn, secondDifferenceAlongColumn, h₀, hu₂, hd₂]
  rw [greenEstimate, greenEstimate, hrow, hcolumn, greenAlong, greenAlong, hl, hr, hu, hd]

/-- a mean of green values stays between their bounds -/
theorem greenEstimate_mem {s g : Window Int} {ceiling : Nat} (h : ∀ dx dy, 0 ≤ g dx dy ∧ g dx dy ≤ ceiling) :
    0 ≤ greenEstimate s g ∧ greenEstimate s g ≤ ceiling := by
  have hl := h (-1) 0
  have hr := h 1 0
  have hu := h 0 (-1)
  have hd := h 0 1
  unfold greenEstimate greenAlong meanOfTwo meanOfFour
  split
  · omega
  · split
    · omega
    · omega

/-- the mean difference is taken over sites that carry the colour themselves, one step around the site -/
theorem meanDifference?_congr {p : Phase} {c : Channel} (hc : c ≠ .green) {x : Nat} {d d' : Window Int}
    (h : ∀ dx dy : Int, -1 ≤ dx ∧ dx ≤ 1 → -1 ≤ dy ∧ dy ≤ 1 → p.channelAround x dx dy = c → d dx dy = d' dx dy) :
    meanDifference? p c x d = meanDifference? p c x d' := by
  unfold meanDifference?
  by_cases hg : p.isGreen x = true
  · by_cases hr : p.rowChannel = c
    · have hl := h (-1) 0 (by decide) (by decide) (by simp [Phase.channelAround, hg, hr])
      have hr' := h 1 0 (by decide) (by decide) (by simp [Phase.channelAround, hg, hr])
      simp only [hg, hr, if_true, hl, hr']
    · have hcol := Phase.columnChannel_eq hc hr
      have hu := h 0 (-1) (by decide) (by decide) (by simp [Phase.channelAround, hg, hcol])
      have hd := h 0 1 (by decide) (by decide) (by simp [Phase.channelAround, hg, hcol])
      simp only [hg, hr, if_true, if_false, hu, hd]
  · by_cases hr : p.rowChannel = c
    · simp only [hg, hr, if_true, if_false, Bool.false_eq_true]
    · have hcol := Phase.columnChannel_eq hc hr
      have h₁ := h (-1) (-1) (by decide) (by decide) (by simp [Phase.channelAround, hg, hcol])
      have h₂ := h 1 (-1) (by decide) (by decide) (by simp [Phase.channelAround, hg, hcol])
      have h₃ := h (-1) 1 (by decide) (by decide) (by simp [Phase.channelAround, hg, hcol])
      have h₄ := h 1 1 (by decide) (by decide) (by simp [Phase.channelAround, hg, hcol])
      simp only [hg, hr, if_false, Bool.false_eq_true, h₁, h₂, h₃, h₄]

/-! ## The passes -/

variable {l m : Mosaic} {t : Tile} {r : Raster}

/-- every sample stands in its own channel of its site -/
def Samples (l : Mosaic) (t : Tile) (r : Raster) : Prop := ∀ x y, r.get x y (t.colourAt x y) = l.get x y

/-- scattering stores the limited samples, whatever the raster held -/
theorem samples_scatter (hw : r.width = m.width) (hh : r.height = m.height) :
    Samples (m.limit r.ceiling) t (scatter m t r) := by
  intro x y
  have hclear := r.sameShape_clear
  unfold scatter
  rw [Raster.get_sweep (W := fun x y c => t.colourAt x y = c) (v := fun x y _ => (m.limit r.ceiling).get x y)
    fun x y s => s.sameShape_put x y _ _]
  · by_cases hin : (Region.whole m.width m.height).Contains x y
    · rw [if_pos ⟨hin, rfl⟩]
    · rw [if_neg fun h => hin h.1, Raster.get_clear, Mosaic.get_of_outside]
      exact fun h => hin ⟨⟨Nat.zero_le x, h.1⟩, Nat.zero_le y, h.2⟩
  · intro a b s hg hs _ x' y' c'
    have hs := hs.trans hclear
    have ha : a < s.width := by rw [hs.width, hw]; exact hg.1.2
    have hb : b < s.height := by rw [hs.height, hh]; exact hg.2.2
    rw [Raster.get_put s ha hb, Phase.channelAt_atRow, clamp_natCast, hs.ceiling]
    by_cases h : a = x' ∧ b = y'
    · obtain ⟨rfl, rfl⟩ := h
      rw [Mosaic.get_limit]
    · rw [if_neg fun h' => h h'.1, if_neg fun h' => h h'.1]

theorem window_eq_get (r : Raster) (c : Channel) {x y a b : Nat} {dx dy : Int} (ha : (a : Int) = x + dx)
    (hb : (b : Int) = y + dy) : r.window c x y dx dy = r.get a b c := by
  rw [Raster.window, ← ha, ← hb, Raster.value, if_pos ⟨Int.natCast_nonneg a, Int.natCast_nonneg b⟩, Int.toNat_natCast,
    Int.toNat_natCast]

theorem exists_site (x : Nat) (dx : Int) (h : -dx ≤ x) : ∃ a : Nat, (a : Int) = x + dx :=
  ⟨(x + dx).toNat, by omega⟩

theorem window_nonneg (l : Mosaic) (x y : Nat) (dx dy : Int) : 0 ≤ l.window x y dx dy := by
  unfold Mosaic.window Mosaic.sample
  split
  · exact Int.natCast_nonneg _
  · exact Int.le_refl 0

theorem window_limit_le (m : Mosaic) (ceiling x y : Nat) (dx dy : Int) :
    (m.limit ceiling).window x y dx dy ≤ ceiling := by
  unfold Mosaic.window Mosaic.sample
  split
  · rw [Mosaic.get_limit]
    omega
  · exact Int.natCast_nonneg _

/-- around a site of another colour, the cells that the green estimate reads are sampled ones -/
theorem greenEstimate_window (h : Samples l t r) {x y : Nat} (hx : 2 ≤ x) (hy : 2 ≤ y)
    (hne : (Phase.atRow t y).isGreen x = false) :
    greenEstimate (r.window (Phase.atRow t y).rowChannel x y) (r.window .green x y) = edgeGreen (l.window x y) := by
  refine greenEstimate_congr ?_ ?_
  · intro dx dy hdx hdy hx₂ hy₂
    obtain ⟨a, ha⟩ := exists_site x dx (by omega)
    obtain ⟨b, hb⟩ := exists_site y dy (by omega)
    have hcol : t.colourAt a b = (Phase.atRow t y).rowChannel := by
      rw [Phase.colourAt_of_offset t ha hb]
      simp [Phase.channelAround, hdx, hdy, hne]
    rw [window_eq_get r _ ha hb, l.window_eq_get ha hb, ← hcol, h a b]
  · intro dx dy hodd hx₁ hy₁
    obtain ⟨a, ha⟩ := exists_site x dx (by omega)
    obtain ⟨b, hb⟩ := exists_site y dy (by omega)
    have hcol : t.colourAt a b = .green := by
      rw [Phase.colourAt_of_offset t ha hb, Phase.channelAround]
      by_cases hdy : dy % 2 = 0
      · have hdx : dx % 2 ≠ 0 := by omega
        simp [hdx, hdy, hne]
      · have hdx : dx % 2 = 0 := by omega
        simp [hdx, hdy, hne]
    rw [window_eq_get r _ ha hb, l.window_eq_get ha hb, ← hcol, h a b]

/-- **The green pass** stores at each site of another colour what the kernel makes of the samples around the site, and
nothing else. -/
theorem get_fillGreen (h : Samples l t r) (x y : Nat) (c : Channel) :
    (fillGreen t r).get x y c =
      if (Region.inside 2 r.width r.height).Contains x y ∧ c = .green ∧ t.colourAt x y ≠ .green then
        clamp (edgeGreen (l.window x y)) r.ceiling
      else r.get x y c := by
  unfold fillGreen
  refine Raster.get_sweep (W := fun x y c => c = .green ∧ t.colourAt x y ≠ .green)
    (v := fun x y _ => clamp (edgeGreen (l.window x y)) r.ceiling) ?_ ?_ x y c
  · intro a b s
    dsimp only
    split
    · exact Raster.SameShape.refl s
    · exact s.sameShape_put a b _ _
  · intro a b s hg hs hkeep x' y' c'
    by_cases hgreen : (Phase.atRow t b).isGreen a = true
    · simp only [hgreen, if_true]
      rw [if_neg]
      intro hcell
      obtain ⟨⟨rfl, rfl⟩, _, hne⟩ := hcell
      exact hne ((Phase.isGreen_atRow t a b).mp hgreen)
    · have hne : t.colourAt a b ≠ .green := fun h => hgreen ((Phase.isGreen_atRow t a b).mpr h)
      -- the pass stores in no sampled cell, so the samples still stand
      have hsamples : Samples l t s := fun x y => by
        rw [hkeep x y _ fun hw => hw.2 hw.1, h x y]
      simp only [Region.Contains, Region.inside] at hg
      have ha : a < s.width := by rw [hs.width]; omega
      have hb : b < s.height := by rw [hs.height]; omega
      simp only [hgreen, if_false, Bool.false_eq_true]
      rw [Raster.get_put s ha hb, greenEstimate_window hsamples hg.1.1 hg.2.1 (eq_false_of_ne_true hgreen), hs.ceiling]
      by_cases hxy : a = x' ∧ b = y'
      · obtain ⟨rfl, rfl⟩ := hxy
        exact if_congr ⟨fun h => ⟨⟨rfl, rfl⟩, h.2.symm, hne⟩, fun h => ⟨⟨rfl, rfl⟩, h.2.1.symm⟩⟩ rfl rfl
      · rw [if_neg fun h => hxy h.1, if_neg fun h => hxy h.1]

theorem meanDifference?_eq_none_iff {p : Phase} {c : Channel} (hc : c ≠ .green) {x : Nat} {d : Window Int} :
    meanDifference? p c x d = none ↔ p.channelAt x = c := by
  unfold meanDifference? Phase.channelAt
  by_cases hg : p.isGreen x = true
  · by_cases hr : p.rowChannel = c
    · simp [hg, hr, hc.symm]
    · simp [hg, hr, hc.symm]
  · by_cases hr : p.rowChannel = c
    · simp [hg, hr]
    · simp [hg, hr]

/-- the mean difference depends on green and on the sampled cells of the colour alone -/
theorem meanDifference?_window {c : Channel} (hc : c ≠ .green) {r s : Raster} {x y : Nat} (hx : 1 ≤ x) (hy : 1 ≤ y)
    (hsampled : ∀ a b, t.colourAt a b = c → s.get a b c = r.get a b c)
    (hgreen : ∀ a b, s.get a b .green = r.get a b .green) :
    meanDifference? (Phase.atRow t y) c x (difference s c x y) =
      meanDifference? (Phase.atRow t y) c x (difference r c x y) := by
  refine meanDifference?_congr hc ?_
  intro dx dy hx₁ hy₁ hcol
  obtain ⟨a, ha⟩ := exists_site x dx (by omega)
  obtain ⟨b, hb⟩ := exists_site y dy (by omega)
  rw [← Phase.colourAt_of_offset t ha hb] at hcol
  rw [difference, difference, window_eq_get s _ ha hb, window_eq_get s _ ha hb, window_eq_get r _ ha hb,
    window_eq_get r _ ha hb, hsampled a b hcol, hgreen a b]

/-- what a colour pass stores at a site that did not sample the colour -/
def colourEstimate (t : Tile) (c : Channel) (r : Raster) (x y : Nat) : Int :=
  r.get x y .green + (meanDifference? (Phase.atRow t y) c x (difference r c x y)).getD 0

/-- **A colour pass** stores the estimate of its colour where that was not sampled, and nothing else. -/
theorem get_fillColour {c : Channel} (hc : c ≠ .green) (x y : Nat) (c' : Channel) :
    (fillColour t c r).get x y c' =
      if (Region.inside 1 r.width r.height).Contains x y ∧ c' = c ∧ t.colourAt x y ≠ c then
        clamp (colourEstimate t c r x y) r.ceiling
      else r.get x y c' := by
  unfold fillColour
  refine Raster.get_sweep (W := fun x y c' => c' = c ∧ t.colourAt x y ≠ c)
    (v := fun x y _ => clamp (colourEstimate t c r x y) r.ceiling) ?_ ?_ x y c'
  · intro a b s
    split
    · exact s.sameShape_put a b _ _
    · exact Raster.SameShape.refl s
  · intro a b s hg hs hkeep x' y' c''
    simp only [Region.Contains, Region.inside] at hg
    -- the pass stores neither in green nor in sampled cells, so the estimate is that of the raster it began with
    have hgreen : ∀ a b, s.get a b .green = r.get a b .green := fun a b => hkeep a b _ fun h => hc h.1.symm
    have hmean := meanDifference?_window (t := t) hc hg.1.1 hg.2.1 (s := s) (r := r)
      (fun a b hcol => hkeep a b _ fun h => h.2 hcol) hgreen
    have hwin : s.window .green a b 0 0 = r.get a b .green := by
      rw [window_eq_get s _ (a := a) (b := b) (by omega) (by omega), hgreen]
    have hown := meanDifference?_eq_none_iff (p := Phase.atRow t b) (x := a) (d := difference r c a b) hc
    rw [Phase.channelAt_atRow] at hown
    cases hd : meanDifference? (Phase.atRow t b) c a (difference r c a b) with
    | none =>
      simp only [hmean, hd]
      rw [if_neg]
      intro hcell
      obtain ⟨⟨rfl, rfl⟩, _, hne⟩ := hcell
      exact hne (hown.mp hd)
    | some v =>
      have hne : t.colourAt a b ≠ c := by
        intro h
        rw [hown.mpr h] at hd
        cases hd
      have ha : a < s.width := by rw [hs.width]; omega
      have hb : b < s.height := by rw [hs.height]; omega
      simp only [hmean, hd]
      rw [Raster.get_put s ha hb, hwin, hs.ceiling]
      by_cases hxy : a = x' ∧ b = y'
      · obtain ⟨rfl, rfl⟩ := hxy
        rw [colourEstimate, hd, Option.getD_some]
        exact if_congr ⟨fun h => ⟨⟨rfl, rfl⟩, h.2.symm, hne⟩, fun h => ⟨⟨rfl, rfl⟩, h.2.1.symm⟩⟩ rfl rfl
      · rw [if_neg fun h => hxy h.1, if_neg fun h => hxy h.1]

/-- **Both colour passes.** Neither reads what the other stores: each estimate is that of the raster before them. -/
theorem get_fillColours (x y : Nat) (c : Channel) :
    (fillColour t .blue (fillColour t .red r)).get x y c =
      if (Region.inside 1 r.width r.height).Contains x y ∧ c ≠ .green ∧ t.colourAt x y ≠ c then
        clamp (colourEstimate t c r x y) r.ceiling
      else r.get x y c := by
  have hs := sameShape_fillColour t .red r
  have hred (x y : Nat) {c : Channel} (h : c ≠ .red) : (fillColour t .red r).get x y c = r.get x y c := by
    rw [get_fillColour (by decide), if_neg fun h' => h h'.2.1]
  rw [get_fillColour (by decide), hs.width, hs.height, hs.ceiling]
  cases c with
  | red =>
    rw [if_neg fun h => Channel.noConfusion h.2.1, get_fillColour (by decide)]
    exact if_congr ⟨fun h => ⟨h.1, by decide, h.2.2⟩, fun h => ⟨h.1, rfl, h.2.2⟩⟩ rfl rfl
  | green =>
    rw [if_neg fun h => Channel.noConfusion h.2.1, if_neg fun h => h.2.1 rfl, hred x y (by decide)]
  | blue =>
    rw [hred x y (by decide)]
    by_cases h : (Region.inside 1 r.width r.height).Contains x y ∧ t.colourAt x y ≠ .blue
    · have hmean := meanDifference?_window (t := t) (c := .blue) (by decide) (s := fillColour t .red r) (r := r)
        h.1.1.1 h.1.2.1 (fun a b _ => hred a b (by decide)) (fun a b => hred a b (by decide))
      rw [if_pos ⟨h.1, rfl, h.2⟩, if_pos ⟨h.1, by decide, h.2⟩, colourEstimate, hmean, hred x y (by decide),
        colourEstimate]
    · rw [if_neg fun h' => h ⟨h'.1, h'.2.2⟩, if_neg fun h' => h ⟨h'.1, h'.2.2⟩]

/-! ## The passes and the kernel -/

/-- the windows of neighbouring sites are one window, seen from two places -/
theorem window_moved (l : Mosaic) {x y a b : Nat} {dx dy : Int} (ha : (a : Int) = x + dx) (hb : (b : Int) = y + dy) :
    l.window a b = (l.window x y).moved dx dy := by
  funext i j
  rw [Window.moved, Mosaic.window, Mosaic.window, ha, hb, Int.add_assoc, Int.add_assoc]

/-- the raster after the green pass: samples in their own channels, estimates in green two pixels inside the image -/
structure GreenFilled (l : Mosaic) (t : Tile) (r : Raster) : Prop where
  samples : Samples l t r
  green : ∀ x y, (Region.inside 2 r.width r.height).Contains x y → t.colourAt x y ≠ .green →
    (r.get x y .green : Int) = edgeGreen (l.window x y)

theorem greenFilled_fillGreen (h : Samples l t r) (hmax : ∀ x y dx dy, l.window x y dx dy ≤ r.ceiling) :
    GreenFilled l t (fillGreen t r) := by
  refine ⟨?_, ?_⟩
  · intro x y
    rw [get_fillGreen h, if_neg fun h' => h'.2.2 h'.2.1, h x y]
  · intro x y hin hne
    have hs := sameShape_fillGreen t r
    rw [hs.width, hs.height] at hin
    obtain ⟨h₀, h₁⟩ := greenEstimate_mem (s := l.window x y) fun dx dy => ⟨window_nonneg l x y dx dy, hmax x y dx dy⟩
    rw [get_fillGreen h, if_pos ⟨hin, rfl, hne⟩, edgeGreen, clamp_of_mem h₀ h₁]

/-- three pixels inside the image, a colour pass takes the mean difference that the kernel takes -/
theorem meanDifference?_eq_edgeDifference (h : GreenFilled l t r) {x y : Nat}
    (hin : (Region.inside 3 r.width r.height).Contains x y) {c : Channel} (hc : c ≠ .green) :
    meanDifference? (Phase.atRow t y) c x (difference r c x y) =
      meanDifference? (Phase.atRow t y) c x (edgeDifference (l.window x y)) := by
  simp only [Region.Contains, Region.inside] at hin
  refine meanDifference?_congr hc ?_
  intro dx dy hx hy hcol
  obtain ⟨a, ha⟩ := exists_site x dx (by omega)
  obtain ⟨b, hb⟩ := exists_site y dy (by omega)
  rw [← Phase.colourAt_of_offset t ha hb] at hcol
  have hin₂ : (Region.inside 2 r.width r.height).Contains a b := by
    simp only [Region.Contains, Region.inside]
    omega
  have hne : t.colourAt a b ≠ .green := by
    rw [hcol]
    exact hc
  have hsample : r.get a b c = l.get a b := by rw [← hcol, h.samples a b]
  rw [difference, window_eq_get r _ ha hb, window_eq_get r _ ha hb, hsample, h.green a b hin₂ hne, edgeDifference,
    ← window_moved l ha hb, l.window_eq_get ha hb]

theorem colour_own (t : Tile) (x y : Nat) (s : Window Int) :
    Kernel.edgeSense.colour t x y s (t.colourAt x y) = s 0 0 := Kernel.colour_own rfl rfl t x y

theorem colour_green {t : Tile} {x y : Nat} (hne : t.colourAt x y ≠ .green) (s : Window Int) :
    Kernel.edgeSense.colour t x y s .green = edgeGreen s := by
  rw [Kernel.colour_at_other hne, Estimate.channel_green]
  rfl

/-- red or blue, where it was not sampled, is green and the mean difference, for the kernel as for a colour pass -/
theorem colour_other {t : Tile} {x y : Nat} {c : Channel} (hc : c ≠ .green) (hne : t.colourAt x y ≠ c) (s : Window Int) :
    Kernel.edgeSense.colour t x y s c = Kernel.edgeSense.colour t x y s .green +
      (meanDifference? (Phase.atRow t y) c x (edgeDifference s)).getD 0 := by
  by_cases hg : (Phase.atRow t y).isGreen x = true
  · rw [Kernel.colour_of_green hg, Kernel.colour_of_green hg, Estimate.channel_green, meanDifference?, if_pos hg]
    by_cases hr : (Phase.atRow t y).rowChannel = c
    · rw [if_pos hr, ← hr, Estimate.channel_rowChannel, Option.getD_some]
      rfl
    · rw [if_neg hr, ← Phase.columnChannel_eq hc hr, Estimate.channel_columnChannel, Option.getD_some]
      rfl
  · have hr : (Phase.atRow t y).rowChannel ≠ c := by
      rwa [← Phase.channelAt_atRow, Phase.channelAt, if_neg hg] at hne
    rw [Kernel.colour_of_not_green hg, Kernel.colour_of_not_green hg, Estimate.channel_green, meanDifference?, if_neg hg,
      if_neg hr, ← Phase.columnChannel_eq hc hr, Estimate.channel_columnChannel, Option.getD_some]
    rfl

/-- **Three pixels inside the image,** the passes leave the clamped colours of the kernel. -/
theorem get_fillColours_eq (h : GreenFilled l t r) (hmax : ∀ x y dx dy, l.window x y dx dy ≤ r.ceiling) {x y : Nat}
    (hin : (Region.inside 3 r.width r.height).Contains x y) (c : Channel) :
    (fillColour t .blue (fillColour t .red r)).get x y c =
      clamp (Kernel.edgeSense.colour t x y (l.window x y) c) r.ceiling := by
  have hin₁ : (Region.inside 1 r.width r.height).Contains x y := by
    simp only [Region.Contains, Region.inside] at hin ⊢
    omega
  have hin₂ : (Region.inside 2 r.width r.height).Contains x y := by
    simp only [Region.Contains, Region.inside] at hin ⊢
    omega
  have hcentre : l.window x y 0 0 = l.get x y := l.window_eq_get (by omega) (by omega)
  rw [get_fillColours]
  by_cases hown : t.colourAt x y = c
  · have hle := hmax x y 0 0
    rw [if_neg fun h' => h'.2.2 hown, ← hown, colour_own, h.samples x y, hcentre, clamp_natCast]
    omega
  · by_cases hc : c = .green
    · subst hc
      obtain ⟨h₀, h₁⟩ := greenEstimate_mem (s := l.window x y) fun dx dy => ⟨window_nonneg l x y dx dy, hmax x y dx dy⟩
      have hgreen := h.green x y hin₂ hown
      rw [if_neg fun h' => h'.2.1 rfl, colour_green hown, ← hgreen, clamp_natCast]
      rw [edgeGreen] at hgreen
      omega
    · have hgreen : (r.get x y .green : Int) = Kernel.edgeSense.colour t x y (l.window x y) .green := by
        by_cases hg : t.colourAt x y = .green
        · rw [← hg, colour_own, h.samples x y, hcentre]
        · rw [colour_green hg, h.green x y hin₂ hg]
      rw [if_pos ⟨hin₁, hc, hown⟩, colourEstimate, meanDifference?_eq_edgeDifference h hin hc, hgreen,
        ← colour_other hc hown]

end EdgeSense

namespace Raster

open EdgeSense

/-- **Edge-sensing in place and by a kernel.** The passes over the raster interpolate by the kernel, from samples that
are limited to the ceiling. -/
theorem alongEdges_eq {m : Mosaic} {r : Raster} (hw : r.width = m.width) (hh : r.height = m.height) (t : Tile) :
    r.alongEdges m t = r.fromCentres 3 .edgeSense (m.limit r.ceiling) t := by
  refine eq_of_get ((sameShape_alongEdges m t r).trans (sameShape_fromCentres 3 _ _ t r).symm) ?_
  intro x y c _ _
  have hscatter := sameShape_scatter m t r
  have hgreen := (sameShape_fillGreen t _).trans hscatter
  have hcolours := (sameShape_fillColour t .blue _).trans ((sameShape_fillColour t .red _).trans hgreen)
  have hmax (x y : Nat) (dx dy : Int) : (m.limit r.ceiling).window x y dx dy ≤ r.ceiling :=
    window_limit_le m r.ceiling x y dx dy
  have hfilled : GreenFilled (m.limit r.ceiling) t (fillGreen t (scatter m t r)) :=
    greenFilled_fillGreen (samples_scatter hw hh) (by rw [hscatter.ceiling]; exact hmax)
  have hout : InFrame 3 r.width r.height x y ↔ ¬(Region.inside 3 r.width r.height).Contains x y := by
    rw [← not_inFrame_iff, Decidable.not_not]
  rw [get_fromCentres (m := m.limit r.ceiling) hw hh, alongEdges, get_clearBorders, hcolours.width, hcolours.height]
  have hregion : Region.inside 3 (m.limit r.ceiling).width (m.limit r.ceiling).height =
      Region.inside 3 r.width r.height := by rw [hw, hh]; rfl
  rw [hregion]
  by_cases hin : (Region.inside 3 r.width r.height).Contains x y
  · rw [if_neg fun h => hout.mp h hin, if_pos hin]
    rw [get_fillColours_eq hfilled (by rw [hgreen.ceiling]; exact hmax) (by rw [hgreen.width, hgreen.height]; exact hin),
      hgreen.ceiling]
  · rw [if_pos (hout.mpr hin), if_neg hin]

end Raster

end Imaging
