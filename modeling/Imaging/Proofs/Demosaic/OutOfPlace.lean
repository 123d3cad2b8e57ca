/-
Edge-sensing from a plane of green. The method fills one raster in four passes, and each pass reads what the others have
left there. The image can be told without the raster: green has a value at every site, which the limited samples around
the site decide (`greenPlane`), and red or blue at a pixel is green and the mean of what the neighbours of that colour
stand above green. `decode_outOfPlace` says that the requests leave exactly that, three pixels inside the image, and zero
in the pixels around.

The passes are behind `Raster.alongEdges_eq` already, which gives each pixel by a kernel over one window. Left is that
the kernel's windows of windows are one plane (`edgeGreen_window`, `edgeDifference_window`), and that the offsets it
takes are those of the neighbours of a colour (`meanDifference?_eq_neighbours`).
-/
import Imaging.Proofs.Demosaic.Depth
import Imaging.Proofs.Demosaic.Rows

namespace Imaging

namespace EdgeSense

/-- green at every site: sampled, or the mean of its neighbours along the direction in which the samples of the site's
own colour bend less, all divisions rounding down -/
def greenPlane (t : Tile) (m : Nat → Nat → Int) (x y : Nat) : Int :=
  let dh := ((m (x - 2) y + m (x + 2) y) / 2 - m x y).natAbs
  let dv := ((m x (y - 2) + m x (y + 2)) / 2 - m x y).natAbs
  if t.colourAt x y = .green then m x y
  else if dh < dv then (m (x - 1) y + m (x + 1) y) / 2
  else if dv < dh then (m x (y - 1) + m x (y + 1)) / 2
  else (m (x - 1) y + m (x + 1) y + m x (y - 1) + m x (y + 1)) / 4

theorem greenPlane_of_green {t : Tile} {m : Nat → Nat → Int} {x y : Nat} (h : t.colourAt x y = .green) :
    greenPlane t m x y = m x y := if_pos h

/-- the plane stays between the bounds of the samples -/
theorem greenPlane_mem {t : Tile} {m : Nat → Nat → Int} {ceiling x y : Nat} (h : ∀ x y, 0 ≤ m x y ∧ m x y ≤ ceiling) :
    0 ≤ greenPlane t m x y ∧ greenPlane t m x y ≤ ceiling := by
  have h₀ := h x y
  have hl := h (x - 1) y
  have hr := h (x + 1) y
  have hu := h x (y - 1)
  have hd := h x (y + 1)
  unfold greenPlane
  dsimp only
  split
  · exact h₀
  · split
    · omega
    · split
      · omega
      · omega

open Kernel

variable {l : Mosaic} {t : Tile} {x y : Nat}

/-- the plane is green as the kernel estimates it from one window -/
theorem edgeGreen_window (hx : 2 ≤ x) (hy : 2 ≤ y) (hne : t.colourAt x y ≠ .green) :
    edgeGreen (l.window x y) = greenPlane t (fun x y => l.get x y) x y := by
  have h₀ : l.window x y 0 0 = l.get x y := l.window_eq_get (by omega) (by omega)
  have hl₂ : l.window x y (-2) 0 = l.get (x - 2) y := l.window_eq_get (by omega) (by omega)
  have hr₂ : l.window x y 2 0 = l.get (x + 2) y := l.window_eq_get (by omega) (by omega)
  have hu₂ : l.window x y 0 (-2) = l.get x (y - 2) := l.window_eq_get (by omega) (by omega)
  have hd₂ : l.window x y 0 2 = l.get x (y + 2) := l.window_eq_get (by omega) (by omega)
  obtain ⟨hl, hr, hu, hd⟩ := l.window_beside (x := x) (y := y) (by omega) (by omega)
  simp only [edgeGreen, greenEstimate, greenAlong, secondDifferenceAlongRow, secondDifferenceAlongColumn, meanOfTwo,
    meanOfFour, h₀, hl₂, hr₂, hu₂, hd₂, hl, hr, hu, hd, greenPlane, if_neg hne]

/-- what a neighbour of another colour than green stands above it -/
theorem edgeDifference_window {a b : Nat} {dx dy : Int} (ha : (a : Int) = x + dx) (hb : (b : Int) = y + dy) (ha₂ : 2 ≤ a)
    (hb₂ : 2 ≤ b) (hne : t.colourAt a b ≠ .green) :
    edgeDifference (l.window x y) dx dy = l.get a b - greenPlane t (fun x y => l.get x y) a b := by
  rw [edgeDifference, ← window_moved l ha hb, l.window_eq_get ha hb, edgeGreen_window ha₂ hb₂ hne]

/-- the mean difference is a mean over the neighbours that carry the colour -/
theorem meanDifference?_eq_neighbours (hx : 1 ≤ x) (hy : 1 ≤ y) {c : Channel} (hc : c ≠ .green)
    (hne : t.colourAt x y ≠ c) {d : Window Int} {e : Nat × Nat → Int}
    (h : ∀ (dx dy : Int) (n : Nat × Nat), (n.1 : Int) = x + dx → (n.2 : Int) = y + dy → n ∈ t.neighbours c x y →
      d dx dy = e n) :
    meanDifference? (Phase.atRow t y) c x d =
      some (((t.neighbours c x y).map e).sum / (t.neighbours c x y).length) := by
  have hnear := Tile.neighbours_eq hx hy hc hne
  by_cases hg : t.colourAt x y = .green
  · have hp := (Phase.isGreen_atRow t x y).mpr hg
    rw [(Phase.colourAt_square_of_green hg).1, if_pos hg] at hnear
    rw [meanDifference?, if_pos hp]
    by_cases hr : (Phase.atRow t y).rowChannel = c
    · rw [if_pos hr] at hnear ⊢
      rw [h (-1) 0 (x - 1, y) (by omega) (by omega) (by simp [hnear]),
        h 1 0 (x + 1, y) (by omega) (by omega) (by simp [hnear]), hnear]
      simp [meanOfTwo]
    · rw [if_neg hr] at hnear ⊢
      rw [h 0 (-1) (x, y - 1) (by omega) (by omega) (by simp [hnear]),
        h 0 1 (x, y + 1) (by omega) (by omega) (by simp [hnear]), hnear]
      simp [meanOfTwo]
  · have hp : ¬(Phase.atRow t y).isGreen x = true := fun h' => hg ((Phase.isGreen_atRow t x y).mp h')
    have hr : (Phase.atRow t y).rowChannel ≠ c := (Phase.colourAt_square_of_ne hg).1 ▸ hne
    rw [if_neg hg] at hnear
    rw [meanDifference?, if_neg hp, if_neg hr, h (-1) (-1) (x - 1, y - 1) (by omega) (by omega) (by simp [hnear]),
      h 1 (-1) (x + 1, y - 1) (by omega) (by omega) (by simp [hnear]),
      h (-1) 1 (x - 1, y + 1) (by omega) (by omega) (by simp [hnear]),
      h 1 1 (x + 1, y + 1) (by omega) (by omega) (by simp [hnear]), hnear]
    simp [meanOfFour, Int.add_assoc]

/-! ## The colours of the kernel -/

theorem colour_sample : Kernel.edgeSense.colour t x y (l.window x y) (t.colourAt x y) = l.get x y := by
  rw [colour_own]
  exact l.window_eq_get (by omega) (by omega)

theorem colour_greenPlane (hx : 2 ≤ x) (hy : 2 ≤ y) :
    Kernel.edgeSense.colour t x y (l.window x y) .green = greenPlane t (fun x y => l.get x y) x y := by
  by_cases hg : t.colourAt x y = .green
  · rw [← hg, colour_sample, greenPlane_of_green hg]
  · rw [colour_green hg, edgeGreen_window hx hy hg]

/-- **Red or blue, where it was not sampled,** is green and the mean of what the neighbours of that colour stand above
green. -/
theorem colour_neighbours (hx : 3 ≤ x) (hy : 3 ≤ y) {c : Channel} (hc : c ≠ .green) (hne : t.colourAt x y ≠ c) :
    Kernel.edgeSense.colour t x y (l.window x y) c =
      greenPlane t (fun x y => l.get x y) x y +
        ((t.neighbours c x y).map fun n => l.get n.1 n.2 - greenPlane t (fun x y => l.get x y) n.1 n.2).sum /
          (t.neighbours c x y).length := by
  rw [colour_other hc hne, colour_greenPlane (by omega) (by omega),
    meanDifference?_eq_neighbours (by omega) (by omega) hc hne, Option.getD_some]
  -- a neighbour of a site three pixels inside lies two pixels inside, where its own window is whole
  intro dx dy n ha hb hn
  obtain ⟨hcol, hleft, hup⟩ := Tile.mem_neighbours hn
  exact edgeDifference_window ha hb (by omega) (by omega) (hcol ▸ hc)

end EdgeSense

/-- **Edge-sensing from a plane of green.** A run is four passes over one raster, the first of which hands the phase on from
row to row. Three pixels inside the image a site keeps its limited sample in its own channel and green of the plane in
the green one. Red or blue, where it is not the site's own, is green and the mean difference to green over the
neighbours of that colour, clamped: the two beside a green site, or above and below it, and the four at the corners of a
site of the other colour. All other pixels are black. -/
theorem decode_outOfPlace {α : Type} (d : Depth α) (t : Tile) {w h : Nat} {src dst : Array α}
    (hfit : Fits .edgeSense w h src dst) :
    let out := d.decode t .edgeSense w h src dst
    let m (x y : Nat) : Int := min ((d.mosaic w h src hfit.src_size).get x y) d.ceiling
    let green := EdgeSense.greenPlane t m
    (∀ (l : Mosaic) (r : Raster), Method.edgeSense.run l t r =
        (EdgeSense.fillColour t .blue
          (EdgeSense.fillColour t .red (EdgeSense.fillGreen t (EdgeSense.scatterByRows l t r)))).clearBorders 3) ∧
      out.result = .ok () ∧
      ∀ x y c, x < w → y < h → ∃ v, channelAt? w out.dst x y c = some v ∧
        if (Region.inside 3 w h).Contains x y then
          (t.colourAt x y = c → d.toNat v = m x y) ∧
            (c = .green → d.toNat v = green x y) ∧
            (t.colourAt x y ≠ c → c ≠ .green →
              let near := t.neighbours c x y
              near = (if t.colourAt x y = .green then
                  if t.colourAt (x + 1) y = c then [(x - 1, y), (x + 1, y)] else [(x, y - 1), (x, y + 1)]
                else [(x - 1, y - 1), (x + 1, y - 1), (x - 1, y + 1), (x + 1, y + 1)]) ∧
                d.toNat v = clamp (green x y + (near.map fun n => m n.1 n.2 - green n.1 n.2).sum / near.length) d.ceiling)
        else d.toNat v = 0 := by
  intro out m green
  -- the mosaic that the passes work on is the plane of the limited samples
  let l := (d.mosaic w h src hfit.src_size).limit d.ceiling
  have hm (x y : Nat) : (l.get x y : Int) = m x y := by
    simp only [l, Mosaic.get_limit, m]
    omega
  have hmem (x y : Nat) : 0 ≤ m x y ∧ m x y ≤ d.ceiling := by
    simp only [m]
    omega
  refine ⟨fun l r => r.alongEdges_eq_byRows l t, (d.result_eq_ok_iff t .edgeSense w h src dst).mpr hfit, ?_⟩
  intro x y c hx hy
  obtain ⟨v, hv, hvalue⟩ := d.exists_channelAt?_decode (by decide) hfit t hx hy c
  refine ⟨v, hv, ?_⟩
  rw [hvalue, Method.interior, Method.kernel, Method.source]
  by_cases hin : (Region.inside 3 w h).Contains x y
  · have hx₃ : 3 ≤ x := hin.1.1
    have hy₃ : 3 ≤ y := hin.2.1
    rw [if_pos hin, if_pos hin]
    refine ⟨fun hown => ?_, fun hc => ?_, fun hne hc => ⟨?_, ?_⟩⟩
    -- samples and green are within the ceiling, where clamping changes nothing
    · rw [← hown, EdgeSense.colour_sample, hm, clamp_of_mem (hmem x y).1 (hmem x y).2]
    · have hgreen := EdgeSense.greenPlane_mem (t := t) (x := x) (y := y) hmem
      have hcolour := EdgeSense.colour_greenPlane (l := l) (t := t) (Nat.le_of_succ_le hx₃) (Nat.le_of_succ_le hy₃)
      simp only [hm] at hcolour
      rw [hc, hcolour, clamp_of_mem hgreen.1 hgreen.2]
    · exact Tile.neighbours_eq (by omega) (by omega) hc hne
    · have hcolour := EdgeSense.colour_neighbours (l := l) hx₃ hy₃ hc hne
      simp only [hm] at hcolour
      rw [hcolour]
  · rw [if_neg hin, if_neg hin]

/-- a dark half beside a bright one, with one red sample above the ceiling on the edge: the sample is limited, green
there is taken along the edge, and what the limited sample stands above green lifts red by half at the green site above
and by a quarter at the blue site -/
theorem decode_outOfPlace_edge :
    let src : Array UInt16 := tabulate 8 8 fun x y => if x = 4 ∧ y = 4 then 900 else if x < 4 then 40 else 200;
    let image := (decode16 .rggb .edgeSense 8 8 8 src (.replicate 192 7)).dst;
    (∃ v, channelAt? 8 image 4 4 .red = some v ∧ v.toNat = 255) ∧
      (∃ v, channelAt? 8 image 4 4 .green = some v ∧ v.toNat = 200) ∧
      (∃ v, channelAt? 8 image 4 3 .red = some v ∧ v.toNat = 227) ∧
      (∃ v, channelAt? 8 image 3 3 .red = some v ∧ v.toNat = 53) ∧
      ∃ v, channelAt? 8 image 2 4 .red = some v ∧ v.toNat = 0 := by
  obtain ⟨_, _, hpixels⟩ := decode_outOfPlace (.word 8 (by decide)) .rggb
    (show Fits .edgeSense 8 8 (tabulate 8 8 fun x y => if x = 4 ∧ y = 4 then 900 else if x < 4 then 40 else 200)
      (.replicate 192 7) by decide +kernel)
  refine ⟨?_, ?_, ?_, ?_, ?_⟩
  · obtain ⟨v, hv, hvalue⟩ := hpixels 4 4 .red (by decide) (by decide)
    rw [if_pos (by decide)] at hvalue
    exact ⟨v, hv, Int.ofNat_inj.mp ((hvalue.1 rfl).trans (by decide +kernel))⟩
  · obtain ⟨v, hv, hvalue⟩ := hpixels 4 4 .green (by decide) (by decide)
    rw [if_pos (by decide)] at hvalue
    exact ⟨v, hv, Int.ofNat_inj.mp ((hvalue.2.1 rfl).trans (by decide +kernel))⟩
  · obtain ⟨v, hv, hvalue⟩ := hpixels 4 3 .red (by decide) (by decide)
    rw [if_pos (by decide)] at hvalue
    exact ⟨v, hv, (hvalue.2.2 (by decide) (by decide)).2.trans (by decide +kernel)⟩
  · obtain ⟨v, hv, hvalue⟩ := hpixels 3 3 .red (by decide) (by decide)
    rw [if_pos (by decide)] at hvalue
    exact ⟨v, hv, (hvalue.2.2 (by decide) (by decide)).2.trans (by decide +kernel)⟩
  · obtain ⟨v, hv, hvalue⟩ := hpixels 2 4 .red (by decide) (by decide)
    rw [if_neg (by decide)] at hvalue
    exact ⟨v, hv, hvalue⟩

end Imaging
