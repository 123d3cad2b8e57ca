/-
Reduction by tiles, next to the methods of the full size. A tile is the square that its upper left site opens, so the
pixel of a tile is made of the samples that the nearest and the simple method read at that site.
- `pixel_downsample`: reduction adds up the samples of each colour and halves green, rounding down;
- `pixel_at_corner`, `pixel_simple_at_corner`: both methods give the corner of a tile the red and blue of its pixel; the
  simple method rounds green up and so stands at most one above it;
- `decode_tiles`: the same of the images that requests leave.
-/
import Imaging.Proofs.Demosaic.Windows

namespace Imaging

theorem Mosaic.tileSum_eq_sum (m : Mosaic) (t : Tile) (x y : Nat) (c : Channel) :
    m.tileSum t x y c = ((m.samplesOf t (.tile x y) c).sum : Nat) := by
  rw [tileSum, samplesOf]
  induction (Region.tile x y).sites.filter fun site => t.colourAt site.1 site.2 = c with
  | nil => rfl
  | cons site sites ih => rw [List.foldr_cons, ih, List.map_cons, List.sum_cons, Nat.cast_add]

theorem Region.contains_corner {w h x y : Nat} (hx : x < w / 2) (hy : y < h / 2) :
    (corners w h).Contains (2 * x) (2 * y) := by
  simp only [Contains, corners]
  omega

namespace Method

variable {m : Mosaic} {x y : Nat}

/-- **The pixel of a tile** -/
theorem pixel_downsample (hx : x < m.width / 2) (hy : y < m.height / 2) (t : Tile) (ceiling : Nat) (c : Channel) :
    downsample.pixel m t ceiling x y c =
      min (if c = .green then (m.samplesOf t (.tile x y) c).sum / 2 else (m.samplesOf t (.tile x y) c).sum)
        ceiling := by
  have hin : (downsample.interior m.width m.height).Contains x y := ⟨⟨Nat.zero_le x, hx⟩, Nat.zero_le y, hy⟩
  rw [pixel, if_pos hin]
  change clamp (Kernel.tilewise.colour t (2 * x) (2 * y) (m.window (2 * x) (2 * y)) c) ceiling = _
  rw [Kernel.colour_tilewise, m.tileSum_eq_sum, m.tileSum_eq_sum]
  by_cases hc : c = .green
  · subst hc
    rw [if_pos rfl, if_pos rfl]
    exact clamp_natCast ((m.samplesOf t (.tile x y) .green).sum / 2) ceiling
  · rw [if_neg hc, if_neg hc, clamp_natCast]

theorem pixel_at_corner (hx : x < m.width / 2) (hy : y < m.height / 2) {k : Method} (hk : k = nearest ∨ k = simple)
    (t : Tile) (ceiling : Nat) {c : Channel} (hc : c ≠ .green) :
    k.pixel m t ceiling (2 * x) (2 * y) c = downsample.pixel m t ceiling x y c := by
  obtain ⟨a, ha⟩ := m.samplesOf_square_of_ne_green t (2 * x) (2 * y) hc
  -- the tile is that square
  have hone : m.samplesOf t (.tile x y) c = [a] := ha
  obtain ⟨hnearest, hsimple⟩ := pixels_of_samplesOf ceiling hc (Region.contains_corner hx hy) ha
  rw [pixel_downsample hx hy, if_neg hc, hone, List.sum_singleton]
  rcases hk with rfl | rfl
  · exact hnearest
  · exact hsimple

/-- green is the mean of the tile's two green samples; the simple method rounds it up -/
theorem pixel_simple_at_corner (hx : x < m.width / 2) (hy : y < m.height / 2) (t : Tile) (ceiling : Nat) :
    ∃ g₀ g₁, m.samplesOf t (.tile x y) .green = [g₀, g₁] ∧
      downsample.pixel m t ceiling x y .green = min ((g₀ + g₁) / 2) ceiling ∧
      simple.pixel m t ceiling (2 * x) (2 * y) .green = min ((g₀ + g₁ + 1) / 2) ceiling := by
  obtain ⟨g₀, g₁, hg⟩ := m.samplesOf_square_green t (2 * x) (2 * y)
  have htwo : m.samplesOf t (.tile x y) .green = [g₀, g₁] := hg
  refine ⟨g₀, g₁, htwo, ?_, ?_⟩
  · rw [pixel_downsample hx hy, if_pos rfl, htwo, List.sum_cons, List.sum_singleton]
  · rw [pixel_of_contains simple (by decide) m t ceiling (Region.contains_corner hx hy), kernel,
      Kernel.colour_simple, hg, meanUp_pair, clamp_natCast]

end Method

/-- **Reduction agrees with the full size at the corners of the tiles.** A request that fits succeeds with an image half
as wide and half as high. Green of the pixel of a tile is the mean of the tile's two green samples, rounded down and cut
at the ceiling. Wherever the nearest or the simple method gives the mosaic a full image, its pixel at the corner of the
tile has the same red and the same blue, and green of the simple method is the same or one above. -/
theorem decode_tiles {α : Type} (d : Depth α) (t : Tile) {w h : Nat} {src small : Array α}
    (hfit : Fits .downsample w h src small) :
    let out := d.decode t .downsample w h src small
    let m := d.mosaic w h src hfit.src_size
    (out.result = .ok () ∧ out.dst.size = 3 * (w / 2 * (h / 2))) ∧
      ∀ x y, x < w / 2 → y < h / 2 → ∃ pixel : Channel → α,
        (∀ c, channelAt? (w / 2) out.dst x y c = some (pixel c)) ∧
          (∃ g₀ g₁, m.samplesOf t (.tile x y) .green = [g₀, g₁] ∧
            d.toNat (pixel .green) = min ((g₀ + g₁) / 2) d.ceiling) ∧
          ∀ k full, k = .nearest ∨ k = .simple → Fits k w h src full →
            let whole := d.decode t k w h src full
            whole.result = .ok () ∧ (∀ c ≠ .green, channelAt? w whole.dst (2 * x) (2 * y) c = some (pixel c)) ∧
              (k = .simple → ∃ v, channelAt? w whole.dst (2 * x) (2 * y) .green = some v ∧
                (d.toNat v = d.toNat (pixel .green) ∨ d.toNat v = d.toNat (pixel .green) + 1)) := by
  intro out m
  refine ⟨⟨(d.result_eq_ok_iff t .downsample w h src small).mpr hfit, ?_⟩, fun x y hx hy => ?_⟩
  · have hout : out.dst = d.rebuild .downsample t m := congrArg Outcome.dst (d.decode_of_fits t hfit)
    rw [hout]
    exact d.size_rebuild .downsample t m
  obtain ⟨pixel, hat, hpixel⟩ := d.exists_pixel_decode hfit t hx hy
  obtain ⟨g₀, g₁, hg, hdown, hup⟩ := Method.pixel_simple_at_corner (m := m) hx hy t d.ceiling
  have hgreen : d.toNat (pixel .green) = min ((g₀ + g₁) / 2) d.ceiling := (congrFun hpixel .green).trans hdown
  refine ⟨pixel, hat, ⟨g₀, g₁, hg, hgreen⟩, fun k full hk hfull => ?_⟩
  intro whole
  have hsize : k.outputSize w h = (w, h) := Method.outputSize_of_ne (by rcases hk with rfl | rfl <;> decide) w h
  obtain ⟨corner, hcorner, hcolour⟩ := d.exists_pixel_decode hfull t (x := 2 * x) (y := 2 * y)
    (by rw [hsize]; omega) (by rw [hsize]; omega)
  rw [hsize] at hcorner
  refine ⟨(d.result_eq_ok_iff t k w h src full).mpr hfull, fun c hc => ?_, fun hsimple => ?_⟩
  · have hsame : d.toNat (corner c) = d.toNat (pixel c) := by
      calc d.toNat (corner c) = k.pixel m t d.ceiling (2 * x) (2 * y) c := congrFun hcolour c
        _ = Method.downsample.pixel m t d.ceiling x y c := Method.pixel_at_corner hx hy hk t d.ceiling hc
        _ = d.toNat (pixel c) := (congrFun hpixel c).symm
    rw [hcorner c, d.toNat_injective hsame]
  · subst hsimple
    refine ⟨corner .green, hcorner .green, ?_⟩
    have hrounded : d.toNat (corner .green) = min ((g₀ + g₁ + 1) / 2) d.ceiling := (congrFun hcolour .green).trans hup
    -- both means are cut at one ceiling, which can only bring them together
    omega

/-- two tiles of twelve bits: in the first the simple method rounds green up, in the second the ceiling hides that -/
theorem decode_tiles_bright :
    let samples : Array UInt16 := #[4000, 1001, 9000, 4094, 1002, 5000, 4097, 20]
    let reduced := (decode16 .rggb .downsample 4 2 12 samples (.replicate 6 7)).dst
    let nearest := (decode16 .rggb .nearest 4 2 12 samples (.replicate 24 7)).dst
    let simple := (decode16 .rggb .simple 4 2 12 samples (.replicate 24 9)).dst
    (∃ pixel : Channel → UInt16, (∀ c, channelAt? 2 reduced 0 0 c = some (pixel c)) ∧ (pixel .green).toNat = 1001 ∧
        (∀ c ≠ .green, channelAt? 4 nearest 0 0 c = some (pixel c) ∧ channelAt? 4 simple 0 0 c = some (pixel c)) ∧
        ∃ v, channelAt? 4 simple 0 0 .green = some v ∧ (v.toNat = 1001 ∨ v.toNat = 1002)) ∧
      ∃ pixel : Channel → UInt16, (∀ c, channelAt? 2 reduced 1 0 c = some (pixel c)) ∧ (pixel .green).toNat = 4095 ∧
        ∀ c ≠ .green, channelAt? 4 nearest 2 0 c = some (pixel c) ∧ channelAt? 4 simple 2 0 c = some (pixel c) := by
  intro samples reduced nearest simple
  have hnearest : Fits .nearest 4 2 samples (.replicate 24 7) := by decide +kernel
  have hsimple : Fits .simple 4 2 samples (.replicate 24 9) := by decide +kernel
  obtain ⟨_, htiles⟩ := decode_tiles (.word 12 (by decide)) .rggb
    (show Fits .downsample 4 2 samples (.replicate 6 7) by decide +kernel)
  refine ⟨?_, ?_⟩
  · obtain ⟨pixel, hat, ⟨g₀, g₁, hg, hgreen⟩, hfull⟩ := htiles 0 0 (by decide) (by decide)
    cases hg.symm.trans (show _ = [1001, 1002] by decide +kernel)
    obtain ⟨_, hcopied, _⟩ := hfull .nearest _ (.inl rfl) hnearest
    obtain ⟨_, hread, hrounded⟩ := hfull .simple _ (.inr rfl) hsimple
    have hmean : (pixel .green).toNat = 1001 := hgreen
    obtain ⟨v, hv, hvalue⟩ := hrounded rfl
    have hstep : v.toNat = 1001 ∨ v.toNat = 1001 + 1 := hmean ▸ hvalue
    exact ⟨pixel, hat, hmean, fun c hc => ⟨hcopied c hc, hread c hc⟩, v, hv, hstep⟩
  · obtain ⟨pixel, hat, ⟨g₀, g₁, hg, hgreen⟩, hfull⟩ := htiles 1 0 (by decide) (by decide)
    cases hg.symm.trans (show _ = [4094, 4097] by decide +kernel)
    obtain ⟨_, hcopied, _⟩ := hfull .nearest _ (.inl rfl) hnearest
    obtain ⟨_, hread, _⟩ := hfull .simple _ (.inr rfl) hsimple
    exact ⟨pixel, hat, hgreen, fun c hc => ⟨hcopied c hc, hread c hc⟩⟩

end Imaging
