/-
Demosaicing behind the partner of a filter, in which red and blue have changed places. A kernel speaks of the colour of
the row and the colour of the column and never of red or blue, so it estimates the same values and they are stored the
other way round. Edge-sensing is no exception, though its red pass always comes before its blue pass: neither reads what
the other stores (`EdgeSense.get_fillColours`), so it interpolates by a kernel too.
- `Method.pixel_exchange`: pixel by pixel, for every method;
- `decode_exchange`: for the requests, at every depth.
-/
import Imaging.Proofs.Demosaic.Depth
import Imaging.Proofs.Filter.Symmetry

namespace Imaging

/-- an estimate stands the same way in a row and in its partner, red and blue apart -/
theorem Estimate.channel_exchange {α : Type} (e : Estimate α) (p : Phase) (c : Channel) :
    e.channel p.exchange c.exchange = e.channel p c := by
  rcases p with ⟨blue, startsGreen⟩
  cases blue <;> cases c <;> rfl

/-- what a kernel makes of the samples around a site does not depend on which of the two colours is red -/
theorem Kernel.colour_exchange {α : Type} (k : Kernel α) (t : Tile) (x y : Nat) (s : Window α) (c : Channel) :
    k.colour t.exchange x y s c.exchange = k.colour t x y s c := by
  rw [colour, colour, Phase.atRow_exchange, Estimate.channel_exchange, estimate, estimate, Phase.isGreen_exchange]

/-- **Pixels behind the partner filter** have red and blue exchanged. -/
theorem Method.pixel_exchange (k : Method) (m : Mosaic) (t : Tile) (ceiling x y : Nat) (c : Channel) :
    k.pixel m t.exchange ceiling x y c.exchange = k.pixel m t ceiling x y c := by
  rw [pixel, pixel, estimate, estimate, Kernel.colour_exchange]

/-- **Exchange of red and blue.** The image of a mosaic behind the partner of its filter is the image behind the filter
with red and blue exchanged in every pixel. -/
theorem decode_exchange {α : Type} (d : Depth α) (t : Tile) (k : Method) (w h : Nat) (src dst dst' : Array α)
    (hfit : Fits k w h src dst) (hdst' : dst'.size = dst.size) :
    (d.decode t k w h src dst).result = .ok () ∧ (d.decode t.exchange k w h src dst').result = .ok () ∧
      let W := (k.outputSize w h).1
      let H := (k.outputSize w h).2
      ∀ x y c, x < W → y < H → ∃ v,
        channelAt? W (d.decode t.exchange k w h src dst').dst x y c.exchange = some v ∧
          channelAt? W (d.decode t k w h src dst).dst x y c = some v := by
  have hfit' : Fits k w h src dst' :=
    ⟨hfit.tiles, hfit.src_size, hdst'.trans hfit.dst_size, hfit.src_lt, hdst' ▸ hfit.dst_lt⟩
  refine ⟨(d.result_eq_ok_iff t k w h src dst).mpr hfit, (d.result_eq_ok_iff _ k w h src dst').mpr hfit', ?_⟩
  intro W H x y c hx hy
  have hpartner := d.channelAt?_decode hfit' t.exchange hx hy c.exchange
  rw [k.pixel_exchange] at hpartner
  exact ⟨_, hpartner, d.channelAt?_decode hfit t hx hy c⟩

/-- a ramp of bytes rebuilt along edges, and a ramp of 12-bit samples from the nearest neighbours -/
theorem decode_exchange_ramp :
    (let ramp : Array UInt8 := .ofFn fun n : Fin 80 => .ofNat (3 * n)
      ∀ x y c, x < 10 → y < 8 → ∃ v,
        channelAt? 10 (decode8 .bggr .edgeSense 10 8 ramp (.replicate 240 7)).dst x y (Channel.exchange c) = some v ∧
          channelAt? 10 (decode8 .rggb .edgeSense 10 8 ramp (.replicate 240 9)).dst x y c = some v) ∧
      (let ramp : Array UInt16 := .ofFn fun n : Fin 24 => .ofNat (100 * n)
        ∀ x y c, x < 6 → y < 4 → ∃ v,
          channelAt? 6 (decode16 .grbg .nearest 6 4 12 ramp (.replicate 72 7)).dst x y (Channel.exchange c) = some v ∧
            channelAt? 6 (decode16 .gbrg .nearest 6 4 12 ramp (.replicate 72 9)).dst x y c = some v) := by
  refine ⟨?_, ?_⟩
  · intro ramp
    exact (decode_exchange .byte .rggb .edgeSense 10 8 ramp (.replicate 240 9) (.replicate 240 7) (by decide +kernel)
      (by decide +kernel)).2.2
  · intro ramp
    exact (decode_exchange (.word 12 (by decide)) .gbrg .nearest 6 4 ramp (.replicate 72 9) (.replicate 72 7)
      (by decide +kernel) (by decide +kernel)).2.2

end Imaging
