/-
The ceiling of a depth. No estimate depends on it: where the samples themselves are within the ceiling, it acts on what
is stored and nowhere before (`Method.pixel_eq_min`). This holds of the edge-sensing passes too, which read back what
they have stored, since `alongEdges_eq` has removed the raster between them.
- `decode_ceiling`: lowering the depth lowers the stored values to the new ceiling, and bytes are samples of depth 8.
-/
import Imaging.Proofs.Demosaic.Depth

namespace Imaging

theorem clamp_eq_min (v : Int) {c₁ c₂ : Nat} (h : c₁ ≤ c₂) : clamp v c₁ = min (clamp v c₂) c₁ := by
  unfold clamp
  omega

namespace Method

variable {m : Mosaic} {c₁ c₂ : Nat}

theorem estimate_eq_estimate (k : Method) (h : ∀ v ∈ m.samples, v ≤ c₁) (hc : c₁ ≤ c₂) (t : Tile) (x y : Nat)
    (c : Channel) : k.estimate m t c₁ x y c = k.estimate m t c₂ x y c := by
  have h₂ : ∀ v ∈ m.samples, v ≤ c₂ := fun v hv => Nat.le_trans (h v hv) hc
  rw [estimate, estimate, k.source_of_le h, k.source_of_le h₂]

/-- **Two ceilings.** A pixel under the lower one is the pixel under the higher one, lowered. -/
theorem pixel_eq_min (k : Method) (h : ∀ v ∈ m.samples, v ≤ c₁) (hc : c₁ ≤ c₂) (t : Tile) (x y : Nat) (c : Channel) :
    k.pixel m t c₁ x y c = min (k.pixel m t c₂ x y c) c₁ := by
  rw [pixel, pixel]
  split
  · rw [k.estimate_eq_estimate h hc, clamp_eq_min _ hc]
  · rw [Nat.zero_min]

end Method

namespace Depth

variable {α β : Type} {k : Method} {w h : Nat}

/-- requests at two depths, on buffers that hold the same samples -/
theorem decode_eq_min (d₁ : Depth α) (d₂ : Depth β) (hc : d₁.ceiling ≤ d₂.ceiling) (t : Tile) {src₁ dst₁ : Array α}
    {src₂ dst₂ : Array β} (hfit₁ : Fits k w h src₁ dst₁) (hfit₂ : Fits k w h src₂ dst₂)
    (hsrc : src₁.map d₁.toNat = src₂.map d₂.toNat) (hle : ∀ v ∈ src₁, d₁.toNat v ≤ d₁.ceiling) :
    (d₁.decode t k w h src₁ dst₁).dst.map d₁.toNat =
      (d₂.decode t k w h src₂ dst₂).dst.map fun v => min (d₂.toNat v) d₁.ceiling := by
  rw [d₁.decode_of_fits t hfit₁, d₂.decode_of_fits t hfit₂]
  have hm : d₂.mosaic w h src₂ hfit₂.src_size = d₁.mosaic w h src₁ hfit₁.src_size := by
    rw [mosaic, mosaic]
    congr 1
    exact hsrc.symm
  rw [hm]
  have hsamples : ∀ v ∈ (d₁.mosaic w h src₁ hfit₁.src_size).samples, v ≤ d₁.ceiling := by
    intro v hv
    obtain ⟨a, ha, rfl⟩ := Array.mem_map.mp hv
    exact hle a ha
  generalize d₁.mosaic w h src₁ hfit₁.src_size = m at hsamples
  obtain ⟨r₁, ⟨hw₁, hh₁⟩, hdata₁, hget₁⟩ := d₁.exists_raster k t m
  obtain ⟨r₂, ⟨hw₂, hh₂⟩, hdata₂, hget₂⟩ := d₂.exists_raster k t m
  rw [Outcome.written, Outcome.written, hdata₁, hdata₂, Array.map_map, Array.map_map]
  refine Raster.map_data_eq (hw₁.trans hw₂.symm) (hh₁.trans hh₂.symm) fun x y c => ?_
  rw [hget₁, hget₂, Function.comp_apply, Function.comp_apply, d₁.toNat_ofNat (k.pixel_le m t _ x y c),
    d₂.toNat_ofNat (k.pixel_le m t _ x y c), k.pixel_eq_min hsamples hc]

end Depth

/-- **The ceiling acts on the final value.** Samples within the ceiling of a depth, demosaiced at that depth, give the
values of any greater depth, lowered to the ceiling; and bytes give what they give as 16-bit samples of depth 8. -/
theorem decode_ceiling (t : Tile) (k : Method) (w h : Nat) :
    (∀ (b₁ b₂ : Nat) (src dst₁ dst₂ : Array UInt16), 8 ≤ b₁ → b₁ ≤ b₂ → b₂ ≤ 16 →
      Fits k w h src dst₁ → Fits k w h src dst₂ → (∀ v ∈ src, v.toNat ≤ ceiling b₁) →
        (decode16 t k w h b₁ src dst₁).result = .ok () ∧ (decode16 t k w h b₂ src dst₂).result = .ok () ∧
          (decode16 t k w h b₁ src dst₁).dst.map UInt16.toNat =
            (decode16 t k w h b₂ src dst₂).dst.map fun v => min v.toNat (ceiling b₁)) ∧
    (∀ (src dst₁ : Array UInt8) (dst₂ : Array UInt16), Fits k w h src dst₁ →
      Fits k w h (src.map UInt8.toUInt16) dst₂ →
        (decode8 t k w h src dst₁).result = .ok () ∧
          (decode16 t k w h 8 (src.map UInt8.toUInt16) dst₂).result = .ok () ∧
          (decode8 t k w h src dst₁).dst.map UInt8.toUInt16 =
            (decode16 t k w h 8 (src.map UInt8.toUInt16) dst₂).dst) := by
  refine ⟨?_, ?_⟩
  · intro b₁ b₂ src dst₁ dst₂ h₁ h₁₂ h₂ hfit₁ hfit₂ hle
    let d₁ : Depth UInt16 := .word b₁ ⟨h₁, Nat.le_trans h₁₂ h₂⟩
    let d₂ : Depth UInt16 := .word b₂ ⟨Nat.le_trans h₁ h₁₂, h₂⟩
    exact ⟨(d₁.result_eq_ok_iff t k w h src dst₁).mpr hfit₁, (d₂.result_eq_ok_iff t k w h src dst₂).mpr hfit₂,
      d₁.decode_eq_min d₂ (ceiling_mono h₁₂) t hfit₁ hfit₂ rfl hle⟩
  · intro src dst₁ dst₂ hfit₁ hfit₂
    let d₂ : Depth UInt16 := .word 8 (by decide)
    have hsrc : (src.map UInt8.toUInt16).map d₂.toNat = src.map Depth.byte.toNat := by
      rw [Array.map_map]
      rfl
    have hle : ∀ v ∈ src.map UInt8.toUInt16, d₂.toNat v ≤ d₂.ceiling := by
      intro v hv
      obtain ⟨a, _, rfl⟩ := Array.mem_map.mp hv
      exact Nat.le_of_lt_succ a.toNat_lt
    have hmin := d₂.decode_eq_min Depth.byte (Nat.le_refl 255) t hfit₂ hfit₁ hsrc hle
    refine ⟨(Depth.byte.result_eq_ok_iff t k w h src dst₁).mpr hfit₁,
      (d₂.result_eq_ok_iff t k w h _ dst₂).mpr hfit₂, ?_⟩
    -- the lower ceiling is the range of a byte, so it lowers nothing
    refine (Array.map_inj_right (f := UInt16.toNat) fun _ _ => UInt16.toNat_inj.mp).mp ?_
    refine Eq.trans ?_ hmin.symm
    rw [Array.map_map]
    refine Array.map_congr_left fun a _ => ?_
    exact (Nat.min_eq_left (Nat.le_of_lt_succ a.toNat_lt)).symm

/-- a single bright sample, demosaiced at the depths 8 and 10, and as a byte -/
theorem decode_ceiling_spike :
    let spike : Array UInt8 := (Array.replicate 36 0).setIfInBounds 14 255
    let wide : Array UInt16 := spike.map UInt8.toUInt16
    (decode16 .grbg .hqLinear 6 6 8 wide (.replicate 108 7)).dst.map UInt16.toNat =
        ((decode16 .grbg .hqLinear 6 6 10 wide (.replicate 108 9)).dst.map fun v => min v.toNat (ceiling 8)) ∧
      (decode8 .grbg .hqLinear 6 6 spike (.replicate 108 7)).dst.map UInt8.toUInt16 =
        (decode16 .grbg .hqLinear 6 6 8 wide (.replicate 108 9)).dst := by
  intro spike wide
  have h := decode_ceiling .grbg .hqLinear 6 6
  have hle : ∀ v ∈ wide, v.toNat ≤ ceiling 8 := by
    intro v hv
    obtain ⟨a, _, rfl⟩ := Array.mem_map.mp hv
    exact Nat.le_of_lt_succ a.toNat_lt
  refine ⟨(h.1 8 10 wide _ _ (by decide) (by decide) (by decide) ?_ ?_ hle).2.2, (h.2 spike _ _ ?_ ?_).2.2⟩
  all_goals decide +kernel

end Imaging
