/-
Images one above the other. What becomes of a row does not depend on the rows around it: a row of an accepted image is
made of whole groups (`Request.exists_groups`), so no group is read across the end of a row, and packed pairs are
written row by row. An image that is stacked from two others of its width is therefore converted to the stack of their
results (`convert_stack`), for every source and target, odd rows of grey included.
-/
import Imaging.Proofs.Conversion.Groups

namespace Imaging

/-- the rows of a stack -/
theorem rows_append {α : Type} {w h₁ : Nat} {top : List α} (htop : top.length = w * h₁) (h₂ : Nat) (bottom : List α) :
    rows w (h₁ + h₂) (top ++ bottom) = rows w h₁ top ++ rows w h₂ bottom := by
  induction h₁ generalizing top with
  | zero =>
    obtain rfl := List.eq_nil_of_length_eq_zero htop
    rw [Nat.zero_add, List.nil_append]
    rfl
  | succ h₁ ih =>
    rw [Nat.mul_succ] at htop
    have hrest : (top.drop w).length = w * h₁ := by
      rw [List.length_drop]
      omega
    rw [Nat.succ_add, rows, rows, List.take_append_of_le_length (by omega), List.drop_append_of_le_length (by omega),
      ih hrest, List.cons_append]

theorem Pixel.packRows_append (order : ByteOrder) {w h₁ : Nat} {top : List Pixel} (htop : top.length = w * h₁) (h₂ : Nat)
    (bottom : List Pixel) :
    packRows order w (h₁ + h₂) (top ++ bottom) = packRows order w h₁ top ++ packRows order w h₂ bottom := by
  rw [packRows, rows_append htop, List.flatMap_append]
  rfl

theorem Coding.bufferLength?_add {c : Coding} {w h₁ h₂ n₁ n₂ : Nat} (h₁n : c.bufferLength? w h₁ = some n₁)
    (h₂n : c.bufferLength? w h₂ = some n₂) (hlimit : w * (h₁ + h₂) * c.bitsPerPixel < sizeLimit) :
    c.bufferLength? w (h₁ + h₂) = some (n₁ + n₂) := by
  have hbits₁ := (bufferLength?_eq_some_iff.mp h₁n).2
  have hbits₂ := (bufferLength?_eq_some_iff.mp h₂n).2
  refine bufferLength?_eq_some_iff.mpr ⟨hlimit, ?_⟩
  rw [Nat.mul_add, Nat.mul_add, Nat.add_mul, hbits₁, hbits₂]

namespace Request

variable {r : Request}

/-- an accepted source holds whole groups -/
theorem exists_groups {n m : Nat} (hcheck : r.check n m = .ok ()) : ∃ q, n = q * r.source.groupBytes := by
  obtain ⟨htarget, ⟨_, _, h₄, h₂, _⟩, _, hsrc, _⟩ := check_eq_ok_iff.mp hcheck
  have hbits := (Coding.bufferLength?_eq_some_iff.mp hsrc).2
  cases hc : r.source with
  | mono8 | raw8 | mono16 | raw16 | rgb8 | rgb16 | yuv444 =>
    rw [hc, Coding.bitsPerPixel] at hbits
    refine ⟨r.width * r.height, ?_⟩
    simp only [Coding.groupBytes]
    omega
  | yuv422 =>
    have hpairs := area_mod (h₂ hc) r.height
    rw [hc, Coding.bitsPerPixel] at hbits
    refine ⟨r.width * r.height / 2, ?_⟩
    simp only [Coding.groupBytes]
    omega
  | yuv411 =>
    have hgroups := area_mod (h₄ hc) r.height
    rw [hc, Coding.bitsPerPixel] at hbits
    refine ⟨r.width * r.height / 4, ?_⟩
    simp only [Coding.groupBytes]
    omega
  | mono16s | rgb16s =>
    rw [hc] at htarget
    cases htarget.1

/-- the image of a stack is the stack of the images -/
theorem output_append {h₁ : Nat} {top : List UInt8} {m : Nat}
    (hcheck : { r with height := h₁ }.check top.length m = .ok ()) (h₂ : Nat) (bottom : List UInt8) :
    { r with height := h₁ + h₂ }.output (top ++ bottom) =
      { r with height := h₁ }.output top ++ { r with height := h₂ }.output bottom := by
  obtain ⟨q, hgroups⟩ := exists_groups hcheck
  have hpixels := length_pixels hcheck
  have hunpack : Pixel.unpack r.source r.sourceOrder r.bits (top ++ bottom) =
      Pixel.unpack r.source r.sourceOrder r.bits top ++ Pixel.unpack r.source r.sourceOrder r.bits bottom :=
    ((Pixel.chunkwise_unpack r.source r.sourceOrder r.bits).mul q).append hgroups
  have horder (h : Nat) : { r with height := h }.sourceOrder = r.sourceOrder := rfl
  simp only [output, horder, hunpack]
  cases r.target with
  | yuv422 => exact Pixel.packRows_append r.order hpixels h₂ _
  | mono8 => exact List.map_append
  | rgb8 => exact List.flatMap_append

end Request

/-- **Rows do not bleed.** An image stacked from two others of its width is accepted where it is not too large, and its
result is the stack of their results. -/
theorem convert_stack (r : Request) (h₁ h₂ : Nat) (a b top bottom dst : Array UInt8)
    (htop : (convert { r with height := h₁ } a top).result = .ok ())
    (hbottom : (convert { r with height := h₂ } b bottom).result = .ok ())
    (hsrc : r.width * (h₁ + h₂) * r.source.bitsPerPixel < sizeLimit)
    (hdst : r.paddedWidth * (h₁ + h₂) * r.target.coding.bitsPerPixel < sizeLimit)
    (hsize : dst.size = top.size + bottom.size) :
    convert { r with height := h₁ + h₂ } (a ++ b) dst =
      .written ((convert { r with height := h₁ } a top).dst ++ (convert { r with height := h₂ } b bottom).dst) := by
  have hcheck₁ := Request.result_eq_ok_iff.mp htop
  have hcheck₂ := Request.result_eq_ok_iff.mp hbottom
  obtain ⟨haccepts, ⟨hw, hh, hrow⟩, hdepth, hsrc₁, hdst₁⟩ := Request.check_eq_ok_iff.mp hcheck₁
  obtain ⟨_, _, _, hsrc₂, hdst₂⟩ := Request.check_eq_ok_iff.mp hcheck₂
  have hcheck : { r with height := h₁ + h₂ }.check (a ++ b).size dst.size = .ok () := by
    refine Request.check_eq_ok_iff.mpr ⟨haccepts, ⟨hw, Nat.add_pos_left hh h₂, hrow⟩, hdepth, ?_, ?_⟩
    · rw [Array.size_append]
      exact Coding.bufferLength?_add hsrc₁ hsrc₂ hsrc
    · rw [hsize]
      exact Coding.bufferLength?_add hdst₁ hdst₂ hdst
  rw [Request.convert_of_check hcheck, Request.dst_convert hcheck₁, Request.dst_convert hcheck₂, Array.toList_append,
    Request.output_append hcheck₁, List.append_toArray]

/-- odd rows of grey levels, each padded by itself, and groups of four pixels -/
theorem convert_stack_rows :
    let grey : Request := { source := .mono8, target := .yuv422, width := 3, height := 0, order := .yuyv, bits := 8 }
    let groups : Request := { source := .yuv411, target := .rgb8, width := 4, height := 0, order := .uyvy, bits := 8 }
    (convert { grey with height := 1 + 2 } (#[10, 20, 30] ++ #[40, 50, 60, 70, 80, 90]) (.replicate 24 7) =
      .written ((convert { grey with height := 1 } #[10, 20, 30] (.replicate 8 7)).dst ++
        (convert { grey with height := 2 } #[40, 50, 60, 70, 80, 90] (.replicate 16 7)).dst)) ∧
      convert { groups with height := 1 + 1 } (#[30, 1, 2, 200, 3, 4] ++ #[90, 5, 6, 17, 7, 8]) (.replicate 24 7) =
        .written ((convert { groups with height := 1 } #[30, 1, 2, 200, 3, 4] (.replicate 12 7)).dst ++
          (convert { groups with height := 1 } #[90, 5, 6, 17, 7, 8] (.replicate 12 7)).dst) := by
  intro grey groups
  refine ⟨?_, ?_⟩
  · exact convert_stack grey 1 2 #[10, 20, 30] #[40, 50, 60, 70, 80, 90] (.replicate 8 7) (.replicate 16 7)
      (.replicate 24 7) (Request.accepted_iff.mpr (by decide)) (Request.accepted_iff.mpr (by decide)) (by decide)
      (by decide) (by decide)
  · exact convert_stack groups 1 1 #[30, 1, 2, 200, 3, 4] #[90, 5, 6, 17, 7, 8] (.replicate 12 7) (.replicate 12 7)
      (.replicate 24 7) (Request.accepted_iff.mpr (by decide)) (Request.accepted_iff.mpr (by decide)) (by decide)
      (by decide) (by decide)

end Imaging
