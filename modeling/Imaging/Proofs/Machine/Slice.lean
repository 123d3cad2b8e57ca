/-
The laws of slices and of loops over chunks. Where lengths match, a loop that stores something for each source faults
nowhere and leaves nothing of its destination (`fill_eq`, `fillChunks_eq`); a loop over chunks of its source computes
every function that can be computed chunk by chunk (`eachChunk_eq`).
-/
import Imaging.Machine.Slice
import Imaging.Proofs.Conversion.Groups

namespace Imaging.Machine

variable {α β : Type}

/-! ## Access within bounds -/

theorem slice_eq {s : List α} {a b : Nat} (hab : a ≤ b) (hb : b ≤ s.length) :
    slice s a b = .ok ((s.take b).drop a) := if_pos ⟨hab, hb⟩

theorem copy_eq {src dst : List α} (h : dst.length = src.length) : copy src dst = .ok src := if_pos h

/-! ## Loops -/

section Loops

variable {n m q : Nat} {src : List β} {dst : List α}

theorem chunksExact_eq (hn : 0 < n) (hsrc : src.length = n * q) : chunksExact n src = .ok (rows n q src) := by
  rw [chunksExact, if_neg (by omega), hsrc, Nat.mul_div_cancel_left q hn]

/-- a loop over sources and as many places, whose results depend on the sources alone -/
theorem mapM_zip_eq {γ δ : Type} {sources : List β} {places : List γ} {f : β × γ → Run δ} {value : β → δ}
    (hlength : sources.length ≤ places.length) (h : ∀ s ∈ sources, ∀ p ∈ places, f (s, p) = .ok (value s)) :
    (sources.zip places).mapM f = .ok (sources.map value) := by
  have hrun : (sources.zip places).mapM f = .ok ((sources.zip places).map (value ∘ Prod.fst)) :=
    mapM_eq fun p hp => h p.1 (List.of_mem_zip hp).1 p.2 (List.of_mem_zip hp).2
  rw [hrun, ← List.map_map, List.map_fst_zip hlength]

theorem map_headD {sources : List β} {value : β → List α} (a : α) (h : ∀ s ∈ sources, (value s).length = 1) :
    sources.map (fun s => (value s).headD a) = sources.flatMap value := by
  rw [List.map_eq_flatMap, List.flatMap_def, List.flatMap_def]
  congr 1
  refine List.map_congr_left fun s hs => ?_
  obtain ⟨v, hv⟩ := List.length_eq_one_iff.mp (h s hs)
  rw [hv]
  rfl

theorem fill_eq [Inhabited α] {sources : List β} {f : β → Run α} {value : β → List α}
    (hdst : dst.length = sources.length) (h : ∀ s ∈ sources, ∃ v, f s = .ok v ∧ value s = [v]) :
    fill sources dst f = .ok (sources.flatMap value) := by
  have hvalue : ∀ s ∈ sources, (value s).length = 1 := by
    intro s hs
    obtain ⟨v, _, hv⟩ := h s hs
    rw [hv, List.length_singleton]
  have hrun : ∀ s ∈ sources, ∀ p ∈ dst, f s = .ok ((value s).headD default) := by
    intro s hs _ _
    obtain ⟨v, hf, hv⟩ := h s hs
    rw [hf, hv]
    rfl
  rw [fill, mapM_zip_eq (by omega) hrun, ok_bind, List.drop_eq_nil_of_le (by rw [List.length_map]; omega),
    List.append_nil, map_headD default hvalue]

theorem fillChunks_eq {sources : List β} {write : β → List α → Run (List α)} {value : β → List α} (hm : 0 < m)
    (hdst : dst.length = m * sources.length) (h : ∀ s ∈ sources, ∀ d : List α, d.length = m → write s d = .ok (value s)) :
    fillChunks m sources dst write = .ok (sources.flatMap value) := by
  have hparts : sources.length ≤ (rows m sources.length dst).length := Nat.le_of_eq (length_rows ..).symm
  rw [fillChunks, chunksExact_eq hm hdst, ok_bind,
    mapM_zip_eq hparts fun s hs d hd => h s hs d (length_of_mem_rows hdst hd), ok_bind, List.length_map,
    List.drop_eq_nil_of_le (by omega), List.append_nil, List.flatMap_def]

/-- a chunk written for each chunk of the source -/
theorem eachChunk_rows {write : List β → List α → Run (List α)} {value : List β → List α} (hn : 0 < n) (hm : 0 < m)
    (hsrc : src.length = n * q) (hdst : dst.length = m * q)
    (h : ∀ s d, s.length = n → d.length = m → write s d = .ok (value s)) :
    eachChunk n m src dst write = .ok ((rows n q src).flatMap value) := by
  rw [eachChunk, chunksExact_eq hn hsrc, ok_bind]
  exact fillChunks_eq hm (by rw [length_rows]; exact hdst) fun s hs d hd => h s d (length_of_mem_rows hsrc hs) hd

/-- **A loop over chunks** computes what can be computed chunk by chunk. -/
theorem eachChunk_eq {write : List β → List α → Run (List α)} {value : List β → List α} (hn : 0 < n) (hm : 0 < m)
    (hsrc : src.length = n * q) (hdst : dst.length = m * q) (hvalue : Chunkwise n value)
    (h : ∀ s d, s.length = n → d.length = m → write s d = .ok (value s)) :
    eachChunk n m src dst write = .ok (value src) := by
  rw [eachChunk_rows hn hm hsrc hdst h, hvalue.flatMap_rows (Nat.le_of_eq hsrc)]

end Loops

end Imaging.Machine
