/-
Writes are all or nothing. Every entry point, seen as a function of its destination, either leaves it untouched or
writes over every element of it (`AllOrNothing`). The proof goes through one notion, `Settled`: what happens to
destinations of one length is settled before any of them is seen, either a refusal or an image of that length.
- `AllOrNothing.of_settled`: a request that is settled at every length writes all or nothing;
- `settled_guarded`: checks of lengths, then a write of the length that they ask for;
- `settled_decode`, `settled_debayerWide`: demosaicing, and demosaicing between sample widths;
- `writes_allOrNothing`: all entry points.
-/
import Imaging.Proofs.Conversion.Length
import Imaging.Proofs.Frame.Debayer

namespace Imaging

variable {α : Type}

/-- a request, as a function of its destination, writes all of it or nothing -/
structure AllOrNothing (run : Array α → Outcome α) : Prop where
  /-- a refused request leaves every element as it was -/
  refused : ∀ dst e, (run dst).result = .error e → (run dst).dst = dst
  /-- no element is added or lost -/
  size : ∀ dst, (run dst).dst.size = dst.size
  /-- whether a request is refused, and why, does not depend on what the destination holds -/
  verdict : ∀ dst dst', dst.size = dst'.size → (run dst).result = (run dst').result
  /-- a request that succeeds leaves nothing of what the destination held -/
  written : ∀ dst dst', dst.size = dst'.size → (run dst).result = .ok () → (run dst').result = .ok () →
    (run dst).dst = (run dst').dst

/-- what a request does to destinations of `n` elements is settled: one refusal or one image -/
def Settled (n : Nat) (run : Array α → Outcome α) : Prop :=
  ∃ verdict : Except Refusal (Array α), (∀ image, verdict = .ok image → image.size = n) ∧
    ∀ dst, dst.size = n → run dst = .guarded dst verdict id

theorem AllOrNothing.of_settled {run : Array α → Outcome α} (h : ∀ n, Settled n run) : AllOrNothing run := by
  refine ⟨?_, ?_, ?_, ?_⟩
  · intro dst e he
    obtain ⟨verdict, _, hrun⟩ := h dst.size
    rw [hrun dst rfl] at he ⊢
    exact Outcome.guarded_dst_of_error he
  · intro dst
    obtain ⟨verdict, hsize, hrun⟩ := h dst.size
    rw [hrun dst rfl]
    cases verdict with
    | error e => rfl
    | ok image => exact hsize image rfl
  · intro dst dst' hdst
    obtain ⟨verdict, _, hrun⟩ := h dst'.size
    rw [hrun dst hdst, hrun dst' rfl, Outcome.guarded_result, Outcome.guarded_result]
  · intro dst dst' hdst hok _
    obtain ⟨verdict, _, hrun⟩ := h dst'.size
    rw [hrun dst hdst] at hok ⊢
    rw [hrun dst' rfl]
    cases verdict with
    | error e => cases hok
    | ok image => rfl

/-! ## What keeps requests settled -/

section Settled

variable {n : Nat} {run : Array α → Outcome α}

theorem Settled.of_refused {e : Refusal} (h : ∀ dst, dst.size = n → run dst = .refused e dst) : Settled n run := by
  refine ⟨.error e, ?_, h⟩
  intro image himage
  cases himage

theorem Settled.of_written (image : Array α) (hsize : image.size = n)
    (h : ∀ dst, dst.size = n → run dst = .written image) : Settled n run := by
  refine ⟨.ok image, ?_, h⟩
  intro image' himage
  cases himage
  exact hsize

theorem settled_guarded (check : Nat → Except Refusal Unit) {out : List α} (hout : check n = .ok () → out.length = n) :
    Settled n fun dst => .guarded dst (check dst.size) fun _ => overwrite dst out := by
  cases hcheck : check n with
  | error e => exact .of_refused fun dst hdst => by rw [hdst, hcheck, Outcome.guarded_error]
  | ok _ =>
    have hlength := hout hcheck
    refine .of_written out.toArray hlength ?_
    intro dst hdst
    rw [hdst, hcheck, Outcome.guarded_ok, overwrite_eq (hlength.trans hdst.symm)]

end Settled

/-! ## Entry points -/

theorem settled_convert (r : Request) (src : Array UInt8) (n : Nat) : Settled n (convert r src) := by
  refine settled_guarded (fun n => r.check src.size n) ?_
  intro hcheck
  exact Request.length_output hcheck

theorem settled_splitStereo (w h : Nat) (src : Array UInt8) (n : Nat) : Settled n (splitStereo w h src) := by
  refine settled_guarded (fun n => Stereo.check w h src.size n) ?_
  intro hcheck
  exact Stereo.length_views hcheck

theorem settled_readSamples (src : Array UInt8) (n : Nat) : Settled n (readSamples src) := by
  refine settled_guarded (fun n => requireLength (2 * n) src.size) ?_
  intro hcheck
  have hsrc := requireLength_eq_ok_iff.mp hcheck
  rw [BigEndian.length_decode, Array.length_toList]
  omega

theorem settled_writeSamples (src : Array UInt16) (n : Nat) : Settled n (writeSamples src) := by
  refine settled_guarded (fun n => requireLength (2 * src.size) n) ?_
  intro hcheck
  have hdst := requireLength_eq_ok_iff.mp hcheck
  rw [BigEndian.length_encode, Array.length_toList, hdst]

/-! ### Demosaicing -/

theorem Raster.ofBuffer_eq_error_congr {w h ceiling : Nat} {buffer buffer' : Array Nat} {e : Refusal}
    (hbuffer : ofBuffer w h ceiling buffer = .error e) (hsize : buffer.size = buffer'.size) :
    ofBuffer w h ceiling buffer' = .error e := by
  unfold ofBuffer at hbuffer ⊢
  split at hbuffer
  · rename_i hlimit
    rw [if_pos hlimit]
    exact hbuffer
  · rename_i hlimit
    split at hbuffer
    · cases hbuffer
    · rename_i hne
      rw [if_neg hlimit, dif_neg (hsize ▸ hne), ← hsize]
      exact hbuffer

theorem Demosaic.views_eq_error_congr {k : Method} {w h ceiling : Nat} {src dst dst' : Array Nat} {e : Refusal}
    (hviews : views k w h ceiling src dst = .error e) (hsize : dst.size = dst'.size) :
    views k w h ceiling src dst' = .error e := by
  simp only [views, bind_eq_error_iff] at hviews ⊢
  rcases hviews with htiles | ⟨_, htiles, hm | ⟨m, hm, hr | ⟨r, _, hpure⟩⟩⟩
  · exact .inl htiles
  · exact .inr ⟨_, htiles, .inl hm⟩
  · exact .inr ⟨_, htiles, .inr ⟨m, hm, .inl (Raster.ofBuffer_eq_error_congr hr hsize)⟩⟩
  · cases hpure

theorem settled_decode (d : Depth α) (t : Tile) (k : Method) (w h : Nat) (src : Array α) (n : Nat) :
    Settled n (d.decode t k w h src) := by
  -- any destination of the length stands for all of them
  let any : Array α := .replicate n (d.ofNat 0)
  have hany : any.size = n := Array.size_replicate
  cases hviews : Demosaic.views k w h d.ceiling (src.map d.toNat) (any.map d.toNat) with
  | error e =>
    refine .of_refused (e := e) ?_
    intro dst hdst
    have hsize : (any.map d.toNat).size = (dst.map d.toNat).size := by
      rw [Array.size_map, Array.size_map, hany, hdst]
    rw [d.decode_eq, Demosaic.decode, Demosaic.views_eq_error_congr hviews hsize, Outcome.guarded_error,
      Outcome.map_refused, d.map_map_ofNat]
  | ok v =>
    have hok : (d.decode t k w h src any).result = .ok () := by
      rw [d.decode_eq, Demosaic.decode, hviews]
      rfl
    have hfit := (d.result_eq_ok_iff t k w h src any).mp hok
    refine .of_written (d.rebuild k t (d.mosaic w h src hfit.src_size)) ?_ ?_
    · rw [d.size_rebuild, ← hany, hfit.dst_size]
      rfl
    · intro dst hdst
      have hsize : any.size = dst.size := hany.trans hdst.symm
      exact d.decode_of_fits t ⟨hfit.tiles, hfit.src_size, hsize ▸ hfit.dst_size, hfit.src_lt, hsize ▸ hfit.dst_lt⟩

theorem settled_decode8 (t : Tile) (k : Method) (w h : Nat) (src : Array UInt8) (n : Nat) :
    Settled n (decode8 t k w h src) := settled_decode .byte t k w h src n

theorem settled_decode16 (t : Tile) (k : Method) (w h bits : Nat) (src : Array UInt16) (n : Nat) :
    Settled n (decode16 t k w h bits src) := by
  by_cases hbits : ValidDepth bits
  · exact settled_decode (.word bits hbits) t k w h src n
  · refine .of_refused (e := .parameter .bitDepth) ?_
    intro dst _
    rw [decode16, requireDepth, require_of_not hbits, Outcome.provided_error]

/-! ### Frames -/

namespace Frame

/-- the checks of the frame decide, and what passes them writes one image of the right length -/
theorem settled_debayerWide {f : Frame} {target : Coding} (hraw : f.coding.isRaw = true) (hrgb : target.isRgb = true)
    (t : Tile) (k : Method) (n : Nat) : Settled n (f.debayerWide t target k) := by
  cases hcheck : f.checkWide target k n with
  | error e =>
    refine .of_refused (e := e) ?_
    intro dst hdst
    rw [debayerWide, hdst, hcheck, Outcome.provided_error]
  | ok _ =>
    obtain ⟨_, _, _, hlength⟩ := checkWide_eq_ok_iff.mp hcheck
    have hsize := (decode16_samples hraw hrgb hcheck t).2
    refine .of_written (wideBytes f.bits target (f.rebuilt t k)).toArray ?_ ?_
    · exact length_wideBytes hrgb hlength hsize f.bits
    · intro dst hdst
      exact debayerWide_of_check hraw hrgb (hdst ▸ hcheck) t

theorem settled_debayer (f : Frame) (target : Coding) (k : Method) (n : Nat) : Settled n (f.debayer target k) := by
  cases hfilter : f.filter with
  | none => exact .of_refused fun dst _ => by rw [debayer, hfilter]
  | some t =>
    by_cases hcodings : f.coding.isRaw = true ∧ target.isRgb = true
    · by_cases hbytes : f.coding = .raw8 ∧ target = .rgb8
      · have hrun : f.debayer target k = decode8 t k f.width f.height f.image := by
          funext dst
          rw [debayer, hfilter]
          dsimp only
          rw [if_neg fun h => h hcodings, if_pos hbytes]
        rw [hrun]
        exact settled_decode8 t k f.width f.height f.image n
      · have hrun : f.debayer target k = f.debayerWide t target k := by
          funext dst
          rw [debayer, hfilter]
          dsimp only
          rw [if_neg fun h => h hcodings, if_neg hbytes]
        rw [hrun]
        exact settled_debayerWide hcodings.1 hcodings.2 t k n
    · refine .of_refused (e := .unsupported f.coding target) ?_
      intro dst _
      rw [debayer, hfilter]
      exact if_pos hcodings

theorem settled_convert (f : Frame) (target : Coding) (o : Options) (n : Nat) : Settled n (f.convert target o) := by
  by_cases hmosaic : f.Mosaicked target
  · have hrun : f.convert target o = f.debayer target o.method := funext fun dst => if_pos hmosaic
    rw [hrun]
    exact f.settled_debayer target o.method n
  · cases htarget : Target.ofCoding? target with
    | none =>
      refine .of_refused (e := .unsupported f.coding target) ?_
      intro dst _
      rw [convert, if_neg hmosaic, htarget]
    | some t =>
      have hrun : f.convert target o = Imaging.convert (f.request t o.order) f.image := by
        funext dst
        rw [convert, if_neg hmosaic, htarget]
      rw [hrun]
      exact Imaging.settled_convert (f.request t o.order) f.image n

theorem settled_splitStereo (f : Frame) (target : Coding) (n : Nat) : Settled n (f.splitStereo target) := by
  by_cases hsplits : Splits f.coding target
  · have hrun : f.splitStereo target = Imaging.splitStereo f.width f.height f.image := funext fun dst => if_pos hsplits
    rw [hrun]
    exact Imaging.settled_splitStereo f.width f.height f.image n
  · exact .of_refused fun dst _ => by rw [splitStereo, if_neg hsplits]

end Frame

/-- **All or nothing.** Every entry point leaves its destination as it was where it refuses, and nothing of what the
destination held where it succeeds, for all arguments. -/
theorem writes_allOrNothing :
    (∀ r src, AllOrNothing (convert r src)) ∧
      (∀ t k w h src, AllOrNothing (decode8 t k w h src)) ∧
      (∀ t k w h bits src, AllOrNothing (decode16 t k w h bits src)) ∧
      (∀ w h src, AllOrNothing (splitStereo w h src)) ∧
      (∀ src, AllOrNothing (readSamples src)) ∧
      (∀ src, AllOrNothing (writeSamples src)) ∧
      (∀ (f : Frame) target o, AllOrNothing (f.convert target o)) ∧
      (∀ (f : Frame) target k, AllOrNothing (f.debayer target k)) ∧
      ∀ (f : Frame) target, AllOrNothing (f.splitStereo target) := by
  refine ⟨?_, ?_, ?_, ?_, ?_, ?_, ?_, ?_, ?_⟩
  · intro r src
    exact .of_settled (settled_convert r src)
  · intro t k w h src
    exact .of_settled (settled_decode8 t k w h src)
  · intro t k w h bits src
    exact .of_settled (settled_decode16 t k w h bits src)
  · intro w h src
    exact .of_settled (settled_splitStereo w h src)
  · intro src
    exact .of_settled (settled_readSamples src)
  · intro src
    exact .of_settled (settled_writeSamples src)
  · intro f target o
    exact .of_settled (f.settled_convert target o)
  · intro f target k
    exact .of_settled (f.settled_debayer target k)
  · intro f target
    exact .of_settled (f.settled_splitStereo target)

end Imaging
