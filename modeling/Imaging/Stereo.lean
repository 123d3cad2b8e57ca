/-
Stereo frames. A stereo camera sends both views in one frame, their bytes taking turns; splitting gives the first view
on top of the second. `interleave_split` says that nothing is lost: the two halves, taking turns again, are the frame.
-/
import Imaging.Outcome

namespace Imaging

namespace Stereo

/-- the elements at even places: the first view -/
def first {α : Type} : List α → List α
  | a :: _ :: rest => a :: first rest
  | _ => []

/-- the elements at odd places: the second view -/
def second {α : Type} : List α → List α
  | _ :: b :: rest => b :: second rest
  | _ => []

/-- two views, their elements taking turns -/
def interleave {α : Type} : List α → List α → List α
  | a :: as, b :: bs => a :: b :: interleave as bs
  | _, _ => []

def check (w h srcLength dstLength : Nat) : Except Refusal Unit := do
  require (0 < w ∧ 0 < h) (.dimensions w h)
  require (2 * (w * h) < sizeLimit) (.dimensions w h)
  requireLength (2 * (w * h)) srcLength
  requireLength (2 * (w * h)) dstLength

theorem check_eq_ok_iff {w h srcLength dstLength : Nat} :
    check w h srcLength dstLength = .ok () ↔
      (0 < w ∧ 0 < h) ∧ 2 * (w * h) < sizeLimit ∧ srcLength = 2 * (w * h) ∧ dstLength = 2 * (w * h) := by
  simp only [check, bind_eq_ok_iff, require_eq_ok_iff, requireLength_eq_ok_iff]
  constructor
  · rintro ⟨_, hpos, _, hlimit, _, hsrc, hdst⟩
    exact ⟨hpos, hlimit, hsrc.symm, hdst.symm⟩
  · rintro ⟨hpos, hlimit, hsrc, hdst⟩
    exact ⟨(), hpos, (), hlimit, (), hsrc.symm, hdst.symm⟩

theorem length_first {α : Type} : ∀ s : List α, (first s).length = s.length / 2
  | [] => by simp [first]
  | [_] => by simp [first]
  | _ :: _ :: rest => by
    simp only [first, List.length_cons, length_first rest]
    omega

theorem length_second {α : Type} : ∀ s : List α, (second s).length = s.length / 2
  | [] => by simp [second]
  | [_] => by simp [second]
  | _ :: _ :: rest => by
    simp only [second, List.length_cons, length_second rest]
    omega

theorem length_views {α : Type} {w h n : Nat} {src : Array α} (hcheck : check w h src.size n = .ok ()) :
    (first src.toList ++ second src.toList).length = n := by
  obtain ⟨_, _, hsrc, hdst⟩ := check_eq_ok_iff.mp hcheck
  rw [List.length_append, length_first, length_second, Array.length_toList]
  omega

theorem interleave_split {α : Type} : ∀ {s : List α}, s.length % 2 = 0 → interleave (first s) (second s) = s
  | [], _ => rfl
  | [_], h => by simp at h
  | a :: b :: rest, h => by
    simp only [List.length_cons] at h
    have ih := interleave_split (s := rest) (by omega)
    simp only [first, second, interleave, ih]

end Stereo

/-- split a stereo frame of `w` by `h` two-byte pixels into its two views, one above the other -/
def splitStereo (w h : Nat) (src dst : Array UInt8) : Outcome UInt8 :=
  .guarded dst (Stereo.check w h src.size dst.size) fun _ =>
    overwrite dst (Stereo.first src.toList ++ Stereo.second src.toList)

end Imaging
