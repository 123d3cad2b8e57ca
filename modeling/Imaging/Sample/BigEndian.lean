/-
16-bit samples in a byte buffer, most significant byte first. Joining, decoding and encoding stand for a codec that is
not modelled itself: its documented big-endian behaviour is taken as given, and `decode` and `encode` are that behaviour
on lists, where the two directions undo each other (`decode_encode`, `encode_decode`). `readSamples` and `writeSamples`
run them between buffers whose lengths must match.
-/
import Imaging.Outcome

namespace Imaging

namespace BigEndian

/-- one sample from its two bytes -/
def join (hi lo : UInt8) : UInt16 := UInt16.ofNat (256 * hi.toNat + lo.toNat)

def decode : List UInt8 → List UInt16
  | hi :: lo :: rest => join hi lo :: decode rest
  | _ => []

def encode : List UInt16 → List UInt8
  | [] => []
  | v :: rest => UInt8.ofNat (v.toNat / 256) :: UInt8.ofNat (v.toNat % 256) :: encode rest

theorem toNat_join (hi lo : UInt8) : (join hi lo).toNat = 256 * hi.toNat + lo.toNat := by
  have := hi.toNat_lt
  have := lo.toNat_lt
  simp only [join, UInt16.toNat_ofNat']
  omega

theorem length_encode (s : List UInt16) : (encode s).length = 2 * s.length := by
  induction s with
  | nil => rfl
  | cons v s ih =>
    simp only [encode, List.length_cons, ih]
    omega

theorem length_decode : ∀ b : List UInt8, (decode b).length = b.length / 2
  | [] => by simp [decode]
  | [_] => by simp [decode]
  | _ :: _ :: rest => by
    simp only [decode, List.length_cons, length_decode rest]
    omega

theorem decode_encode (s : List UInt16) : decode (encode s) = s := by
  induction s with
  | nil => rfl
  | cons v s ih =>
    have hv := v.toNat_lt
    simp only [encode, decode, ih, List.cons.injEq, and_true]
    apply UInt16.toNat_inj.mp
    rw [toNat_join, UInt8.toNat_ofNat', UInt8.toNat_ofNat']
    omega

theorem encode_decode : ∀ {b : List UInt8}, b.length % 2 = 0 → encode (decode b) = b
  | [], _ => rfl
  | [_], h => by simp at h
  | hi :: lo :: rest, h => by
    have hhi := hi.toNat_lt
    have hlo := lo.toNat_lt
    simp only [List.length_cons] at h
    have ih := encode_decode (b := rest) (by omega)
    simp only [decode, encode, ih, toNat_join, List.cons.injEq, and_true]
    constructor
    · apply UInt8.toNat_inj.mp
      rw [UInt8.toNat_ofNat']
      omega
    · apply UInt8.toNat_inj.mp
      rw [UInt8.toNat_ofNat']
      omega

end BigEndian

/-! ## Between buffers -/

/-- decode a byte buffer into samples -/
def readSamples (src : Array UInt8) (dst : Array UInt16) : Outcome UInt16 :=
  .guarded dst (requireLength (2 * dst.size) src.size) fun _ => overwrite dst (BigEndian.decode src.toList)

/-- encode samples into a byte buffer -/
def writeSamples (src : Array UInt16) (dst : Array UInt8) : Outcome UInt8 :=
  .guarded dst (requireLength (2 * src.size) dst.size) fun _ => overwrite dst (BigEndian.encode src.toList)

end Imaging
