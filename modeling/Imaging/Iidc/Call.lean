/-
Requests by raw numbers. A call passes the numbers of its codings, filters and methods, and buffers that may be absent;
it answers with a status, zero or the negative code of the refusal, and with the destination as it is afterwards. The
numbers are read first, then the buffers are asked for, and only then is the request made.
-/
import Imaging.Conversion
import Imaging.Iidc.Code
import Imaging.Stereo

namespace Imaging.Iidc

structure Reply (α : Type) where
  status : Int
  /-- the destination after the call, where there is one -/
  dst : Option (Array α)
  deriving DecidableEq, Repr

/-- zero for success, the code of the refusal otherwise -/
def status : Except Refusal Unit → Int
  | .ok () => 0
  | .error e => e.code

/-- both buffers, where neither is absent -/
def buffers {α β : Type} (src : Option (Array α)) (dst : Option (Array β)) : Except Refusal (Array α × Array β) :=
  match src, dst with
  | some s, some d => .ok (s, d)
  | _, _ => .error (.parameter .buffer)

/-- the reply to a call, from the refusal of its arguments or from the outcome of its request -/
def reply {α : Type} (dst : Option (Array α)) (answer : Except Refusal (Outcome α)) : Reply α :=
  match answer with
  | .error e => { status := e.code, dst := dst }
  | .ok o => { status := status o.result, dst := some o.dst }

def convert (target : Target) (order coding w h bits : Nat) (src dst : Option (Array UInt8)) : Reply UInt8 :=
  reply dst do
    let order ← readOrder order
    let source ← readCoding coding
    let (s, d) ← buffers src dst
    return Imaging.convert { source, target, width := w, height := h, order, bits } s d

def decode8 (tile method w h : Nat) (src dst : Option (Array UInt8)) : Reply UInt8 :=
  reply dst do
    let t ← readTile tile
    let k ← readMethod method
    let (s, d) ← buffers src dst
    return Imaging.decode8 t k w h s d

def decode16 (tile method w h bits : Nat) (src dst : Option (Array UInt16)) : Reply UInt16 :=
  reply dst do
    let t ← readTile tile
    let k ← readMethod method
    let (s, d) ← buffers src dst
    return Imaging.decode16 t k w h bits s d

def splitStereo (w h : Nat) (src dst : Option (Array UInt8)) : Reply UInt8 :=
  reply dst do
    let (s, d) ← buffers src dst
    return Imaging.splitStereo w h s d

theorem status_eq_zero_iff {r : Except Refusal Unit} : status r = 0 ↔ r = .ok () := by
  cases r with
  | ok _ => simp [status]
  | error e =>
    have := e.code_neg
    simp only [status, reduceCtorEq, iff_false]
    omega

end Imaging.Iidc
