/-
The outcome of a request that writes into a buffer of the caller: whether it was refused, and what the buffer holds
afterwards. Every entry point has the shape `Outcome.guarded`: all checks come first, and the buffer is written only
when they have passed, so a refused request leaves it as it was (`guarded_dst_of_error`). A successful one writes over
what the buffer held; `overwrite_eq` says when nothing of that is left.
-/
import Imaging.Refusal

namespace Imaging

/-- the verdict on a request and the destination after it -/
structure Outcome (α : Type) where
  result : Except Refusal Unit
  dst : Array α

/-- write a list from the front of a buffer on; what lies beyond the list stays -/
def overwrite {α : Type} (dst : Array α) (out : List α) : Array α :=
  (out.take dst.size ++ dst.toList.drop out.length).toArray

theorem overwrite_eq {α : Type} {dst : Array α} {out : List α} (h : out.length = dst.size) :
    overwrite dst out = out.toArray := by
  have hd : dst.toList.drop out.length = [] := by simp [h]
  simp [overwrite, hd, ← h]

namespace Outcome

variable {α β γ : Type}

/-- refuse and leave the destination alone -/
def refused (e : Refusal) (dst : Array α) : Outcome α := ⟨.error e, dst⟩

/-- succeed with this destination -/
def written (dst : Array α) : Outcome α := ⟨.ok (), dst⟩

/-- make all checks, then write from what they found -/
def guarded (dst : Array α) (check : Except Refusal γ) (write : γ → Array α) : Outcome α :=
  match check with
  | .error e => refused e dst
  | .ok found => written (write found)

/-- go on with a request where a check passes -/
def provided (dst : Array α) (check : Except Refusal Unit) (next : Unit → Outcome α) : Outcome α :=
  match check with
  | .error e => refused e dst
  | .ok u => next u

/-- go on from a buffer that an inner request wrote; its refusal refuses the whole request -/
def andThen (inner : Outcome β) (dst : Array α) (next : Array β → Outcome α) : Outcome α :=
  match inner.result with
  | .error e => refused e dst
  | .ok () => next inner.dst

/-- the same outcome on elements read another way -/
def map (f : α → β) (o : Outcome α) : Outcome β := ⟨o.result, o.dst.map f⟩

theorem guarded_result (dst : Array α) (check : Except Refusal γ) (write : γ → Array α) :
    (guarded dst check write).result = check.map fun _ => () := by
  cases check <;> rfl

theorem guarded_dst_of_error {dst : Array α} {check : Except Refusal γ} {write : γ → Array α} {e : Refusal}
    (h : (guarded dst check write).result = .error e) : (guarded dst check write).dst = dst := by
  cases check with
  | error _ => rfl
  | ok _ => simp [guarded, written] at h

theorem guarded_error (dst : Array α) (e : Refusal) (write : γ → Array α) :
    guarded dst (.error e) write = refused e dst := rfl

theorem provided_ok (dst : Array α) (next : Unit → Outcome α) : provided dst (.ok ()) next = next () := rfl

theorem provided_error (dst : Array α) (e : Refusal) (next : Unit → Outcome α) :
    provided dst (.error e) next = refused e dst := rfl

theorem andThen_written (buffer : Array β) (dst : Array α) (next : Array β → Outcome α) :
    (written buffer).andThen dst next = next buffer := rfl

theorem map_written (f : α → β) (dst : Array α) : (written dst).map f = written (dst.map f) := rfl

theorem map_refused (f : α → β) (e : Refusal) (dst : Array α) : (refused e dst).map f = refused e (dst.map f) := rfl

theorem guarded_ok (dst : Array α) (found : γ) (write : γ → Array α) :
    guarded dst (.ok found) write = written (write found) := rfl

end Outcome

end Imaging
