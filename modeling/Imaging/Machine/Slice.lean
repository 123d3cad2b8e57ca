/-
Slices and loops over chunks of them. A slice is a list; reading, storing, cutting and copying name the fault that each
can have. A loop over chunks pairs every source with the chunk of the destination that it meets, and leaves alone what
no source meets.
-/
import Imaging.Machine.Word
import Imaging.Pixel.Pack

namespace Imaging.Machine

variable {α β : Type}

/-! ## Slices -/

def fetch (s : List α) (i : Nat) : Run α :=
  match s[i]? with
  | some a => .ok a
  | none => .error .bounds

def assign (s : List α) (i : Nat) (a : α) : Run (List α) := if i < s.length then .ok (s.set i a) else .error .bounds

/-- the part from place `a` up to place `b` -/
def slice (s : List α) (a b : Nat) : Run (List α) :=
  if a ≤ b ∧ b ≤ s.length then .ok ((s.take b).drop a) else .error .bounds

/-- write on the part from place `a` up to place `b` -/
def within (s : List α) (a b : Nat) (write : List α → Run (List α)) : Run (List α) := do
  let part ← slice s a b
  let part ← write part
  .ok (s.take a ++ part ++ s.drop b)

def copy (src dst : List α) : Run (List α) := if dst.length = src.length then .ok src else .error .length

/-! ## Chunks -/

/-- the whole chunks of `n` elements from the front on -/
def chunksExact (n : Nat) (s : List α) : Run (List (List α)) :=
  if n = 0 then .error .chunk else .ok (rows n (s.length / n) s)

/-- the chunks of `n` elements from the front on, of which the last may be shorter -/
def chunks (n : Nat) (s : List α) : Run (List (List α)) :=
  if n = 0 then .error .chunk else .ok (rows n ((s.length + (n - 1)) / n) s)

/-- store a value for each source -/
def fill (sources : List β) (dst : List α) (value : β → Run α) : Run (List α) := do
  let written ← (sources.zip dst).mapM fun p => value p.1
  .ok (written ++ dst.drop written.length)

/-- write on a chunk of `m` elements for each source -/
def fillChunks (m : Nat) (sources : List β) (dst : List α) (write : β → List α → Run (List α)) : Run (List α) := do
  let parts ← chunksExact m dst
  let written ← (sources.zip parts).mapM fun p => write p.1 p.2
  .ok (written.flatten ++ dst.drop (m * written.length))

/-- write on a chunk of `m` elements for each chunk of `n` elements -/
def eachChunk (n m : Nat) (src : List β) (dst : List α) (write : List β → List α → Run (List α)) : Run (List α) := do
  let sources ← chunksExact n src
  fillChunks m sources dst write

end Imaging.Machine
