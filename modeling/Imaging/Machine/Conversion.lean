/-
Pixel conversion and stereo splitting in machine words. The loops are those of a program that works in place: they walk
over chunks of the source and of the destination side by side, read bytes by their places and store every group of the
target by its places. The colour transforms are `Rgb.weigh` and `Yuv.weigh`, read in 32-bit arithmetic. Sizes are checked
products; the padded width is formed only for a source whose length is known to fit.
-/
import Imaging.Conversion
import Imaging.Machine.Slice
import Imaging.Stereo

namespace Imaging.Machine

/-! ## Bytes -/

/-- clamp a sum into a byte -/
def clip (v : I32) : Run UInt8 := do
  let v ← v.run
  .ok (clip8 v 255)

def toYuv (p : Rgb UInt8) : Run (Yuv UInt8) := do
  let sums := (p.map fun c => I32.of (widen c)).weigh
  let y ← clip sums.y
  let u ← clip sums.u
  let v ← clip sums.v
  .ok ⟨y, u, v⟩

def toRgb (p : Yuv UInt8) : Run (Rgb UInt8) := do
  let sums := (p.map fun c => I32.of (widen c)).centre.weigh
  let r ← clip sums.r
  let g ← clip sums.g
  let b ← clip sums.b
  .ok ⟨r, g, b⟩

def mean (a b : UInt8) : Run UInt8 :=
  if a.toNat + b.toNat < 65536 then .ok (UInt8.ofNat ((a.toNat + b.toNat) >>> 1)) else .error .overflow

/-- shift the bits below its upper eight out of a sample -/
def reduce (bits : Nat) (v : UInt16) : Run UInt8 := do
  let n ← sub bits 8
  if n < 32 then .ok (clip8 (v.toNat >>> n : Nat) 255) else .error .shift

def byteSample (s : List UInt8) : Run UInt8 := fetch s 0

def wordSample (bits : Nat) (s : List UInt8) : Run UInt8 := do
  let hi ← fetch s 0
  let lo ← fetch s 1
  reduce bits (BigEndian.join hi lo)

/-! ## Packed pairs -/

/-- store a pair by the places that its order gives -/
def putPair (order : ByteOrder) (p : PixelPair) (d : List UInt8) : Run (List UInt8) :=
  match order with
  | .uyvy => do
    let d ← assign d 0 p.u
    let d ← assign d 1 p.y0
    let d ← assign d 2 p.v
    assign d 3 p.y1
  | .yuyv => do
    let d ← assign d 0 p.y0
    let d ← assign d 1 p.u
    let d ← assign d 2 p.y1
    assign d 3 p.v

/-- read a pair by the places that its order gives -/
def fetchPair (order : ByteOrder) (s : List UInt8) : Run PixelPair :=
  match order with
  | .uyvy => do
    let y0 ← fetch s 1
    let u ← fetch s 0
    let y1 ← fetch s 3
    let v ← fetch s 2
    .ok { y0 := y0, y1 := y1, u := u, v := v }
  | .yuyv => do
    let y0 ← fetch s 0
    let u ← fetch s 1
    let y1 ← fetch s 2
    let v ← fetch s 3
    .ok { y0 := y0, y1 := y1, u := u, v := v }

/-- pairs in their native order, copied or with each two bytes exchanged -/
def pairsFromYuv422 (order : ByteOrder) (src dst : List UInt8) : Run (List UInt8) :=
  match order with
  | .uyvy => copy src dst
  | .yuyv => eachChunk 2 2 src dst fun s d => do
    let second ← fetch s 1
    let d ← assign d 0 second
    let first ← fetch s 0
    assign d 1 first

/-- groups of four pixels as two pairs of one chroma -/
def pairsFromYuv411 (order : ByteOrder) (src dst : List UInt8) : Run (List UInt8) :=
  eachChunk 6 8 src dst fun s d => do
    let u ← fetch s 0
    let v ← fetch s 3
    let y0 ← fetch s 1
    let y1 ← fetch s 2
    let d ← within d 0 4 (putPair order { y0 := y0, y1 := y1, u := u, v := v })
    let y2 ← fetch s 4
    let y3 ← fetch s 5
    within d 4 d.length (putPair order { y0 := y2, y1 := y3, u := u, v := v })

def pairsFromYuv444 (order : ByteOrder) (src dst : List UInt8) : Run (List UInt8) :=
  eachChunk 6 4 src dst fun s d => do
    let u ← mean (← fetch s 0) (← fetch s 3)
    let v ← mean (← fetch s 2) (← fetch s 5)
    let y0 ← fetch s 1
    let y1 ← fetch s 4
    putPair order { y0 := y0, y1 := y1, u := u, v := v } d

def pixelFromRgb (step : Nat) (sample : List UInt8 → Run UInt8) (s : List UInt8) : Run (Yuv UInt8) := do
  let r ← sample (← slice s 0 step)
  let second ← mul 2 step
  let g ← sample (← slice s step second)
  let b ← sample (← slice s second s.length)
  toYuv ⟨r, g, b⟩

def pairsFromRgb (order : ByteOrder) (n : Nat) (sample : List UInt8 → Run UInt8) (src dst : List UInt8) :
    Run (List UInt8) := do
  let step := n / 3
  let two ← mul 2 n
  eachChunk two 4 src dst fun s d => do
    let p ← pixelFromRgb step sample (← slice s 0 n)
    let q ← pixelFromRgb step sample (← slice s n s.length)
    let u ← mean p.u q.u
    let v ← mean p.v q.v
    putPair order { y0 := p.y, y1 := q.y, u := u, v := v } d

/-- one row of grey samples of `n` bytes; a last sample that stands alone is paired with itself -/
def pairsFromMonoRow (order : ByteOrder) (n : Nat) (sample : List UInt8 → Run UInt8) (row dst : List UInt8) :
    Run (List UInt8) := do
  let two ← mul 2 n
  let sources ← chunks two row
  fillChunks 4 sources dst fun s d => do
    let y0 ← sample (← slice s 0 n)
    let last ← sub s.length n
    let y1 ← sample (← slice s last s.length)
    putPair order { y0 := y0, y1 := y1, u := 128, v := 128 } d

def paddedWidth (r : Request) : Run Nat :=
  if r.target = .yuv422 ∧ r.source.isColour = false then add r.width (r.width % 2) else .ok r.width

/-- the rows of an image of grey samples of `n` bytes -/
def pairsFromMono (r : Request) (n : Nat) (sample : List UInt8 → Run UInt8) (src dst : List UInt8) :
    Run (List UInt8) := do
  let srcStride ← mul n r.width
  let padded ← paddedWidth r
  let dstStride ← mul 2 padded
  eachChunk srcStride dstStride src dst (pairsFromMonoRow r.order n sample)

def pack422 (r : Request) (src dst : List UInt8) : Run (List UInt8) :=
  match r.source with
  | .yuv422 => pairsFromYuv422 r.order src dst
  | .yuv411 => pairsFromYuv411 r.order src dst
  | .yuv444 => pairsFromYuv444 r.order src dst
  | .rgb8 => pairsFromRgb r.order 3 byteSample src dst
  | .rgb16 => pairsFromRgb r.order 6 (wordSample r.bits) src dst
  | .mono8 | .raw8 => pairsFromMono r 1 byteSample src dst
  | .mono16 | .raw16 => pairsFromMono r 2 (wordSample r.bits) src dst
  | .mono16s | .rgb16s => .ok dst

/-! ## Single bytes -/

/-- a byte for each sample of two bytes -/
def reduceEach (bits : Nat) (src dst : List UInt8) : Run (List UInt8) := do
  let sources ← chunksExact 2 src
  fill sources dst (wordSample bits)

def packMono8 (r : Request) (src dst : List UInt8) : Run (List UInt8) :=
  match r.source with
  | .mono8 | .raw8 => copy src dst
  | .mono16 | .raw16 => reduceEach r.bits src dst
  | .mono16s | .rgb16s | .yuv411 | .yuv422 | .yuv444 | .rgb8 | .rgb16 => .ok dst

/-! ## Colours -/

def putRgb (p : Rgb UInt8) (d : List UInt8) : Run (List UInt8) := copy [p.r, p.g, p.b] d

def putYuv (p : Yuv UInt8) (d : List UInt8) : Run (List UInt8) := do
  let p ← toRgb p
  putRgb p d

def coloursFromYuv444 (src dst : List UInt8) : Run (List UInt8) :=
  eachChunk 3 3 src dst fun s d => do
    let y ← fetch s 1
    let u ← fetch s 0
    let v ← fetch s 2
    putYuv ⟨y, u, v⟩ d

def coloursFromYuv422 (order : ByteOrder) (src dst : List UInt8) : Run (List UInt8) :=
  eachChunk 4 6 src dst fun s d => do
    let p ← fetchPair order s
    let d ← within d 0 3 (putYuv ⟨p.y0, p.u, p.v⟩)
    within d 3 d.length (putYuv ⟨p.y1, p.u, p.v⟩)

def coloursFromYuv411 (src dst : List UInt8) : Run (List UInt8) :=
  eachChunk 6 12 src dst fun s d => do
    let u ← fetch s 0
    let v ← fetch s 3
    let y0 ← fetch s 1
    let d ← within d 0 3 (putYuv ⟨y0, u, v⟩)
    let y1 ← fetch s 2
    let d ← within d 3 6 (putYuv ⟨y1, u, v⟩)
    let y2 ← fetch s 4
    let d ← within d 6 9 (putYuv ⟨y2, u, v⟩)
    let y3 ← fetch s 5
    within d 9 12 (putYuv ⟨y3, u, v⟩)

def coloursFromBytes (src dst : List UInt8) : Run (List UInt8) :=
  fillChunks 3 src dst fun y d => putRgb (.grey y) d

def coloursFromWords (bits : Nat) (src dst : List UInt8) : Run (List UInt8) :=
  eachChunk 2 3 src dst fun s d => do
    let y ← wordSample bits s
    putRgb (.grey y) d

def packRgb8 (r : Request) (src dst : List UInt8) : Run (List UInt8) :=
  match r.source with
  | .rgb8 => copy src dst
  | .rgb16 => reduceEach r.bits src dst
  | .yuv444 => coloursFromYuv444 src dst
  | .yuv422 => coloursFromYuv422 r.order src dst
  | .yuv411 => coloursFromYuv411 src dst
  | .mono8 | .raw8 => coloursFromBytes src dst
  | .mono16 | .raw16 => coloursFromWords r.bits src dst
  | .mono16s | .rgb16s => .ok dst

/-! ## Requests -/

def bufferLength? (c : Coding) (w h : Nat) : Option Nat := do
  let area ← mul? w h
  let bits ← mul? area c.bitsPerPixel
  if bits % 8 ≠ 0 then none else some (bits / 8)

/-- the checks up to the length of the source -/
def checkSource (r : Request) : Except Refusal Nat := do
  require (r.target.Accepts r.source) (.unsupported r.source r.target.coding)
  require r.SizeFits (.dimensions r.width r.height)
  require (r.source.sampleBits = 16 → ValidDepth r.bits) (.parameter .bitDepth)
  requireSome (bufferLength? r.source r.width r.height) (.dimensions r.width r.height)

/-- the checks from the length of the destination on -/
def checkLengths (r : Request) (padded src srcLength dstLength : Nat) : Except Refusal Unit := do
  let dst ← requireSome (bufferLength? r.target.coding padded r.height) (.dimensions r.width r.height)
  requireLength src srcLength
  requireLength dst dstLength

def check (r : Request) (srcLength dstLength : Nat) : Run (Except Refusal Unit) :=
  match checkSource r with
  | .error e => .ok (.error e)
  | .ok src => do
    let padded ← paddedWidth r
    .ok (checkLengths r padded src srcLength dstLength)

/-- the loops of a target -/
def pack (r : Request) (src dst : List UInt8) : Run (List UInt8) :=
  match r.target with
  | .yuv422 => pack422 r src dst
  | .mono8 => packMono8 r src dst
  | .rgb8 => packRgb8 r src dst

def convert (r : Request) (src dst : Array UInt8) : Run (Outcome UInt8) := do
  match ← check r src.size dst.size with
  | .error e => .ok (.refused e dst)
  | .ok _ =>
    let out ← pack r src.toList dst.toList
    .ok (.written out.toArray)

/-! ## Stereo -/

/-- the pixels of one view -/
def stereoLength (w h srcLength dstLength : Nat) : Except Refusal Nat := do
  require (0 < w ∧ 0 < h) (.dimensions w h)
  let n ← requireSome (mul? w h) (.dimensions w h)
  let length ← requireSome (mul? n 2) (.dimensions w h)
  requireLength length srcLength
  requireLength length dstLength
  return n

/-- cut a destination in two and give each byte of a pair to its half -/
def splitPairs (n : Nat) (src dst : List UInt8) : Run (List UInt8) := do
  let top ← slice dst 0 n
  let bottom ← slice dst n dst.length
  let pairs ← chunksExact 2 src
  let written ← (pairs.zip (top.zip bottom)).mapM fun p => do
    let first ← fetch p.1 0
    let second ← fetch p.1 1
    .ok (first, second)
  .ok (written.map Prod.fst ++ top.drop written.length ++ (written.map Prod.snd ++ bottom.drop written.length))

def splitStereo (w h : Nat) (src dst : Array UInt8) : Run (Outcome UInt8) :=
  match stereoLength w h src.size dst.size with
  | .error e => .ok (.refused e dst)
  | .ok n => do
    let out ← splitPairs n src.toList dst.toList
    .ok (.written out.toArray)

end Imaging.Machine
