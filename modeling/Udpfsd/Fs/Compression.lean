import Mathlib.Data.List.AList
import Udpfsd.Fs.Platform

/-!
# Reading compressed images

`CachedReader` gives a compressed image the face of a file: it keeps a position, cuts a
read at block boundaries and holds decoded blocks in a cache of bounded size. The
`info` it reports is the one it was made with.
-/

namespace Udpfsd.Fs

open Udprdma (Byte)
open Udpfs (Error Fault FileInfo)

/-- `blockCache`. -/
structure BlockCache where
  /-- The cached blocks. -/
  data : AList (fun _ : ℤ => Block)
  /-- Their indices, the least recently used first. -/
  order : List ℤ
  /-- The capacity. -/
  max : ℤ

namespace BlockCache

/-- `newBlockCache`. -/
def new (maxBlocks : ℤ) : BlockCache := ⟨∅, [], maxBlocks⟩

/-- `get`. A hit moves the index to the end of the order. -/
def get (c : BlockCache) (idx : ℤ) : Option Block × BlockCache :=
  match c.data.lookup idx with
  | none => (none, c)
  | some b =>
    (some b, if idx ∈ c.order then { c with order := c.order.erase idx ++ [idx] } else c)

/-- The loop of `put` that makes room, over the order. -/
def evict (max : ℤ) : AList (fun _ : ℤ => Block) → List ℤ → AList (fun _ : ℤ => Block) × List ℤ
  | data, [] => (data, [])
  | data, idx :: rest =>
    if max ≤ data.entries.length then evict max (data.erase idx) rest else (data, idx :: rest)

/-- `put`. -/
def put (c : BlockCache) (idx : ℤ) (b : Block) : BlockCache :=
  let (data, order) := evict c.max c.data c.order
  { c with data := data.insert idx b, order := order ++ [idx] }

end BlockCache

/-- `CachedReader`. -/
structure CachedReader (ρ : Type) where
  /-- The decoder. -/
  br : ρ
  /-- What `Stat` and `Name` report. -/
  info : CompressedInfo
  /-- The cache. -/
  cache : BlockCache
  /-- The block size. -/
  blockSize : ℤ
  /-- The number of blocks. -/
  numBlocks : ℤ
  /-- The size of the image. -/
  size : ℤ
  /-- The position. -/
  pos : ℤ

/-- `NewCachedReader`. -/
def newCachedReader {η ρ : Type} (R : BlockReader η ρ) (br : ρ) (cacheSize : ℤ)
    (info : CompressedInfo) : CachedReader ρ where
  br := br
  info := info
  cache := .new (if cacheSize ≤ 0 then 32 else cacheSize)
  blockSize := R.blockSize br
  numBlocks := R.numBlocks br
  size := R.uncompressedSize br
  pos := 0

namespace CachedReader

variable {η ρ : Type} (R : BlockReader η ρ)

/-- `getBlock`. -/
def getBlock (c : CachedReader ρ) (blockIdx : ℤ) (h : η) :
    Except Fault (Except Error Block × CachedReader ρ × η) :=
  match c.cache.get blockIdx with
  | (some b, cache) => .ok (.ok b, { c with cache := cache }, h)
  | (none, cache) => do
    let (r, br, h) ← R.readBlock c.br blockIdx h
    let c := { c with cache := cache, br := br }
    match r with
    | .error err => return (.error err, c, h)
    | .ok b => return (.ok b, { c with cache := c.cache.put blockIdx b }, h)

/-- The size of a block as the loop of `Read` computes it: the last one may be short. -/
def lastBlockSize (c : CachedReader ρ) (blockIdx : ℤ) : ℤ :=
  if blockIdx = c.numBlocks - 1 ∧ c.size.tmod c.blockSize ≠ 0 then c.size.tmod c.blockSize
  else c.blockSize

/-- The part of the loop body of `Read` that copies `toRead` bytes of a block. -/
def copyPart (c : CachedReader ρ) (blockIdx offsetInBlock toRead : ℤ) (h : η) :
    Except Fault (Option (Except Error (List Byte)) × CachedReader ρ × η) := do
  let (r, c, h) ← c.getBlock R blockIdx h
  match r with
  | .error err => return (some (.error err), c, h)
  | .ok b =>
    let memory := b.bytes ++ b.spare
    if offsetInBlock < 0 ∨ (memory.length : ℤ) < offsetInBlock + toRead then .error .sliceBounds
    else
      let part := (memory.drop offsetInBlock.toNat).take toRead.toNat
      return (some (.ok part), { c with pos := c.pos + toRead }, h)

/-- One round of the loop of `Read`, with `n` bytes of the buffer left to fill: the part
it copies or the error it meets, or none when the loop ends. -/
def readRound (c : CachedReader ρ) (n : ℕ) (h : η) :
    Except Fault (Option (Except Error (List Byte)) × CachedReader ρ × η) :=
  if n = 0 ∨ c.size ≤ c.pos then .ok (none, c, h)
  else if c.blockSize = 0 then .error .divideByZero
  else
    let blockIdx := c.pos.tdiv c.blockSize
    let offsetInBlock := c.pos.tmod c.blockSize
    let avail := c.lastBlockSize blockIdx - offsetInBlock
    if avail ≤ 0 then .ok (none, c, h)
    else c.copyPart R blockIdx offsetInBlock (min (n : ℤ) avail) h

/-- The loop of `Read`, with `read` copied so far. Every round copies at least one byte,
so `n` rounds are enough. -/
def readLoop : ℕ → CachedReader ρ → ℕ → List Byte → η →
    Except Fault ((List Byte × Option Error) × CachedReader ρ × η)
  | 0, c, _, read, h => .ok ((read, none), c, h)
  | fuel + 1, c, n, read, h => do
    let (r, c, h) ← c.readRound R n h
    match r with
    | none => return ((read, none), c, h)
    | some (.error err) => return ((read, some err), c, h)
    | some (.ok part) => readLoop fuel c (n - part.length) (read ++ part) h

/-- `Read` into a buffer of `n` bytes. -/
def read (c : CachedReader ρ) (n : ℕ) (h : η) :
    Except Fault ((List Byte × Option Error) × CachedReader ρ × η) :=
  if c.size ≤ c.pos then .ok (([], some .eof), c, h)
  else
    let n := if c.size - c.pos < n then (c.size - c.pos).toNat else n
    readLoop R n c n [] h

/-- `Write`, which drops the data and reports no bytes written. -/
def write (c : CachedReader ρ) (_data : List Byte) : (ℤ × Option Error) × CachedReader ρ :=
  ((0, none), c)

/-- The position of `Seek` brought back into the image. -/
def clamp (c : CachedReader ρ) (pos : ℤ) : ℤ :=
  let pos := if pos < 0 then 0 else pos
  if c.size < pos then c.size else pos

/-- `Seek`. -/
def seek (c : CachedReader ρ) (offset whence : ℤ) : (ℤ × Option Error) × CachedReader ρ :=
  let move (pos : ℤ) : (ℤ × Option Error) × CachedReader ρ :=
    ((c.clamp pos, none), { c with pos := c.clamp pos })
  if whence = 0 then move offset
  else if whence = 1 then move (int64 (c.pos + offset))
  else if whence = 2 then move (int64 (c.size + offset))
  else ((c.pos, some .other), c)

end CachedReader

variable {η φ ρ : Type} (P : Platform η φ ρ)

/-- The part of `compression.Open` that picks the decoder by the extension. -/
def openReader (path : Path) (h : η) : Except Fault (Except Error ρ × η) :=
  let ext := path.ext.toLower
  if ext ∈ P.zso.extensions then P.zso.openImage path h
  else if ext ∈ P.cso.extensions then P.cso.openImage path h
  else if ext ∈ P.chd.extensions then P.chd.openImage path h
  else .ok (.error .other, h)

/-- `compression.Open`: the wrapper, or none when the image cannot be opened. The info
it is given is empty. -/
def openCompressed (path : Path) (cacheSize : ℤ) (h : η) :
    Except Fault (Option (CachedReader ρ) × η) := do
  let (r, h) ← openReader P path h
  match r with
  | .error _ => return (none, h)
  | .ok br => return (some (newCachedReader P.reader br cacheSize .zero), h)

/-- `compression.GetSupportedExtensions`. -/
def getSupportedExtensions : List Path :=
  P.cso.extensions ++ P.zso.extensions ++ P.chd.extensions

/-- `compression.GetStat`. -/
def getCompressedStat (path : Path) (h : η) : Option CompressedInfo :=
  let ext := path.ext.toLower
  if ext ∈ P.zso.extensions then P.zso.getStat path h
  else if ext ∈ P.cso.extensions then P.cso.getStat path h
  else if ext ∈ P.chd.extensions then P.chd.getStat path h
  else none

end Udpfsd.Fs
