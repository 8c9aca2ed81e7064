import Udpfsd.Fs.Cso
import Udpfsd.Fs.Zso

/-!
# The container formats together

What `compression.Open` chooses from in a build without CHD: the decoders of packages `zso`
and `cso` behind one `BlockReader`.
-/

namespace Udpfsd.Fs

open Udprdma (Byte)

variable {η φ α ρ : Type}

/-- A format whose decoder is one of several. -/
def Format.map (wrap : α → ρ) (F : Format η α) : Format η ρ where
  extensions := F.extensions
  openImage path h := do
    let (r, h) ← F.openImage path h
    return (r.map wrap, h)
  getStat := F.getStat

/-- A format that is not built in. -/
def Format.none : Format η ρ where
  extensions := []
  openImage _ h := .ok (.error .other, h)
  getStat _ _ := Option.none

/-- The decoders that implement `compression.BlockReader`. -/
inductive Decoder (φ : Type)
  /-- A `ZSO`. -/
  | zso (z : Zso φ)
  /-- A `CSO`. -/
  | cso (c : Cso φ)

namespace Decoder

variable (os : OS η φ) (flate zlib : List Byte → Option (List Byte)) (lz4 : UncompressBlock)

/-- `compression.BlockReader`. -/
def reader : BlockReader η (Decoder φ) where
  readBlock
    | .zso z, blockIdx, h => do
      let (r, z, h) ← (Zso.reader os lz4).readBlock z blockIdx h
      return (r, .zso z, h)
    | .cso c, blockIdx, h => do
      let (r, c, h) ← (Cso.reader os flate zlib).readBlock c blockIdx h
      return (r, .cso c, h)
  blockSize
    | .zso z => z.blockSize
    | .cso c => c.blockSize
  numBlocks
    | .zso z => z.numBlocks
    | .cso c => c.numBlocks
  uncompressedSize
    | .zso z => z.size
    | .cso c => c.size
  close
    | .zso z, h => os.close z.f h
    | .cso c, h => os.close c.f h

/-- The backend's platform in a build without CHD. -/
def platform : Platform η φ (Decoder φ) where
  os := os
  reader := reader os flate zlib lz4
  zso := (Zso.format os).map .zso
  cso := (Cso.format os).map .cso
  chd := Format.none

end Decoder

/-- The container formats on the small host, with decoders that decode nothing. -/
def Backend.hostPlatform : Platform Host OsFile (Decoder OsFile) :=
  Decoder.platform Host.os (fun _ => none) (fun _ => none) (fun _ _ => none)

end Udpfsd.Fs
