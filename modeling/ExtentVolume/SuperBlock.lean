import ExtentVolume.Geometry
import ExtentVolume.VolumeId

namespace ExtentVolume

structure SuperBlock where
  magic : UInt64
  blockSize : UInt32
  blockCount : UInt32
  freeBlocks : UInt32
  dataStart : UInt64
  inodeCount : UInt32
  freeInodes : UInt32
  inodeTableStart : UInt64
  root : UInt32
  inodeBitmapStart : UInt64
  blockBitmapStart : UInt64
  id : VolumeId
  created : Int64
deriving DecidableEq

namespace SuperBlock

def magicNumber : UInt64 := 0x455854465331

def rootNumber : UInt32 := 1

def ofGeometry (g : Geometry) (id : VolumeId) (now : Int64) : SuperBlock :=
  { magic := magicNumber
    blockSize := .ofNat ExtentVolume.blockSize
    blockCount := g.blocks
    freeBlocks := g.blocks
    dataStart := .ofNat g.dataStart
    inodeCount := g.inodes
    freeInodes := .ofNat (g.inodes.toNat - 1)
    inodeTableStart := .ofNat g.inodeTableStart
    root := rootNumber
    inodeBitmapStart := .ofNat Geometry.inodeBitmapStart
    blockBitmapStart := .ofNat g.blockBitmapStart
    id
    created := now }

def geometry (s : SuperBlock) : Geometry := ⟨s.blockCount, s.inodeCount⟩

def deviceBlocks (s : SuperBlock) : Nat := s.dataStart.toNat + s.blockCount.toNat

open Codec in
instance : Stored SuperBlock where
  width := 88
  encode s :=
    encode s.magic ++ encode s.blockSize ++ encode s.blockCount ++ encode s.freeBlocks ++
      encode s.dataStart ++ encode s.inodeCount ++ encode s.freeInodes ++
      encode s.inodeTableStart ++ encode s.root ++ encode s.inodeBitmapStart ++
      encode s.blockBitmapStart ++ encode s.id.bytes ++ encode s.created
  decoder := return {
    magic := ← decoder, blockSize := ← decoder, blockCount := ← decoder
    freeBlocks := ← decoder, dataStart := ← decoder, inodeCount := ← decoder
    freeInodes := ← decoder, inodeTableStart := ← decoder, root := ← decoder
    inodeBitmapStart := ← decoder, blockBitmapStart := ← decoder, id := ⟨← decoder⟩
    created := ← decoder }

/-- What is wrong with a superblock on a device of so many blocks. -/
def corruption? (s : SuperBlock) (deviceBlocks : Nat) : Option Corruption :=
  if s.magic ≠ magicNumber then some (.badMagic s.magic)
  else if s.blockSize.toNat ≠ ExtentVolume.blockSize then some (.blockSize s.blockSize)
  else if s.dataStart.toNat ≠ s.geometry.dataStart ∨
      s.inodeTableStart.toNat ≠ s.geometry.inodeTableStart then some .layoutMismatch
  else if deviceBlocks < s.deviceBlocks then some (.deviceTooSmall s.deviceBlocks deviceBlocks)
  else none

variable {D : Type} [BlockDevice D]

def load (d : D) : Fallible VolumeError SuperBlock := do
  let b ← (BlockDevice.fetch d 0 0).restate .device
  match Codec.decode (α := SuperBlock) b.toList with
  | .error e => fail (.corrupted (.encoding e))
  | .ok s => match s.corruption? (BlockDevice.blockCount d) with
    | some c => fail (.corrupted c)
    | none => return s

def sync (s : SuperBlock) : Action DeviceError D Unit :=
  BlockDevice.store 0 0 (.ofBytes (Codec.encode s))

end SuperBlock

end ExtentVolume
