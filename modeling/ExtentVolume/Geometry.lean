import ExtentVolume.Bitmap
import ExtentVolume.InodeTable

namespace ExtentVolume

/-- How many data blocks a volume has, and how many inodes, inode 0 among them. -/
structure Geometry where
  blocks : UInt32
  inodes : UInt32
deriving DecidableEq

instance : Inhabited Geometry := ⟨⟨4096, 1024⟩⟩

namespace Geometry

variable (g : Geometry)

def inodeBitmapStart : Nat := 1

def blockBitmapStart : Nat := inodeBitmapStart + Bitmap.regionSize g.inodes

def inodeTableStart : Nat := g.blockBitmapStart + Bitmap.regionSize g.blocks

def dataStart : Nat := g.inodeTableStart + InodeTable.regionSize g.inodes

def deviceBlocks : Nat := g.dataStart + g.blocks.toNat

end Geometry

end ExtentVolume
