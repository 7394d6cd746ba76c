import ExtentVolume.Bitmap

namespace ExtentVolume

structure FreeSpace where
  inodes : Bitmap
  blocks : Bitmap

def Bitmap.releaseRun (b : Bitmap) (start : Nat) : (count : Nat) → Checked Bitmap
  | 0 => .ok b
  | count + 1 => do (← b.releaseRun start count).release (.ofNat (start + count))

namespace Inode

/-- Adds an extent of exactly `count` blocks, the leftmost free run of that length, to a record, and
marks its blocks. A run is looked for before a slot. -/
def allocateExtent (count : UInt32) : Action VolumeError (Inode × Bitmap) Extent := do
  let (node, blocks) ← get
  let some start := blocks.findRun count | Action.fail .noSpace
  let extent : Extent := ⟨start, count⟩
  let some (_, extents) ← node.extents.push extent | Action.fail .noExtentSlots
  let node := { node with extents }
  set (node, blocks)
  let blocks ← blocks.markRun start count
  set (node, blocks)
  let size ← word32 (node.blocks.toNat + count.toNat)
  set ({ node with blocks := size }, blocks)
  return extent

/-- Gives back the blocks of every extent, as far as the bitmap reaches, and clears the slots. -/
def releaseExtents (node : Inode) (blocks : Bitmap) : Checked (List Extent × Inode × Bitmap) := do
  let extents := node.extents.inUse
  let released ← extents.foldlM (fun b e =>
    b.releaseRun e.start.toNat (min e.endBlock blocks.total.toNat - e.start.toNat)) blocks
  return (extents, { node with extents := .empty, blocks := 0 }, released)

end Inode

namespace FreeSpace

/-- Inode 0 is in use from the start: its number marks an empty place. -/
def fresh (blockCount inodeCount : UInt32) (inodeStart blockStart : UInt64) : FreeSpace :=
  ⟨.fresh 1 inodeCount inodeStart, .fresh 0 blockCount blockStart⟩

def allocateInode (a : FreeSpace) : Fallible VolumeError (UInt32 × FreeSpace) := do
  let some (number, inodes) ← a.inodes.take | fail .noSpace
  return (number, { a with inodes })

def allocateBlock (a : FreeSpace) : Fallible VolumeError (UInt32 × FreeSpace) := do
  let some (block, blocks) ← a.blocks.takeByBytes | fail .noSpace
  return (block, { a with blocks })

def freeInode (a : FreeSpace) (number : UInt32) : Checked FreeSpace := do
  return { a with inodes := ← a.inodes.release number }

def freeBlock (a : FreeSpace) (block : UInt32) : Checked FreeSpace := do
  return { a with blocks := ← a.blocks.release block }

variable {D : Type} [BlockDevice D]

def load (d : D) (inodeCount blockCount : UInt32) (inodeStart blockStart : UInt64) :
    Fallible DeviceError FreeSpace := do
  return ⟨← Bitmap.load d 1 inodeCount inodeStart, ← Bitmap.load d 0 blockCount blockStart⟩

def sync (a : FreeSpace) : Action DeviceError D Unit := do
  a.inodes.sync
  a.blocks.sync

end FreeSpace

end ExtentVolume
