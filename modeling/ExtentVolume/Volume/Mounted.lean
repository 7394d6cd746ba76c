import ExtentVolume.Volume

namespace ExtentVolume

structure Mounted (D : Type) where
  volume : Volume
  disk : D

namespace Volume

def blank (deviceBlocks : Nat) (g : Geometry) (id : VolumeId) (now : Int64) :
    Fallible VolumeError Volume := do
  refuseIf (g.inodes ≤ SuperBlock.rootNumber ∨ g.blocks = 0) .noSpace
  refuseIf (deviceBlocks < g.deviceBlocks) .noSpace
  let superBlock := SuperBlock.ofGeometry g id now
  return {
    superBlock
    space :=
      .fresh g.blocks g.inodes superBlock.inodeBitmapStart superBlock.blockBitmapStart
    table := .fresh g.inodes superBlock.inodeTableStart
    data := .fresh superBlock.dataStart g.blocks }

def makeRoot (now : Int64) : Action VolumeError Volume Unit := do
  let root ← createInode default Mode.defaultDirectory now
  Action.refuseIf (root.number ≠ SuperBlock.rootNumber) (.fault (.rootElsewhere root.number))
  modifyRecord SuperBlock.rootNumber ({ · with links := 2 })

variable {D : Type} [BlockDevice D]

/-- Reads a volume from a device. The counters of free blocks and inodes are taken from the
bitmaps, not from the superblock. -/
def mount (d : D) : Fallible VolumeError Volume := do
  let superBlock ← SuperBlock.load d
  let space ← (FreeSpace.load d superBlock.inodeCount superBlock.blockCount
    superBlock.inodeBitmapStart superBlock.blockBitmapStart).restate .device
  let table ← InodeTable.load d superBlock.inodeCount superBlock.inodeTableStart
  let data ← (BlockCache.load d superBlock.dataStart superBlock.blockCount).restate .device
  if (table.get? superBlock.root).any (·.isDirectory) then
    return { superBlock, space, table, data }
  else fail (.corrupted .rootMissing)

end Volume

namespace Mounted

variable {D : Type} [BlockDevice D]

def onVolume {ε α : Type} (x : Action ε Volume α) : Action ε (Mounted D) α :=
  Action.within Mounted.volume (fun m volume => { m with volume }) x

def onDisk {α : Type} (x : Action DeviceError D α) : Action VolumeError (Mounted D) α :=
  (Action.within Mounted.disk (fun m disk => { m with disk }) x).restate .device

/-- Writes back the metadata and the dirty blocks of the data area. -/
def sync : Action VolumeError (Mounted D) Unit := do
  onVolume (modify fun v => { v with superBlock := { v.superBlock with
    freeInodes := v.space.inodes.free
    freeBlocks := v.space.blocks.free } })
  let v := (← get).volume
  onDisk v.superBlock.sync
  onDisk v.space.sync
  onDisk v.table.sync
  (Action.within (fun m => (m.volume.data, m.disk))
    (fun m (data, disk) => ⟨{ m.volume with data }, disk⟩) BlockCache.sync).restate .device

/-- Replaces a volume by an empty one. Options that the device has no room for change nothing. -/
def reformat (g : Geometry) (id : VolumeId) (now : Int64) :
    Action VolumeError (Mounted D) Unit := do
  let volume ← Volume.blank (BlockDevice.blockCount (← get).disk) g id now
  modify ({ · with volume })
  onVolume (Volume.makeRoot now)
  sync

end Mounted

namespace Volume

def format {D : Type} [BlockDevice D] (g : Geometry) (id : VolumeId) (now : Int64) :
    Action VolumeError D Volume := do
  let volume ← blank (BlockDevice.blockCount (← get)) g id now
  let finish : Action VolumeError (Mounted D) Volume := do
    Mounted.onVolume (makeRoot now)
    Mounted.sync
    return (← get).volume
  Action.within (⟨volume, ·⟩) (fun _ m => m.disk) finish

end Volume

end ExtentVolume
