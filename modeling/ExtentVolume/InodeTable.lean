import ExtentVolume.Device

namespace ExtentVolume

structure InodeTable where
  records : Array Inode
  total : UInt32
  start : UInt64

namespace InodeTable

def fresh (total : UInt32) (start : UInt64) : InodeTable :=
  ⟨Array.replicate total.toNat .blank, total, start⟩

def get? (t : InodeTable) (number : UInt32) : Option Inode :=
  if number = 0 ∨ t.total ≤ number then none else t.records[number.toNat]?

def set (t : InodeTable) (number : UInt32) (node : Inode) : InodeTable :=
  { t with records := t.records.setIfInBounds number.toNat node }

def regionSize (total : UInt32) : Nat := blocksFor (total.toNat * Inode.slotSize)

/-- The records in the blocks from an index on; `count` are still to come. -/
def loadFrom {D : Type} [BlockDevice D] (d : D) (start : UInt64) :
    (blocks index count : Nat) → Fallible VolumeError (List Inode)
  | 0, _, _ => return []
  | blocks + 1, index, count => do
    let b ← (BlockDevice.fetch d start index).restate .device
    let here := min count Inode.slotsPerBlock
    match (Codec.decodeSlots Inode.slotSize here b.toList : Except CodecError (List Inode)) with
    | .ok nodes => return nodes ++ (← loadFrom d start blocks (index + 1) (count - here))
    | .error e => fail (.corrupted (.encoding e))

def load {D : Type} [BlockDevice D] (d : D) (total : UInt32) (start : UInt64) :
    Fallible VolumeError InodeTable := do
  let records ← loadFrom d start (regionSize total) 0 total.toNat
  return ⟨records.toArray, total, start⟩

def blocksOf : (count : Nat) → List Inode → List Block
  | 0, _ => []
  | count + 1, nodes =>
    .ofBytes ((nodes.take Inode.slotsPerBlock).flatMap (Codec.slotBytes Inode.slotSize)) ::
      blocksOf count (nodes.drop Inode.slotsPerBlock)

def sync {D : Type} [BlockDevice D] (t : InodeTable) : Action DeviceError D Unit :=
  BlockDevice.storeRun t.start 0
    (blocksOf (blocksFor (t.records.size * Inode.slotSize)) t.records.toList)

end InodeTable

end ExtentVolume
