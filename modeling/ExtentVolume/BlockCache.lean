import ExtentVolume.Device

namespace ExtentVolume

structure Cell where
  content : Block
  dirty : Bool

/-- The data area in memory. A block is dirty from its first change until it has been written to the
device. -/
structure BlockCache where
  cells : Array Cell
  start : UInt64

namespace BlockCache

def fresh (start : UInt64) (count : UInt32) : BlockCache :=
  ⟨Array.replicate count.toNat ⟨.zero, false⟩, start⟩

def size (a : BlockCache) : Nat := a.cells.size * blockSize

def isDirty (a : BlockCache) : Bool := a.cells.any (·.dirty)

def byteAt (a : BlockCache) (address : Nat) : UInt8 :=
  match a.cells[address / blockSize]? with
  | some cell => cell.content[address % blockSize]?.getD 0
  | none => 0

/-- An access must end within the area, even if it is empty; addresses are 64-bit words. -/
def check (a : BlockCache) (address length : Nat) : Fallible VolumeError Unit := do
  let last ← word64 (address + length)
  if a.size < last.toNat then fail (.fault (.outsideData address (address + length) a.size))

def read (a : BlockCache) (address length : Nat) : Fallible VolumeError (List UInt8) := do
  a.check address length
  return (List.range length).map fun i => a.byteAt (address + i)

def setByte (cells : Array Cell) (address : Nat) (byte : UInt8) : Array Cell :=
  cells.modify (address / blockSize) fun c =>
    ⟨c.content.setIfInBounds (address % blockSize) byte, true⟩

def setBytes (cells : Array Cell) : (address : Nat) → List UInt8 → Array Cell
  | _, [] => cells
  | address, byte :: rest => setBytes (setByte cells address byte) (address + 1) rest

/-- Replaces bytes and makes the blocks that they lie in dirty. -/
def write (a : BlockCache) (address : Nat) (bytes : List UInt8) : Fallible VolumeError BlockCache := do
  a.check address bytes.length
  return { a with cells := setBytes a.cells address bytes }

def markBlocks (cells : Array Cell) (first : Nat) : (count : Nat) → Array Cell
  | 0 => cells
  | count + 1 => (markBlocks cells first count).modify (first + count) ({ · with dirty := true })

def touch (a : BlockCache) (address length : Nat) : Fallible VolumeError BlockCache := do
  a.check address length
  if length = 0 then return a
  let first := address / blockSize
  let last := (address + length - 1) / blockSize
  return { a with cells := markBlocks a.cells first (last + 1 - first) }

def zeroBlocks (cells : Array Cell) (first : Nat) : (count : Nat) → Array Cell
  | 0 => cells
  | count + 1 => (zeroBlocks cells first count).modify (first + count) fun _ => ⟨.zero, true⟩

/-- Fills an extent with zeros, so that nothing of what its blocks held before can be read. -/
def zeroExtent (a : BlockCache) (e : Extent) : Fallible VolumeError BlockCache := do
  a.check e.byteStart e.byteLength
  return { a with cells := zeroBlocks a.cells e.start.toNat e.count.toNat }

variable {D : Type} [BlockDevice D]

def load (d : D) (start : UInt64) (count : UInt32) : Fallible DeviceError BlockCache := do
  let blocks ← BlockDevice.fetchRun d start count.toNat
  return ⟨(blocks.map fun b => ⟨b, false⟩).toArray, start⟩

def syncBlock (i : Nat) : Action DeviceError (BlockCache × D) Unit := do
  let (a, _) ← get
  match a.cells[i]? with
  | some ⟨content, true⟩ =>
    Action.within Prod.snd (fun s d => (s.1, d)) (BlockDevice.store a.start i content)
    modify fun (a, d) => ({ a with cells := a.cells.modify i ({ · with dirty := false }) }, d)
  | _ => return

/-- Writes the dirty blocks in ascending order. It stops at the first that the device refuses; that
one and those behind it stay dirty. -/
def sync : Action DeviceError (BlockCache × D) Unit := do
  let (a, _) ← get
  (List.range a.cells.size).forM syncBlock

end BlockCache

end ExtentVolume
