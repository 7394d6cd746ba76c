import ExtentVolume.Block
import ExtentVolume.Codec
import ExtentVolume.Outcome

namespace ExtentVolume

structure Extent where
  start : UInt32
  count : UInt32
deriving DecidableEq, Inhabited

namespace Extent

def empty : Extent := ⟨0, 0⟩

def isEmpty (e : Extent) : Bool := e.count == 0

def byteLength (e : Extent) : Nat := e.count.toNat * blockSize

def byteStart (e : Extent) : Nat := e.start.toNat * blockSize

def endBlock (e : Extent) : Nat := e.start.toNat + e.count.toNat

open Codec in
instance : Stored Extent where
  width := 8
  encode e := encode e.start ++ encode e.count
  decoder := return { start := ← decoder, count := ← decoder }

end Extent

/-- Where an offset lies: its address in the data area, and the bytes from there to the end of the
extent. -/
structure Mapping where
  physical : Nat
  available : Nat
deriving DecidableEq

def locate : List Extent → Nat → Option Mapping
  | [], _ => none
  | e :: rest, offset =>
    if offset < e.byteLength then some ⟨e.byteStart + offset, e.byteLength - offset⟩
    else locate rest (offset - e.byteLength)

/-- The block of the data area that holds the block of a file with this number. -/
def blockAt : List Extent → (number : Nat) → Option Nat
  | [], _ => none
  | e :: rest, number =>
    if number < e.count.toNat then some (e.start.toNat + number)
    else blockAt rest (number - e.count.toNat)

def blockTotal : List Extent → Nat
  | [] => 0
  | e :: rest => e.count.toNat + blockTotal rest

def withOffsets : Nat → List Extent → List (Nat × Extent)
  | _, [] => []
  | offset, e :: rest => (offset, e) :: withOffsets (offset + e.byteLength) rest

/-- The extent slots of an inode, and the number of slots in use as the inode states it. -/
structure ExtentMap where
  slots : Vector Extent 4
  stated : UInt32
deriving DecidableEq

namespace ExtentMap

def empty : ExtentMap := ⟨Vector.replicate 4 .empty, 0⟩

instance : Inhabited ExtentMap := ⟨empty⟩

/-- Goes by the stated number alone. -/
def isEmpty (m : ExtentMap) : Bool := m.stated == 0

def inUse (m : ExtentMap) : List Extent := m.slots.toList.filter (!·.isEmpty)

def freeSlot? (m : ExtentMap) : Option (Fin 4) :=
  (List.finRange 4).find? fun i => m.slots[i].isEmpty

def freeSlots (m : ExtentMap) : Nat := m.slots.toList.countP (·.isEmpty)

/-- Puts an extent into the first free slot; there is no result when every slot is in use. -/
def push (m : ExtentMap) (e : Extent) : Checked (Option (Fin 4 × ExtentMap)) := do
  match m.freeSlot? with
  | none => return none
  | some i => return some (i, ⟨m.slots.set i e, ← word32 (m.stated.toNat + 1)⟩)

def capacity (m : ExtentMap) : Nat := m.inUse.foldr (fun e n => e.byteLength + n) 0

def totalBlocks (m : ExtentMap) : UInt32 :=
  .ofNat (min (blockTotal m.inUse) (UInt32.size - 1))

def locate (m : ExtentMap) (offset : Nat) : Option Mapping := ExtentVolume.locate m.inUse offset

def withOffsets (m : ExtentMap) : List (Nat × Extent) := ExtentVolume.withOffsets 0 m.inUse

open Codec in
instance : Stored ExtentMap where
  width := 36
  encode m := (m.slots.toList.map encode).flatten ++ encode m.stated
  decoder := return {
    slots := #v[← decoder, ← decoder, ← decoder, ← decoder]
    stated := ← decoder }

end ExtentMap

end ExtentVolume
