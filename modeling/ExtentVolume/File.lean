import ExtentVolume.OpenInode

namespace ExtentVolume

namespace Inode

def readExtents (data : BlockCache) :
    List Extent → (offset length : Nat) → Fallible VolumeError (List UInt8)
  | [], _, _ => return []
  | e :: rest, offset, length =>
    if length = 0 then return []
    else if offset < e.byteLength then do
      let here := min length (e.byteLength - offset)
      let bytes ← data.read (e.byteStart + offset) here
      return bytes ++ (← readExtents data rest 0 (length - here))
    else readExtents data rest (offset - e.byteLength) length

/-- At most `length` bytes from an offset on, neither behind the end of the file nor behind the end
of its extents. -/
def read (node : Inode) (data : BlockCache) (offset length : Nat) :
    Fallible VolumeError (List UInt8) :=
  if node.extents.isEmpty ∨ node.size.toNat ≤ offset then return []
  else readExtents data node.extents.inUse offset (min length (node.size.toNat - offset))

def fillFrom (data : BlockCache) :
    List (Nat × Extent) → (position done length : Nat) → Action VolumeError (List UInt8) Nat
  | [], _, done, _ => return done
  | (start, e) :: rest, position, done, length =>
    if done = length then return done
    else if start ≤ position ∧ position < start + e.byteLength then do
      let here := min (length - done) (start + e.byteLength - position)
      let bytes ← data.read (e.byteStart + (position - start)) here
      modify fun buffer => buffer.take done ++ bytes ++ buffer.drop (done + here)
      fillFrom data rest (position + here) (done + here) length
    else fillFrom data rest position done length

/-- Reads from an offset on into the front of a buffer, as much as it holds. What was copied before
an error stays in the buffer. -/
def readInto (node : Inode) (data : BlockCache) (offset : Nat) :
    Action VolumeError (List UInt8) Nat := do
  let length := min (← get).length (node.size.toNat - offset)
  if node.extents.isEmpty ∨ node.size.toNat ≤ offset then return 0
  else fillFrom data node.extents.withOffsets offset 0 length

def readAll (node : Inode) (data : BlockCache) : Fallible VolumeError (List UInt8) := do
  if UInt64.size / 2 ≤ node.size.toNat then throw (.trap .capacityExceeded)
  let bytes ← node.read data 0 node.size.toNat
  if bytes.length ≠ node.size.toNat then
    fail (.fault (.unmappedTail node.number node.size bytes.length))
  return bytes

end Inode

namespace OpenInode

structure Copied where
  inode : OpenInode
  written : Nat
  stopped : Option (Stop VolumeError)

/-- Copies bytes to an offset, extent by extent. Wherever the extents end, one of a single block is
added. -/
def copy (w : OpenInode) (offset : Nat) (bytes : List UInt8) : Copied :=
  if bytes.isEmpty then ⟨w, 0, none⟩
  else match _hm : w.node.extents.locate offset with
    | none => match _hw : addExtent 1 w with
      | .ok _ w' => w'.copy offset bytes
      | .error stop w' => ⟨w', 0, some stop⟩
    | some m =>
      let here := min bytes.length m.available
      match w.data.write m.physical (bytes.take here) with
      | .error stop => ⟨w, 0, some stop⟩
      | .ok data =>
        let size := .ofNat (max w.node.size.toNat (offset + here))
        let rest := copy { w with data, node := { w.node with size } } (offset + here)
          (bytes.drop here)
        { rest with written := here + rest.written }
termination_by bytes.length + w.node.extents.freeSlots
decreasing_by
  · have := freeSlots_addExtent _hw
    omega
  · have := locate_available_pos _hm
    have : bytes ≠ [] := by simp_all
    have := List.length_pos_iff.2 this
    simp
    omega

def ensureExtent : Action VolumeError OpenInode Unit := do
  if (← get).node.extents.isEmpty then
    let _ ← addExtent 1

/-- Writes bytes at an offset. The size grows as needed and never shrinks, and bytes that were
written before a failure stay. A file whose record states no extent gets one even for no bytes. -/
def write (now : Int64) (offset : Nat) (bytes : List UInt8) :
    Action WriteFailure OpenInode Nat := do
  ensureExtent.restate (⟨0, ·⟩)
  let copied := (← get).copy offset bytes
  set (if copied.written = 0 then copied.inode else copied.inode.touch now)
  match copied.stopped with
  | none => return copied.written
  | some stop => throw (stop.map (⟨copied.written, ·⟩))

end OpenInode

end ExtentVolume
