import ExtentVolume.Extent

namespace ExtentVolume

inductive FileKind where
  | file
  | directory
  | symlink
deriving DecidableEq

/-- The kind of a file in the high bits and its permissions in the nine lowest. -/
structure Mode where
  bits : UInt16
deriving DecidableEq, Inhabited

namespace Mode

def kind? (m : Mode) : Option FileKind :=
  match m.bits &&& 0xf000 with
  | 0x8000 => some .file
  | 0x4000 => some .directory
  | 0xa000 => some .symlink
  | _ => none

def permissions (m : Mode) : UInt16 := m.bits &&& 0x1ff

def rwx (m : Mode) : String :=
  String.ofList (("rwxrwxrwx".toList.zipIdx).map fun (c, i) =>
    if m.bits.toNat.testBit (8 - i) then c else '-')

def defaultDirectory : Mode := ⟨0x4000 ||| 0x1ed⟩

def defaultFile : Mode := ⟨0x8000 ||| 0x1a4⟩

end Mode

structure Owner where
  uid : UInt32
  gid : UInt32
deriving DecidableEq, Inhabited

structure Inode where
  number : UInt32
  mode : Mode
  links : UInt16
  uid : UInt32
  gid : UInt32
  size : UInt64
  /-- Blocks of all extents, as the inode states it. -/
  blocks : UInt32
  accessed : Int64
  modified : Int64
  changed : Int64
  extents : ExtentMap
deriving DecidableEq

namespace Inode

def blank : Inode :=
  { number := 0, mode := ⟨0⟩, links := 0, uid := 0, gid := 0, size := 0, blocks := 0
    accessed := 0, modified := 0, changed := 0, extents := .empty }

instance : Inhabited Inode := ⟨blank⟩

def isDirectory (node : Inode) : Bool := node.mode.kind? == some .directory

/-- Whether a name that is removed now is the last one. A directory is linked from itself besides. -/
def hasOneName (node : Inode) : Bool := node.links ≤ if node.isDirectory then 2 else 1

theorem one_le_links {node : Inode} (h : node.hasOneName = false) : 1 ≤ node.links := by
  rw [hasOneName, decide_eq_false_iff_not, UInt16.le_iff_toNat_le] at h
  rw [UInt16.le_iff_toNat_le]
  split at h
  · exact Nat.le_trans (by decide) (Nat.le_of_not_le h)
  · exact Nat.le_of_not_le h

def setTimes (node : Inode) (t : Int64) : Inode :=
  { node with accessed := t, modified := t, changed := t }

def ofOwner (number : UInt32) (owner : Owner) (mode : Mode) (now : Int64) : Inode :=
  { blank with number, mode, links := 1, uid := owner.uid, gid := owner.gid }.setTimes now

abbrev slotSize : Nat := 128

abbrev slotsPerBlock : Nat := blockSize / slotSize

open Codec in
instance : Stored Inode where
  width := 88
  encode n :=
    encode n.number ++ encode n.mode.bits ++ encode n.links ++ encode n.uid ++ encode n.gid ++
      encode n.size ++ encode n.blocks ++ encode n.accessed ++ encode n.modified ++
      encode n.changed ++ encode n.extents
  decoder := return {
    number := ← decoder, mode := ⟨← decoder⟩, links := ← decoder, uid := ← decoder
    gid := ← decoder, size := ← decoder, blocks := ← decoder, accessed := ← decoder
    modified := ← decoder, changed := ← decoder, extents := ← decoder }

end Inode

end ExtentVolume
