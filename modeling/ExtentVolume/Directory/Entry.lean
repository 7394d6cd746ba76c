import ExtentVolume.Error
import ExtentVolume.Text.Utf8

namespace ExtentVolume

/-- A name ends at the first zero byte of its field. An entry for inode 0 is free. -/
structure Entry where
  field : Vector UInt8 28
  inode : UInt32
deriving DecidableEq

namespace Entry

abbrev slotSize : Nat := 32

abbrev slotsPerBlock : Nat := blockSize / slotSize

abbrev maxNameLength : Nat := 27

/-- Refuses a name that no entry can hold as it is: an empty one, one with a zero byte, and one that
is too long. A slash would be read as the end of a path's component. -/
def checkName (name : String) : Fallible VolumeError Unit :=
  let bytes := Text.toBytes name
  if bytes.isEmpty || bytes.any (fun b => b == 0 || b == 0x2f) then fail (.invalidName name)
  else if maxNameLength < bytes.length then fail (.nameTooLong name)
  else return

def fieldOf (name : String) : Vector UInt8 28 :=
  let bytes := Text.toBytes name
  ⟨(bytes.take 28 ++ List.replicate (28 - bytes.length) 0).toArray, by simp; omega⟩

def ofName (name : String) (inode : UInt32) : Fallible VolumeError Entry := do
  checkName name
  return ⟨fieldOf name, inode⟩

def nameBytes (e : Entry) : List UInt8 := e.field.toList.takeWhile (· != 0)

def name (e : Entry) : String := Text.ofBytes e.nameBytes

def isFree (e : Entry) : Bool := e.inode == 0

def isFor (e : Entry) (name : String) : Bool := !e.isFree && e.nameBytes == Text.toBytes name

open Codec in
instance : Stored Entry where
  width := 32
  encode e := encode e.field ++ encode e.inode
  decoder := return { field := ← decoder, inode := ← decoder }

end Entry

end ExtentVolume
