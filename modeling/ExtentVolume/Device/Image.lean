import ExtentVolume.Device

namespace ExtentVolume

/-- A byte string cut into blocks. Behind its last byte, the last block is zero. -/
structure Image where
  size : Nat
  blocks : Array Block

namespace Image

def empty : Image := ⟨0, #[]⟩

def resize (image : Image) (size : Nat) : Image :=
  let count := blocksFor size
  let blocks := Array.ofFn fun i : Fin count => image.blocks[i.val]?.getD .zero
  if size < image.size then
    let used := size - (count - 1) * blockSize
    ⟨size, blocks.modify (count - 1) fun b =>
      b.mapFinIdx fun i byte _ => if i < used then byte else 0⟩
  else
    ⟨size, blocks⟩

def overlayAt (blocks : Array Block) : (offset : Nat) → List UInt8 → Array Block
  | _, [] => blocks
  | offset, byte :: rest =>
    overlayAt (blocks.modify (offset / blockSize) (·.setIfInBounds (offset % blockSize) byte))
      (offset + 1) rest

/-- Writes bytes at an offset; the image grows when they end behind it. -/
def write (image : Image) (offset : Nat) (bytes : List UInt8) : Image :=
  if bytes.isEmpty then image
  else
    let grown := image.resize (max image.size (offset + bytes.length))
    { grown with blocks := overlayAt grown.blocks offset bytes }

def ofBytes (bytes : List UInt8) : Image := empty.write 0 bytes

def readBlock (image : Image) (n : Nat) : Except DeviceError Block :=
  if (n + 1) * blockSize ≤ image.size then .ok (image.blocks[n]?.getD .zero)
  else .error .imageTooShort

def writeBlock (image : Image) (n : Nat) (b : Block) : Image :=
  let grown := if image.size < (n + 1) * blockSize then image.resize ((n + 1) * blockSize) else image
  { grown with blocks := grown.blocks.setIfInBounds n b }

end Image

structure ImageDisk where
  image : Image
  blockCount : Nat

namespace ImageDisk

instance : BlockDevice ImageDisk where
  blockCount d := d.blockCount
  readBlock d n :=
    if n < d.blockCount then d.image.readBlock n else .error (.outOfImage n d.blockCount)
  writeBlock d n b :=
    if n < d.blockCount then .ok { d with image := d.image.writeBlock n b }
    else .error (.outOfImage n d.blockCount)

end ImageDisk

end ExtentVolume
