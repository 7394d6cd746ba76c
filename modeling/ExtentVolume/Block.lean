namespace ExtentVolume

abbrev blockSize : Nat := 4096

def blocksFor (bytes : Nat) : Nat := (bytes + blockSize - 1) / blockSize

def blocksForBits (bits : Nat) : Nat := blocksFor ((bits + 7) / 8)

abbrev Block := Vector UInt8 blockSize

namespace Block

def zero : Block := Vector.replicate blockSize 0

/-- The bytes, then zeros up to the end of the block; bytes that do not fit are dropped. -/
def ofBytes (bytes : List UInt8) : Block :=
  ⟨(bytes.take blockSize ++ List.replicate (blockSize - bytes.length) 0).toArray, by simp; omega⟩

def overlay (b : Block) : Nat → List UInt8 → Block
  | _, [] => b
  | offset, byte :: rest => overlay (b.setIfInBounds offset byte) (offset + 1) rest

/-- A byte string cut into `count` blocks, the last one filled up with zeros. -/
def split (bytes : List UInt8) : (count : Nat) → List Block
  | 0 => []
  | count + 1 => ofBytes (bytes.take blockSize) :: split (bytes.drop blockSize) count

end Block

end ExtentVolume
