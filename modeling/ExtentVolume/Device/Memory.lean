import ExtentVolume.Device

namespace ExtentVolume

structure MemoryDisk where
  blocks : Array Block

namespace MemoryDisk

def blank (count : Nat) : MemoryDisk := ⟨Array.replicate count .zero⟩

instance : BlockDevice MemoryDisk where
  blockCount d := d.blocks.size
  readBlock d n := match d.blocks[n]? with
    | some b => .ok b
    | none => .error (.outOfRange n)
  writeBlock d n b :=
    if h : n < d.blocks.size then .ok ⟨d.blocks.set n b⟩ else .error (.outOfRange n)

end MemoryDisk

/-- A device on which reads of some blocks and writes of some blocks are refused. -/
structure FaultyDisk (D : Type) where
  disk : D
  refusedReads : List Nat
  refusedWrites : List Nat

namespace FaultyDisk

variable {D : Type} [BlockDevice D]

instance : BlockDevice (FaultyDisk D) where
  blockCount d := BlockDevice.blockCount d.disk
  readBlock d n :=
    if n ∈ d.refusedReads then .error (.readRefused n) else BlockDevice.readBlock d.disk n
  writeBlock d n b :=
    if n ∈ d.refusedWrites then .error (.writeRefused n)
    else (fun disk => { d with disk }) <$> BlockDevice.writeBlock d.disk n b

end FaultyDisk

end ExtentVolume
