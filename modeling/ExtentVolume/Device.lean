import ExtentVolume.Error

namespace ExtentVolume

class BlockDevice (D : Type) where
  blockCount : D → Nat
  readBlock : D → Nat → Except DeviceError Block
  writeBlock : D → Nat → Block → Except DeviceError D

namespace BlockDevice

variable {D : Type} [BlockDevice D]

/-- The number of the block at an index of a region; block numbers are 64-bit words. -/
def blockNumber (start : UInt64) (index : Nat) : Checked Nat :=
  UInt64.toNat <$> word64 (start.toNat + index)

def fetch (d : D) (start : UInt64) (index : Nat) : Fallible DeviceError Block := do
  match readBlock d (← blockNumber start index) with
  | .ok b => return b
  | .error e => fail e

def store (start : UInt64) (index : Nat) (b : Block) : Action DeviceError D Unit := do
  match writeBlock (← get) (← blockNumber start index) b with
  | .ok d => set d
  | .error e => Action.fail e

def fetchRun (d : D) (start : UInt64) (count : Nat) : Fallible DeviceError (List Block) :=
  (List.range count).mapM (fetch d start)

def storeRun (start : UInt64) : (index : Nat) → List Block → Action DeviceError D Unit
  | _, [] => return
  | index, b :: rest => do
    store start index b
    storeRun start (index + 1) rest

end BlockDevice

end ExtentVolume
