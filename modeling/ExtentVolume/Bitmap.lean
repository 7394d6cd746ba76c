import ExtentVolume.Device

namespace ExtentVolume

def paddedBits (total : UInt32) : Nat := 8 * ((total.toNat + 7) / 8)

/-- Which of the numbers below a total are in use, and a counter of those that are free. The bits
fill whole bytes, so that a few bits of padding may follow the last number. -/
structure Bitmap where
  /-- Numbers below this one are never handed out and never taken back. -/
  reserved : Nat
  total : UInt32
  free : UInt32
  start : UInt64
  bits : Vector Bool (paddedBits total)

namespace Bitmap

def fresh (reserved : Nat) (total : UInt32) (start : UInt64) : Bitmap :=
  { reserved, total, start
    free := .ofNat (total.toNat - reserved)
    bits := Vector.ofFn fun i => decide (i.val < reserved ∧ i.val < total.toNat) }

def isUsed (b : Bitmap) (n : UInt32) : Checked Bool :=
  if h : n.toNat < paddedBits b.total then .ok b.bits[n.toNat] else .error .indexOutOfRange

def isClear (b : Bitmap) (n : Nat) : Bool := b.bits[n]? == some false

def popcount (b : Bitmap) : Nat := b.bits.toList.count true

def usedCount (b : Bitmap) : Checked UInt32 := word32 b.popcount

def firstFrom (p : Nat → Bool) : (start count : Nat) → Option Nat
  | _, 0 => none
  | start, count + 1 => if p start then some start else firstFrom p (start + 1) count

def lowestFree? (b : Bitmap) : Option Nat :=
  firstFrom b.isClear b.reserved (b.total.toNat - b.reserved)

def take (b : Bitmap) : Checked (Option (UInt32 × Bitmap)) := do
  match b.lowestFree? with
  | none => return none
  | some n =>
    let free ← difference32 b.free 1
    return some (.ofNat n, { b with free, bits := b.bits.setIfInBounds n true })

/-- Gives a number back. One that is reserved or not below the total is ignored; one that is free
already is counted again. -/
def release (b : Bitmap) (n : UInt32) : Checked Bitmap := do
  if n.toNat < b.reserved ∨ b.total ≤ n then return b
  let free ← word32 (b.free.toNat + 1)
  return { b with free, bits := b.bits.setIfInBounds n.toNat false }

/-- The start of the first run of `length` numbers with the property among the `count` numbers from
`start` on, where `run` numbers just before `start` have it. -/
def firstRunFrom (p : Nat → Bool) (length : Nat) : (start count run : Nat) → Option Nat
  | _, 0, _ => none
  | start, count + 1, run =>
    if p start then
      if run + 1 = length then some (start + 1 - length)
      else firstRunFrom p length (start + 1) count (run + 1)
    else firstRunFrom p length (start + 1) count 0

/-- The leftmost run of so many free numbers; there is none of length zero. -/
def findRun (b : Bitmap) (length : UInt32) : Option UInt32 :=
  if length = 0 then none
  else UInt32.ofNat <$> firstRunFrom b.isClear length.toNat 0 b.total.toNat 0

def setRun {n : Nat} (bits : Vector Bool n) (start : Nat) : (count : Nat) → Vector Bool n
  | 0 => bits
  | count + 1 => (setRun bits start count).setIfInBounds (start + count) true

/-- Marks a run as used and counts all of it as taken, also what was in use before. -/
def markRun (b : Bitmap) (start length : UInt32) : Checked Bitmap := do
  let stop ← word32 (start.toNat + length.toNat)
  if start < stop ∧ paddedBits b.total < stop.toNat then throw .indexOutOfRange
  let free ← difference32 b.free length
  return { b with free, bits := setRun b.bits start.toNat length.toNat }

def ofDigits (digit : Nat → Bool) : (width : Nat) → Nat
  | 0 => 0
  | width + 1 => ofDigits digit width + (if digit width then 1 <<< width else 0)

/-- The bytes of the bitmap; each holds eight bits, the lowest number in its lowest digit. -/
def toBytes (b : Bitmap) : List UInt8 :=
  (List.range ((b.total.toNat + 7) / 8)).map fun k =>
    .ofNat (ofDigits (fun j => b.bits[8 * k + j]?.getD false) 8)

def trailingOnes (byte : UInt8) : Nat := (firstFrom (fun j => !byte.toNat.testBit j) 0 8).getD 8

def scanBytes (total : Nat) : List UInt8 → (index : Nat) → Option Nat
  | [], _ => none
  | byte :: rest, index =>
    if byte = 0xff then scanBytes total rest (index + 1)
    else
      let n := 8 * index + trailingOnes byte
      if total ≤ n then none else some n

/-- Takes the lowest free number into use, reserved or not, and goes through the bitmap byte by
byte. -/
def takeByBytes (b : Bitmap) : Checked (Option (UInt32 × Bitmap)) := do
  match scanBytes b.total.toNat b.toBytes 0 with
  | none => return none
  | some n =>
    let free ← difference32 b.free 1
    return some (.ofNat n, { b with free, bits := b.bits.setIfInBounds n true })

def onesTable : Vector Nat UInt8.size := Vector.ofFn fun n => (List.range 8).countP n.val.testBit

def ones (byte : UInt8) : Nat := onesTable.get byte.toFin

def sumOnes : List Block → (length sum : Nat) → Nat
  | [], _, sum => sum
  | b :: rest, length, sum =>
    sumOnes rest (length - blockSize) (b.toArray.foldl (fun sum byte => sum + ones byte) sum 0 length)

def bitsOf (total : UInt32) (bytes : List UInt8) : Vector Bool (paddedBits total) :=
  let source := bytes.toArray
  Vector.ofFn fun i => (source[i.val / 8]?.getD 0).toNat.testBit (i.val % 8)

/-- The bitmap that is stored in the blocks. What exceeds the total in set bits, padding included,
is not free. -/
def ofBlocks (reserved : Nat) (total : UInt32) (start : UInt64) (blocks : List Block) :
    Checked Bitmap := do
  let used ← word32 (sumOnes blocks ((total.toNat + 7) / 8) 0)
  return { reserved, total, start
           bits := bitsOf total (blocks.flatMap (·.toList))
           free := .ofNat (total.toNat - used.toNat) }

def regionSize (total : UInt32) : Nat := blocksForBits total.toNat

variable {D : Type} [BlockDevice D]

def load (d : D) (reserved : Nat) (total : UInt32) (start : UInt64) :
    Fallible DeviceError Bitmap := do
  let blocks ← BlockDevice.fetchRun d start (regionSize total)
  ofBlocks reserved total start blocks

def sync (b : Bitmap) : Action DeviceError D Unit :=
  BlockDevice.storeRun b.start 0 (Block.split b.toBytes (regionSize b.total))

end Bitmap

end ExtentVolume
