namespace ExtentVolume

inductive CodecError where
  | endOfInput
  | slotFull
  | other (text : String)
deriving DecidableEq

namespace Codec

/-- The lowest `width` digits of a number in base 256, the least one first. -/
def littleEndian : (width n : Nat) → List UInt8
  | 0, _ => []
  | width + 1, n => UInt8.ofNat n :: littleEndian width (n / 256)

def ofLittleEndian : List UInt8 → Nat
  | [] => 0
  | b :: rest => b.toNat + 256 * ofLittleEndian rest

abbrev Decoder := StateT (List UInt8) (Except CodecError)

def takeBytes (count : Nat) : Decoder (Vector UInt8 count) := fun bytes =>
  if h : count ≤ bytes.length then .ok (⟨(bytes.take count).toArray, by simp [h]⟩, bytes.drop count)
  else .error .endOfInput

/-- A value is stored as a fixed number of bytes, words with the least byte first and records field
by field without gaps. -/
class Stored (α : Type) where
  width : Nat
  encode : α → List UInt8
  decoder : Decoder α

export Stored (encode decoder)

abbrev Stored.ofNumber {α : Type} (width : Nat) (toNat : α → Nat) (ofNat : Nat → α) :
    Stored α where
  width
  encode a := littleEndian width (toNat a)
  decoder := (fun v => ofNat (ofLittleEndian v.toList)) <$> takeBytes width

instance : Stored UInt16 := .ofNumber 2 UInt16.toNat UInt16.ofNat
instance : Stored UInt32 := .ofNumber 4 UInt32.toNat UInt32.ofNat
instance : Stored UInt64 := .ofNumber 8 UInt64.toNat UInt64.ofNat

instance : Stored Int64 := .ofNumber 8 (·.toUInt64.toNat) (·.toUInt64.toInt64)

instance {n : Nat} : Stored (Vector UInt8 n) where
  width := n
  encode v := v.toList
  decoder := takeBytes n

variable {α : Type} [Stored α]

def decode (bytes : List UInt8) : Except CodecError α :=
  (·.1) <$> decoder.run bytes

/-- What a slot of `size` bytes holds once the value is written to it: the stored form, zeros behind
it, and of either only as much as there is room for. -/
def slotBytes (size : Nat) (a : α) : List UInt8 :=
  (encode a ++ List.replicate (size - Stored.width α) 0).take size

def encodeInto (size : Nat) (a : α) : Except CodecError (List UInt8) :=
  if Stored.width α ≤ size then .ok (slotBytes size a) else .error .slotFull

def decodeSlots (size : Nat) : (count : Nat) → List UInt8 → Except CodecError (List α)
  | 0, _ => .ok []
  | count + 1, bytes => do
    let a ← decode (bytes.take size)
    return a :: (← decodeSlots size count (bytes.drop size))

end Codec

end ExtentVolume
