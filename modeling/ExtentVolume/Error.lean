import ExtentVolume.Codec
import ExtentVolume.Inode

namespace ExtentVolume

inductive DeviceError where
  | outOfRange (block : Nat)
  | outOfImage (block count : Nat)
  | imageTooShort
  | readRefused (block : Nat)
  | writeRefused (block : Nat)
  | other (text : String)
deriving DecidableEq

inductive Fault where
  | outsideData (first last size : Nat)
  | recordMissing (number : UInt32)
  | rootElsewhere (number : UInt32)
  | unmappedTail (number : UInt32) (size : UInt64) (mapped : Nat)
  | other (text : String)
deriving DecidableEq

/-- What shows that the content of a device is not a volume. -/
inductive Corruption where
  | badMagic (magic : UInt64)
  | blockSize (size : UInt32)
  | layoutMismatch
  | deviceTooSmall (needed present : Nat)
  | rootMissing
  | encoding (e : CodecError)
  | other (text : String)
deriving DecidableEq

inductive VolumeError where
  | device (e : DeviceError)
  | noSpace
  | noExtentSlots
  | nameTooLong (name : String)
  | invalidName (name : String)
  | unsupportedType (mode : Mode)
  | fault (f : Fault)
  | notFound (path : String)
  | alreadyExists (path : String)
  | notADirectory (path : String)
  | isADirectory (path : String)
  | directoryNotEmpty (path : String)
  | invalidInode (number : UInt32)
  | corrupted (c : Corruption)
deriving DecidableEq

/-- A write that stopped; the first `written` bytes are in the file and stay there. -/
structure WriteFailure where
  written : Nat
  error : VolumeError
deriving DecidableEq

end ExtentVolume
