namespace ExtentVolume

structure VolumeId where
  bytes : Vector UInt8 16
deriving DecidableEq

namespace VolumeId

def hexByte (b : UInt8) : String :=
  String.ofList [Nat.digitChar (b.toNat / 16), Nat.digitChar (b.toNat % 16)]

def text (id : VolumeId) : String :=
  let group (start length : Nat) : String :=
    String.join (((id.bytes.toList.drop start).take length).map hexByte)
  "-".intercalate [group 0 4, group 4 2, group 6 2, group 8 2, group 10 6]

end VolumeId

end ExtentVolume
