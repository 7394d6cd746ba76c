import ExtentVolume.Proofs.Regions

namespace ExtentVolume.Bitmap

variable {p q : Nat → Bool} {start count n m total index : Nat} {byte : UInt8} {bytes : List UInt8}

end ExtentVolume.Bitmap
