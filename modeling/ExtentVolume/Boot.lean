import ExtentVolume.Device.Image
import ExtentVolume.Volume.Mounted

namespace ExtentVolume

inductive BootMessage where
  | step (text : String)
  | progress (percent : Nat)
deriving DecidableEq

namespace ImageDisk

/-- The device in an image, which first grows to so many blocks if it is smaller, and the messages
on the way. -/
def openImage (image : Image) (blocks : Nat) : Checked (ImageDisk × List BootMessage) := do
  let needed ← word64 (blocks * blockSize)
  let (image, messages) :=
    if image.size < needed.toNat then
      (image.resize needed.toNat, [.step "🪶 Allocating disk space..."])
    else (image, [])
  return (⟨image, image.size / blockSize⟩, messages ++ [.progress 50])

end ImageDisk

/-- The end of a boot: its messages, the image that it leaves, and the volume or the error. -/
structure Boot where
  messages : List BootMessage
  image : Image
  result : Fallible VolumeError (Mounted ImageDisk)

namespace Boot

def formatDisk (disk : ImageDisk) (g : Geometry) (id : VolumeId) (now : Int64) :
    Image × Fallible VolumeError (Mounted ImageDisk) :=
  match Volume.format g id now disk with
  | .ok volume disk => (disk.image, .ok ⟨volume, disk⟩)
  | .error stop disk => (disk.image, .error stop)

def mountDisk (disk : ImageDisk) : Image × Fallible VolumeError (Mounted ImageDisk) :=
  (disk.image, (fun volume => ⟨volume, disk⟩) <$> Volume.mount disk)

def run (image? : Option Image) (g : Geometry) (forceFormat : Bool) (id : VolumeId)
    (now : Int64) : Checked Boot := do
  let (disk, messages) ← ImageDisk.openImage (image?.getD .empty) g.deviceBlocks
  let formats := image?.isNone || forceFormat
  let (image, result) := if formats then formatDisk disk g id now else mountDisk disk
  let action :=
    if formats then "🔧 Formatting new file system..." else "⚙️  Mounting file system..."
  return {
    messages := .step "🧠 Initializing virtual disk..." :: messages ++
      [.step action, .progress 100]
    image
    result }

end Boot

end ExtentVolume
