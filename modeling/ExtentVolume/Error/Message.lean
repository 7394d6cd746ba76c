import ExtentVolume.Error
import ExtentVolume.Text.Quoted

namespace ExtentVolume

def CodecError.message : CodecError → String
  | .endOfInput => "io error: unexpected end of file"
  | .slotFull => "io error: failed to write whole buffer"
  | .other text => text

def DeviceError.message : DeviceError → String
  | .outOfRange block => s!"block {block} out of range"
  | .outOfImage block count => s!"block {block} out of range ({count} blocks)"
  | .imageTooShort => "failed to fill whole buffer"
  | .readRefused block => s!"injected read fault at block {block}"
  | .writeRefused block => s!"injected write fault at block {block}"
  | .other text => text

def Fault.message : Fault → String
  | .outsideData first last size =>
    s!"data access {first}..{last} beyond region of {size} bytes"
  | .recordMissing number => s!"inode {number} missing from table"
  | .rootElsewhere number => s!"root created as inode {number}"
  | .unmappedTail number size mapped =>
    s!"inode {number}: size {size} but only {mapped} bytes mapped"
  | .other text => text

def Corruption.message : Corruption → String
  | .badMagic magic => "bad magic 0x" ++ Text.digits 16 magic.toNat
  | .blockSize size => s!"unsupported block size {size}"
  | .layoutMismatch => "region layout mismatch"
  | .deviceTooSmall needed present => s!"volume needs {needed} blocks, device has {present}"
  | .rootMissing => "root directory missing"
  | .encoding e => "record encoding: " ++ e.message
  | .other text => text

namespace VolumeError

def message : VolumeError → String
  | .device e => "Disk I/O error: " ++ e.message
  | .noSpace => "No space left on volume"
  | .noExtentSlots => "All extent slots of the inode are in use"
  | .nameTooLong name => "File name too long: " ++ name
  | .invalidName name => "Invalid file name: " ++ Text.quoted name
  | .unsupportedType mode =>
    "Unsupported file type in mode 0o" ++ Text.digits 8 mode.bits.toNat
  | .fault f => "Internal I/O fault: " ++ f.message
  | .notFound path => "File or directory not found: " ++ path
  | .alreadyExists path => "File or directory already exists: " ++ path
  | .notADirectory path => "Expected a directory, found a file: " ++ path
  | .isADirectory path => "Expected a file, found a directory: " ++ path
  | .directoryNotEmpty path => "Directory is not empty: " ++ path
  | .invalidInode number => s!"Invalid inode: {number}"
  | .corrupted c => "File system corrupted: " ++ c.message

def source : VolumeError → Option String
  | .device e => some e.message
  | _ => none

end VolumeError

def WriteFailure.message (f : WriteFailure) : String :=
  f.error.message ++ s!" (after {f.written} bytes written)"

end ExtentVolume
