import ExtentVolume.Shell.Session
import Std.Time.DateTime.Timestamp

namespace ExtentVolume.Main

structure Options where
  path : String
  geometry : Geometry
  format : Bool

def parseCount (text : String) : Except String UInt32 :=
  match text.toNat? with
  | some n => if n < UInt32.size then .ok (.ofNat n) else .error text
  | none => .error text

/-- Reads the arguments after the defaults; an error names the one that is not understood. -/
def parseOptions : Options → List String → Except String Options
  | o, [] => .ok o
  | o, "--format" :: rest => parseOptions { o with format := true } rest
  | o, "--disk" :: path :: rest => parseOptions { o with path } rest
  | o, "--blocks" :: n :: rest => do
    let blocks ← parseCount n
    parseOptions { o with geometry := { o.geometry with blocks } } rest
  | o, "--inodes" :: n :: rest => do
    let inodes ← parseCount n
    parseOptions { o with geometry := { o.geometry with inodes } } rest
  | _, argument :: _ => .error argument

def clock : IO Int64 := return .ofInt (← Std.Time.Timestamp.now).toSecondsSinceUnixEpoch.val

def randomId : IO VolumeId := do
  let source ← IO.getRandomBytes 16
  let bytes := Vector.ofFn fun i : Fin 16 => source[i.val]?.getD 0
  return ⟨(bytes.set 6 (bytes[6] &&& 0xf ||| 0x40)).set 8 (bytes[8] &&& 0x3f ||| 0x80)⟩

def loadImage (path : String) : IO (Option Image) := do
  try return some (.ofBytes (← IO.FS.readBinFile path).data.toList)
  catch _ => return none

def saveImage (path : String) (image : Image) : IO Unit := do
  let bytes := (image.blocks.toList.flatMap (·.toList)).take image.size
  IO.FS.writeBinFile path ⟨bytes.toArray⟩

def printMessage : BootMessage → IO Unit
  | .step text => IO.println text
  | .progress percent => IO.println s!"{percent}%"

def explain : Stop VolumeError → String
  | .failure e => e.message
  | .trap _ => "arithmetic overflow"

def runLine (path : String) (session : Shell.Session) (line : String) :
    IO (Option Shell.Session) := do
  match Shell.Command.ofLine line with
  | none =>
    IO.println "⚠️  Unknown command or missing argument. Type 'help' for command list."
    return some session
  | some command =>
    let confirms ← if command = .format then
        IO.println "Erase every file on this volume? [y/n]"
        pure ((← (← IO.getStdin).getLine).startsWith "y")
      else pure false
    let ambient : Shell.Ambient := ⟨← clock, ← randomId, confirms⟩
    let run := (Shell.Console.execute ambient command).run ⟨session, #[]⟩
    let console := match run with
      | .ok _ c => c
      | .error _ c => c
    console.output.forM fun piece => IO.print piece.render
    if let .error stop _ := run then IO.println ("❌ Error: " ++ explain stop)
    saveImage path console.session.mounted.disk.image
    return if command = .exit then none else some console.session

partial def prompt (path : String) (session : Shell.Session) : IO Unit := do
  IO.print (session.pwd ++ "> ")
  let line ← (← IO.getStdin).getLine
  if line.isEmpty then
    let _ ← runLine path session "exit"
  else if (Text.words line).isEmpty then prompt path session
  else match ← runLine path session line with
    | some session => prompt path session
    | none => IO.println "GoodBye!"

def start (o : Options) : IO UInt32 := do
  match Boot.run (← loadImage o.path) o.geometry o.format (← randomId) (← clock) with
  | .error _ =>
    IO.println "❌ Boot failed"
    return 1
  | .ok boot =>
    boot.messages.forM printMessage
    saveImage o.path boot.image
    match boot.result with
    | .error stop =>
      IO.println ("❌ Cannot open " ++ o.path ++ ": " ++ explain stop)
      return 1
    | .ok mounted =>
      IO.println ("Welcome to extent-fs (volume " ++ mounted.volume.superBlock.id.text ++ ")")
      IO.println "Type 'help' for available commands."
      prompt o.path ⟨mounted, [], o.geometry⟩
      return 0

end ExtentVolume.Main

def main (arguments : List String) : IO UInt32 := do
  match ExtentVolume.Main.parseOptions ⟨"disk.img", default, false⟩ arguments with
  | .ok options => ExtentVolume.Main.start options
  | .error argument =>
    IO.eprintln ("unexpected argument: " ++ argument)
    return 2
