import ExtentVolume.Boot
import ExtentVolume.Consistency
import ExtentVolume.Error.Message
import ExtentVolume.Shell.Command
import ExtentVolume.Timestamp

namespace ExtentVolume.Shell

/-- A part of the output. The parts that differ from run to run stand apart from the text. -/
inductive Piece where
  | text (s : String)
  | volumeId (id : VolumeId)
  | time (t : Int64)

def Piece.render : Piece → String
  | text s => s
  | volumeId id => id.text
  | time t => Timestamp.text t

structure Session where
  mounted : Mounted ImageDisk
  /-- Names and inode numbers from the root to the current directory. -/
  path : List (String × UInt32)
  geometry : Geometry

/-- What the outside world supplies to a command: the clock, an identifier for a new volume, and the
answer to a question. -/
structure Ambient where
  now : Int64
  newId : VolumeId
  confirms : Bool

structure Console where
  session : Session
  output : Array Piece

namespace Session

variable (s : Session)

def volume : Volume := s.mounted.volume

def cwd : UInt32 := (s.path.getLast?.map (·.2)).getD s.volume.rootNumber

def pwd : String :=
  if s.path.isEmpty then "/" else String.join (s.path.map fun (name, _) => "/" ++ name)

def childPath (name : String) : String :=
  if s.pwd = "/" then "/" ++ name else s.pwd ++ "/" ++ name

def resolve (name : String) : Fallible VolumeError UInt32 := do
  match ← s.volume.lookup s.cwd name with
  | some number => return number
  | none => fail (.notFound (s.childPath name))

def kindOf (number : UInt32) : Option FileKind := (s.volume.table.get? number).bind (·.mode.kind?)

end Session

namespace Console

abbrev Run := Action VolumeError Console

def printLine (pieces : List Piece) : Run Unit :=
  modify fun c => { c with output := (c.output ++ pieces.toArray).push (.text "\n") }

def printText (s : String) : Run Unit := printLine [.text s]

def current : Run Session := return (← get).session

def onMounted {ε α : Type} (x : Action ε (Mounted ImageDisk) α) : Action ε Console α :=
  Action.within (·.session.mounted)
    (fun c mounted => { c with session := { c.session with mounted } }) x

def onVolume {ε α : Type} (x : Action ε Volume α) : Action ε Console α :=
  onMounted (Mounted.onVolume x)

def setPath (path : List (String × UInt32)) : Run Unit :=
  modify fun c => { c with session := { c.session with path } }

def sync : Run Unit := onMounted Mounted.sync

def list : Run Unit := do
  let s ← current
  printText "📂  ."
  if !s.path.isEmpty then printText "📁  .."
  let dir ← s.volume.directory s.cwd
  let listing := Directory.list s.volume.data dir 0 (Directory.slotCount dir + 1)
  listing.entries.forM fun entry =>
    match s.volume.table.get? entry.inode with
    | some node =>
      if node.isDirectory then printText ("📁  " ++ entry.name)
      else printText (s!"📄  {entry.name} ({node.size} bytes)")
    | none => printText (s!"❓  {entry.name} (inode {entry.inode})")
  match listing.stopped with
  | none => return
  | some stop => throw stop

def changeDirectory (path : String) : Run Unit := do
  let s ← current
  if path = "/" then setPath []
  else if path = ".." then setPath s.path.dropLast
  else if path ≠ "." then
    let number ← s.resolve path
    if s.kindOf number ≠ some .directory then Action.fail (.notADirectory (s.childPath path))
    setPath (s.path ++ [(path, number)])
  printText ("📂 Moved to " ++ (← current).pwd)

def create (now : Int64) (name : String) (mode : Mode) : Run UInt32 := do
  onVolume (Volume.create (← current).cwd name mode default now)

/-- Writes a text to a file, which is created if it is missing: from the start, or behind its end.
What a failed write has put into the file is written back before the error is reported. -/
def write (now : Int64) (name text : String) (appends : Bool) : Run Unit := do
  let s ← current
  let number ← match ← s.volume.lookup s.cwd name with
    | some number => pure number
    | none => create now name Mode.defaultFile
  let offset := match (← current).volume.table.get? number with
    | some node => if appends then node.size.toNat else 0
    | none => 0
  let bytes := ExtentVolume.Text.toBytes text
  match ← (onVolume (Volume.write number offset bytes now)).attempt with
  | .ok written => printText (s!"✏️  Wrote {written} bytes to " ++ s.childPath name)
  | .error failure =>
    sync
    printText s!"⚠️  Partial write: {failure.written} of {bytes.length} bytes kept"
    Action.fail failure.error

def kindLabel : Option FileKind → String × String
  | some .directory => ("Directory", "d")
  | some .symlink => ("Symlink", "l")
  | some .file => ("File", "-")
  | none => ("Unknown", "?")

def stat (name : String) : Run Unit := do
  let s ← current
  let number ← if name = "." then pure s.cwd else s.resolve name
  let some node := s.volume.table.get? number | Action.fail (.invalidInode number)
  let (kind, letter) := kindLabel node.mode.kind?
  printText "📊 File Info"
  printText ("Name: " ++ name)
  printText s!"Inode: {node.number}"
  printText ("Type: " ++ kind)
  printText ("Mode: " ++ letter ++ node.mode.rwx ++ " (" ++
    ExtentVolume.Text.digits 8 node.mode.permissions.toNat ++ ")")
  printText s!"Uid/Gid: {node.uid} / {node.gid}"
  printText s!"Links: {node.links}"
  printText s!"Size: {node.size} bytes"
  printText s!"Blocks: {node.blocks}"
  printLine [.text "Accessed: ", .time node.accessed]
  printLine [.text "Modified: ", .time node.modified]
  printLine [.text "Changed: ", .time node.changed]
  printText s!"Extents: {node.extents.stated}"
  node.extents.withOffsets.forM fun (offset, e) =>
    printText s!"  logical {offset} -> blocks {e.start}..{e.endBlock} ({e.count} blocks)"

def diskFree : Run Unit := do
  let v := (← current).volume
  let inodes := v.space.inodes
  let blocks := v.space.blocks
  printText "💽 Volume"
  printLine [.text "UUID: ", .volumeId v.superBlock.id]
  printLine [.text "Created: ", .time v.superBlock.created]
  printText s!"Block size: {v.superBlock.blockSize} bytes"
  printText s!"Blocks: {blocks.free} free / {blocks.total} total"
  printText s!"Inodes: {inodes.free} free / {inodes.total} total"

def checkVolume : Run Unit := do
  let report ← (Consistency.check (← current).volume : Checked Consistency.Report)
  let verdict := if report.isClean then "✅ Clean: " else "⚠️  Problems: "
  modify fun c => { c with output := c.output.push (.text (verdict ++ report.text)) }

def format (ambient : Ambient) : Run Unit := do
  if ambient.confirms then
    onMounted (Mounted.reformat (← current).geometry ambient.newId ambient.now)
    setPath []
    printLine [.text "✅ Disk formatted successfully! Volume ",
      .volumeId (← current).volume.superBlock.id]
  else printText "Format cancelled."

def helpText : String := "📘 extent-fs Commands

  ls                    List entries in current directory
  pwd                   Print current path
  mkdir <dir>           Create directory
  rmdir <dir>           Remove empty directory
  create <file>         Create empty file
  rm <file>             Remove file and free its extents
  cd <dir>|..|/         Change directory
  read <file>           Read file content
  write <file> <str>    Write string at the start of file (creates it if missing)
  append <file> <str>   Append string to the end of file
  stat <file>           Show inode and extent info
  df                    Show free blocks and inodes
  fsck                  Check bitmaps against inode extents
  format                Erase and format the volume
  help                  Show this help message
  exit                  Quit the shell
"

def perform (ambient : Ambient) : Command → Run Unit
  | .help => printText helpText
  | .ls => list
  | .pwd => do printText ("📍 " ++ (← current).pwd)
  | .mkdir name => do
    let _ ← create ambient.now name Mode.defaultDirectory
    printText ("✅ Created directory: " ++ (← current).childPath name)
  | .rmdir name => do
    let s ← current
    let number ← s.resolve name
    if s.kindOf number ≠ some .directory then Action.fail (.notADirectory (s.childPath name))
    let _ ← onVolume (Volume.remove s.cwd name ambient.now)
    printText ("🗑️ Removed directory: " ++ s.childPath name)
  | .create name => do
    let _ ← create ambient.now name Mode.defaultFile
    printText ("📝 Created file: " ++ (← current).childPath name)
  | .rm name => do
    let s ← current
    let number ← s.resolve name
    if s.kindOf number = some .directory then Action.fail (.isADirectory (s.childPath name))
    let _ ← onVolume (Volume.remove s.cwd name ambient.now)
    printText ("❌ Deleted file: " ++ s.childPath name)
  | .cd path => changeDirectory path
  | .read name => do
    let s ← current
    let bytes ← s.volume.readAll (← s.resolve name)
    printText ("📖 " ++ s.childPath name ++ s!" ({bytes.length} bytes)")
    printText (ExtentVolume.Text.ofBytes bytes)
  | .write name text => write ambient.now name text false
  | .append name text => write ambient.now name text true
  | .stat name => stat name
  | .df => diskFree
  | .fsck => checkVolume
  | .format => format ambient
  | .exit => do
    sync
    printText "👋 Exiting extent-fs shell..."

/-- Runs a command. A volume that it may have changed is written back, unless the command failed. -/
def execute (ambient : Ambient) (command : Command) : Run Unit := do
  perform ambient command
  if command.mutates then sync

end Console

end ExtentVolume.Shell
