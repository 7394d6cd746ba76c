import ExtentVolume.Directory
import ExtentVolume.File
import ExtentVolume.SuperBlock

namespace ExtentVolume

structure Volume where
  superBlock : SuperBlock
  space : FreeSpace
  table : InodeTable
  data : BlockCache

namespace Volume

def rootNumber (v : Volume) : UInt32 := v.superBlock.root

/-- The record of an inode that is in use: its own number is in it, and its bit is set. -/
def inode (v : Volume) (number : UInt32) : Fallible VolumeError Inode := do
  let some node := v.table.get? number | fail (.invalidInode number)
  if node.number ≠ number then fail (.invalidInode number)
  if ← v.space.inodes.isUsed number then return node else fail (.invalidInode number)

def directory (v : Volume) (number : UInt32) : Fallible VolumeError Inode := do
  let dir ← v.inode number
  if dir.isDirectory then return dir else fail (.notADirectory s!"inode {number}")

def lookup (v : Volume) (dir : UInt32) (name : String) : Fallible VolumeError (Option UInt32) := do
  Directory.lookup v.data (← v.directory dir) name

def list (v : Volume) (dir : UInt32) (position limit : Nat) :
    Fallible VolumeError Directory.Listing := do
  return Directory.list v.data (← v.directory dir) position limit

def read (v : Volume) (number : UInt32) (offset length : Nat) :
    Fallible VolumeError (List UInt8) := do
  (← v.inode number).read v.data offset length

def readInto (v : Volume) (number : UInt32) (offset : Nat) :
    Action VolumeError (List UInt8) Nat := do
  (← v.inode number).readInto v.data offset

def readAll (v : Volume) (number : UInt32) : Fallible VolumeError (List UInt8) := do
  (← v.inode number).readAll v.data

def onRecord {ε α : Type} (number : UInt32) (node : Inode) (x : Action ε OpenInode α) :
    Action ε Volume α :=
  Action.within (fun v => ⟨node, v.space.blocks, v.data⟩)
    (fun v w => { v with
      space := { v.space with blocks := w.blocks }
      table := v.table.set number w.node
      data := w.data }) x

def modifyRecord (number : UInt32) (f : Inode → Inode) : Action VolumeError Volume Unit :=
  modify fun v => match v.table.get? number with
    | some node => { v with table := v.table.set number (f node) }
    | none => v

def addLink (number : UInt32) : Action VolumeError Volume Unit := do
  let some node := (← get).table.get? number | return
  let links ← word16 (node.links.toNat + 1)
  modifyRecord number ({ · with links })

/-- Takes the lowest free inode into use, with one block of content. When there is no block for it,
the number is given back and its record is blank. -/
def reserveInode (owner : Owner) (mode : Mode) (now : Int64) : Action VolumeError Volume Inode := do
  let v ← get
  Action.refuseIf (v.space.inodes.free = 0 ∨ v.space.blocks.free = 0) .noSpace
  Action.refuseIf mode.kind?.isNone (.unsupportedType mode)
  let (number, space) ← v.space.allocateInode
  match v.table.get? number with
  | none =>
    let space ← space.freeInode number
    set { v with space }
    Action.fail (.fault (.recordMissing number))
  | some _ =>
    match Inode.allocateExtent 1 (.ofOwner number owner mode now, space.blocks) with
    | .ok _ (node, blocks) =>
      set { v with space := { space with blocks }, table := v.table.set number node }
      return node
    | .error stop (_, blocks) =>
      let space ← { space with blocks }.freeInode number
      set { v with space, table := v.table.set number .blank }
      throw stop

def createInode (owner : Owner) (mode : Mode) (now : Int64) : Action VolumeError Volume Inode := do
  let node ← reserveInode owner mode now
  node.extents.inUse.forM fun e => do
    let data ← (← get).data.zeroExtent e
    modify ({ · with data })
  return node

def releaseInode (number : UInt32) : Action VolumeError Volume (List Extent) := do
  let v ← get
  let some node := v.table.get? number | Action.fail (.invalidInode number)
  let (extents, _, blocks) ← node.releaseExtents v.space.blocks
  let inodes ← v.space.inodes.release number
  set { v with space := ⟨inodes, blocks⟩, table := v.table.set number .blank }
  return extents

def addEntry (dir : UInt32) (name : String) (target : UInt32) (now : Int64) :
    Action VolumeError Volume Unit := do
  let node ← (← get).directory dir
  onRecord dir node (Directory.insert name target now)

/-- Gives an inode in use one more name. The count of its links stops at the largest word. -/
def insert (dir : UInt32) (name : String) (target : UInt32) (now : Int64) :
    Action VolumeError Volume Unit := do
  let _ ← (← get).inode target
  addEntry dir name target now
  let node ← (← get).inode target
  let links := .ofNat (min (node.links.toNat + 1) (UInt16.size - 1))
  modify fun v => { v with table := v.table.set target { node with links } }

/-- Creates a file under a new name. A directory has a second link, from itself, and is a link to
its parent. -/
def create (parent : UInt32) (name : String) (mode : Mode) (owner : Owner) (now : Int64) :
    Action VolumeError Volume UInt32 := do
  Entry.checkName name
  Action.refuseIf (← (← get).lookup parent name).isSome (.alreadyExists name)
  let node ← createInode owner mode now
  match ← (addEntry parent name node.number now).attempt with
  | .error e =>
    let _ ← releaseInode node.number
    Action.fail e
  | .ok () =>
    if node.isDirectory then
      modifyRecord node.number ({ · with links := 2 })
      addLink parent
    return node.number

def checkUnused (v : Volume) (node : Inode) (name : String) : Fallible VolumeError Unit := do
  if node.isDirectory && node.hasOneName then
    refuseIf (!(← Directory.isEmpty v.data node)) (.directoryNotEmpty name)

def dropLink (number : UInt32) (now : Int64) : Action VolumeError Volume Unit := do
  let node ← (← get).inode number
  let links ← difference16 node.links 1
  modify fun v => { v with table := v.table.set number ({ node with links }.setTimes now) }

/-- Removes a name. With its last name an inode is given back; a directory that has entries keeps
its last name. -/
def remove (parent : UInt32) (name : String) (now : Int64) : Action VolumeError Volume UInt32 := do
  let v ← get
  let some number ← v.lookup parent name | Action.fail (.notFound name)
  let target ← v.inode number
  v.checkUnused target name
  let dir ← v.inode parent
  let _ ← onRecord parent dir (Directory.remove name now)
  if target.hasOneName then
    if target.isDirectory then
      modifyRecord parent fun dir => { dir with links := .ofNat (dir.links.toNat - 1) }
    let _ ← releaseInode number
  else dropLink number now
  return number

/-- Writes bytes to a file. Directories change through their entries only. -/
def write (number : UInt32) (offset : Nat) (bytes : List UInt8) (now : Int64) :
    Action WriteFailure Volume Nat := do
  let node ← ((← get).inode number).restate (WriteFailure.mk 0)
  Action.refuseIf node.isDirectory ⟨0, .isADirectory s!"inode {number}"⟩
  onRecord number node (OpenInode.write now offset bytes)

def allocateExtent (number : UInt32) (count : UInt32) : Action VolumeError Volume Extent := do
  let node ← (← get).inode number
  onRecord number node (OpenInode.addExtent count)

end Volume

end ExtentVolume
