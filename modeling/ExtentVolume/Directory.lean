import ExtentVolume.Directory.Entry
import ExtentVolume.OpenInode

namespace ExtentVolume

namespace Directory

/-- Slots are numbered from 0 through all extents, so the number of a slot stays the same when the
directory grows. -/
structure Slot where
  ordinal : Nat
  address : Nat
  entry : Entry

def blockCount (dir : Inode) : Nat := blockTotal dir.extents.inUse

def slotCount (dir : Inode) : Nat := blockCount dir * Entry.slotsPerBlock

/-- The entries of a block from a slot on. A block lies in the data area as a whole or not at all,
so it is enough to check the first of these slots. -/
def entriesFrom (data : BlockCache) (block first : Nat) : Fallible VolumeError (List Entry) := do
  data.check (block * blockSize + first * Entry.slotSize) Entry.slotSize
  let bytes := (data.cells[block]?.map fun c => c.content.toList).getD []
  match Codec.decodeSlots Entry.slotSize Entry.slotsPerBlock bytes with
  | .ok entries => return entries.drop first
  | .error e => fail (.corrupted (.encoding e))

/-- How a scan of slots can end: behind the last slot, at a slot that it looks for, or at one that
cannot be read. -/
inductive Scan where
  | exhausted (position : Nat)
  | found (slot : Slot)
  | failed (ordinal : Nat) (stop : Stop VolumeError)

/-- Looks for an entry with the property in `count` blocks of a directory, the first of which is the
one with the given number and is entered at slot `first`. -/
def scanBlocks (data : BlockCache) (dir : Inode) (p : Entry → Bool) :
    (number first count : Nat) → Scan
  | number, first, 0 => .exhausted (number * Entry.slotsPerBlock + first)
  | number, first, count + 1 =>
    let ordinal := number * Entry.slotsPerBlock + first
    match blockAt dir.extents.inUse number with
    | none => .exhausted ordinal
    | some block => match entriesFrom data block first with
      | .error stop => .failed ordinal stop
      | .ok entries => match entries.zipIdx.find? fun (e, _) => p e with
        | some (e, i) =>
          .found ⟨ordinal + i, block * blockSize + (first + i) * Entry.slotSize, e⟩
        | none => scanBlocks data dir p (number + 1) 0 count

def scan (data : BlockCache) (dir : Inode) (p : Entry → Bool) (position : Nat) : Scan :=
  let number := position / Entry.slotsPerBlock
  scanBlocks data dir p number (position % Entry.slotsPerBlock) (blockCount dir - number)

def find (data : BlockCache) (dir : Inode) (p : Entry → Bool) :
    Fallible VolumeError (Option Slot) :=
  match scan data dir p 0 with
  | .exhausted _ => return none
  | .found slot => return some slot
  | .failed _ stop => throw stop

def lookup (data : BlockCache) (dir : Inode) (name : String) :
    Fallible VolumeError (Option UInt32) := do
  return (← find data dir (·.isFor name)).map (·.entry.inode)

/-- Where a walk through the entries stands: the number of the first slot not looked at yet, and
what was met just before it, if anything was. -/
structure Step where
  position : Nat
  item : Option (Fallible VolumeError Entry)

def next (data : BlockCache) (dir : Inode) (position : Nat) : Step :=
  match scan data dir (!·.isFree) position with
  | .exhausted position => ⟨position, none⟩
  | .found slot => ⟨slot.ordinal + 1, some (.ok slot.entry)⟩
  | .failed ordinal stop => ⟨ordinal + 1, some (.error stop)⟩

structure Listing where
  entries : List Entry
  position : Nat
  stopped : Option (Stop VolumeError)

/-- Walks on from a position until `limit` items have been met. A slot that cannot be read counts as
one and ends the walk. -/
def list (data : BlockCache) (dir : Inode) : (position limit : Nat) → Listing
  | position, 0 => ⟨[], position, none⟩
  | position, limit + 1 =>
    match next data dir position with
    | ⟨position, none⟩ => ⟨[], position, none⟩
    | ⟨position, some (.error stop)⟩ => ⟨[], position, some stop⟩
    | ⟨position, some (.ok entry)⟩ =>
      let rest := list data dir position limit
      { rest with entries := entry :: rest.entries }

def isEmpty (data : BlockCache) (dir : Inode) : Fallible VolumeError Bool :=
  match (next data dir 0).item with
  | none => return true
  | some (.ok _) => return false
  | some (.error stop) => throw stop

def place (entry : Entry) (now : Int64) (w : OpenInode) :
    EStateM.Result (Stop VolumeError) OpenInode Unit :=
  match find w.data w.node (·.isFree) with
  | .error stop => .error stop w
  | .ok (some slot) => match w.data.write slot.address (Codec.encode entry) with
    | .error stop => .error stop w
    | .ok data =>
      let size := .ofNat (max w.node.size.toNat ((slot.ordinal + 1) * Entry.slotSize))
      .ok () (OpenInode.touch { w with data, node := { w.node with size } } now)
  | .ok none => match _hw : OpenInode.addExtent 1 w with
    | .error stop w' => .error stop w'
    | .ok _ w' => place entry now w'
termination_by w.node.extents.freeSlots
decreasing_by exact OpenInode.freeSlots_addExtent _hw

/-- Adds an entry for an inode. It does not matter whether the directory has the name already. -/
def insert (name : String) (inode : UInt32) (now : Int64) : Action VolumeError OpenInode Unit := do
  Action.refuseIf (inode = 0) (.invalidInode 0)
  place (← Entry.ofName name inode) now

def remove (name : String) (now : Int64) : Action VolumeError OpenInode (Option UInt32) := do
  let w ← get
  let some slot ← find w.data w.node (·.isFor name) | return none
  let data ← w.data.write slot.address (List.replicate Entry.slotSize 0)
  set (OpenInode.touch { w with data } now)
  return some slot.entry.inode

end Directory

end ExtentVolume
