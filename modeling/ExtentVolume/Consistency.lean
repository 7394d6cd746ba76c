import ExtentVolume.Volume

namespace ExtentVolume.Consistency

inductive Problem where
  | freeBlocks (free used total : UInt32)
  | freeInodes (free used total : UInt32)
  | recordMissing (inode : UInt32)
  | extentCount (inode stated : UInt32) (inUse : Nat)
  | blockCount (inode stated held : UInt32)
  | extentOutside (inode : UInt32) (extent : Extent) (total : UInt32)
  | unmarked (inode block : UInt32)
  | shared (block first second : UInt32)
  | unowned (block : UInt32)
deriving DecidableEq

def Problem.message : Problem → String
  | freeBlocks free used total => s!"free block counter {free} + used {used} != {total}"
  | freeInodes free used total => s!"free inode counter {free} + used {used} != {total}"
  | recordMissing inode => s!"inode {inode} allocated but has no record"
  | extentCount inode stated inUse =>
    s!"inode {inode}: extent count {stated} but {inUse} slots in use"
  | blockCount inode stated held =>
    s!"inode {inode}: block counter {stated} but extents hold {held}"
  | extentOutside inode extent total =>
    s!"inode {inode}: extent {extent.start}+{extent.count} beyond {total} blocks"
  | unmarked inode block => s!"inode {inode}: block {block} not marked allocated"
  | shared block first second => s!"block {block} owned by both inode {first} and inode {second}"
  | unowned block => s!"block {block} allocated but owned by no inode"

/-- The state of a check: what it found, and the inode that owns each block of the data area, 0 for
none. -/
structure Survey where
  inodes : Nat
  owned : Nat
  problems : Array Problem
  owners : Array UInt32

structure Report where
  inodes : Nat
  owned : Nat
  problems : List Problem
deriving DecidableEq

namespace Survey

def note (s : Survey) (p : Problem) : Survey := { s with problems := s.problems.push p }

def noteIf (s : Survey) (c : Prop) [Decidable c] (p : Problem) : Survey :=
  if c then s.note p else s

variable (v : Volume)

def claim (inode : UInt32) (s : Survey) (block : UInt32) : Checked Survey := do
  let used ← v.space.blocks.isUsed block
  let s := s.noteIf (used = false) (.unmarked inode block)
  match s.owners[block.toNat]? with
  | none => throw .indexOutOfRange
  | some 0 => return { s with
      owned := s.owned + 1, owners := s.owners.setIfInBounds block.toNat inode }
  | some other => return s.note (.shared block other inode)

def claimRun (inode : UInt32) (s : Survey) (start : Nat) : (count : Nat) → Checked Survey
  | 0 => .ok s
  | count + 1 => do claim v inode (← claimRun inode s start count) (.ofNat (start + count))

def surveyExtent (inode : UInt32) (s : Survey) (e : Extent) : Checked Survey :=
  let total := v.space.blocks.total
  if total.toNat < e.endBlock then return s.note (.extentOutside inode e total)
  else claimRun v inode s e.start.toNat e.count.toNat

def surveyRecord (s : Survey) (inode : UInt32) (node : Inode) : Checked Survey := do
  let inUse := node.extents.inUse.length
  let s := { s with inodes := s.inodes + 1 }
  let s := s.noteIf (node.extents.stated.toNat ≠ inUse)
    (.extentCount inode node.extents.stated inUse)
  let s := s.noteIf (node.blocks ≠ node.extents.totalBlocks)
    (.blockCount inode node.blocks node.extents.totalBlocks)
  node.extents.inUse.foldlM (surveyExtent v inode) s

def surveyInode (s : Survey) (number : Nat) : Checked Survey := do
  let inode := UInt32.ofNat number
  if ← v.space.inodes.isUsed inode then
    match v.table.get? inode with
    | none => return s.note (.recordMissing inode)
    | some node => surveyRecord v s inode node
  else return s

def surveyBlock (s : Survey) (number : Nat) : Checked Survey := do
  let block := UInt32.ofNat number
  let used ← v.space.blocks.isUsed block
  return s.noteIf (used = true ∧ s.owners[number]? = some 0) (.unowned block)

end Survey

/-- The problems of a volume: those of the counters, then those of each inode in use, then the
blocks that nobody owns. -/
def check (v : Volume) : Checked Report := do
  let blocks := v.space.blocks
  let inodes := v.space.inodes
  let s : Survey := ⟨0, 0, #[], Array.replicate blocks.total.toNat 0⟩
  let used ← blocks.usedCount
  let accounted ← word32 (blocks.free.toNat + used.toNat)
  let s := s.noteIf (accounted ≠ blocks.total) (.freeBlocks blocks.free used blocks.total)
  let used ← inodes.usedCount
  let accounted ← word32 (inodes.free.toNat + used.toNat)
  let s := s.noteIf (accounted ≠ inodes.total) (.freeInodes inodes.free used inodes.total)
  let s ← (List.range' 1 (inodes.total.toNat - 1)).foldlM (Survey.surveyInode v) s
  let s ← (List.range blocks.total.toNat).foldlM (Survey.surveyBlock v) s
  return ⟨s.inodes, s.owned, s.problems.toList⟩

namespace Report

def isClean (r : Report) : Bool := r.problems.isEmpty

def text (r : Report) : String :=
  s!"{r.inodes} inodes checked, {r.owned} blocks owned, {r.problems.length} errors\n" ++
    String.join (r.problems.map fun p => "  - " ++ p.message ++ "\n")

end Report

end ExtentVolume.Consistency
