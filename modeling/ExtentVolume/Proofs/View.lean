import ExtentVolume.Proofs.Operations

namespace ExtentVolume

theorem Inode.read_congr {node : Inode} {data data' : BlockCache}
    (hsize : data'.cells.size = data.cells.size)
    (hin : ∀ b ∈ node.extents.blockNumbers, b < data.cells.size)
    (hblocks : ∀ b ∈ node.extents.blockNumbers, data'.block? b = data.block? b) :
    node.read data' = node.read data := by
  funext offset length
  unfold Inode.read
  split
  · rfl
  · rw [readExtents_eq hin, readExtents_eq (fun b hb => hsize ▸ hin b hb)]
    simp only [byteIn_congr hblocks]

namespace Volume

/-- What belongs to the inode is the same in both volumes. -/
structure SameAt (n : UInt32) (v v' : Volume) : Prop where
  inode : v'.inode n = v.inode n
  cells : v'.data.cells.size = v.data.cells.size
  blocks : ∀ b ∈ v.blocksOf n, v'.data.block? b = v.data.block? b

variable {v v' : Volume} {n : UInt32} {node : Inode}

theorem live_of_inode (hv : v.Sized) (hnode : v.inode n = .ok node) :
    v.live? n = some node ∧ node.number = n :=
  (inode_ensures hv n).of_ok hnode

theorem directory_congr (h : v'.inode n = v.inode n) : v'.directory n = v.directory n := by
  rw [directory, directory, h]

theorem live_of_directory (hv : v.Sized) (hnode : v.directory n = .ok node) :
    v.live? n = some node ∧ node.number = n ∧ node.isDirectory = true :=
  (directory_ensures hv n).of_ok hnode

theorem bind_congr_ok {ε α β : Type} {x y : Fallible ε α} {f g : α → Fallible ε β} (hxy : x = y)
    (h : ∀ a, y = .ok a → f a = g a) : x >>= f = y >>= g := by
  subst hxy
  cases x with
  | ok a => exact h a rfl
  | error e => rfl

theorem Whole.cells_lt (h : v.Whole) : v.data.cells.size < 2 ^ 32 := by
  rw [h.sized.cells]
  exact v.space.blocks.total.toNat_lt

theorem Whole.blocks_lt (h : v.Whole) (hlive : v.live? n = some node) :
    ∀ b ∈ node.extents.blockNumbers, b < v.data.cells.size := by
  intro b hb
  rw [h.sized.cells]
  exact h.consistent.inside n b (blocksOf_live hlive ▸ hb)

theorem SameAt.node_read (hsame : SameAt n v v') (h : v.Whole) (hlive : v.live? n = some node) :
    node.read v'.data = node.read v.data :=
  Inode.read_congr hsame.cells (h.blocks_lt hlive)
    fun b hb => hsame.blocks b (blocksOf_live hlive ▸ hb)

theorem SameAt.read (hsame : SameAt n v v') (h : v.Whole) : v'.read n = v.read n := by
  funext offset length
  apply bind_congr_ok hsame.inode
  intro node hnode
  rw [hsame.node_read h (live_of_inode h.sized hnode).1]

theorem SameAt.readAll (hsame : SameAt n v v') (h : v.Whole) : v'.readAll n = v.readAll n := by
  apply bind_congr_ok hsame.inode
  intro node hnode
  rw [Inode.readAll, Inode.readAll, hsame.node_read h (live_of_inode h.sized hnode).1]

theorem SameAt.inside (hsame : SameAt n v v') (h : v.Whole) (hlive : v.live? n = some node) :
    Directory.Inside v'.data node :=
  ⟨hsame.cells ▸ h.cells_lt, fun b hb => hsame.cells ▸ h.blocks_lt hlive b hb⟩

theorem SameAt.slots (hsame : SameAt n v v') (hlive : v.live? n = some node) :
    Directory.slots v'.data node = Directory.slots v.data node :=
  Directory.slots_congr fun b hb => hsame.blocks b (blocksOf_live hlive ▸ hb)

theorem SameAt.list (hsame : SameAt n v v') (h : v.Whole) : v'.list n = v.list n := by
  funext position limit
  apply bind_congr_ok (directory_congr hsame.inode)
  intro node hnode
  have hlive := (live_of_directory h.sized hnode).1
  rw [Directory.list_congr (h.inside hlive) (hsame.inside h hlive) (hsame.slots hlive)]

theorem SameAt.lookup (hsame : SameAt n v v') (h : v.Whole) (name : String) :
    v'.lookup n name = v.lookup n name := by
  apply bind_congr_ok (directory_congr hsame.inode)
  intro node hnode
  have hlive := (live_of_directory h.sized hnode).1
  rw [Directory.lookup, Directory.lookup, Directory.find_eq (h.inside hlive),
    Directory.find_eq (hsame.inside h hlive), hsame.slots hlive]

theorem inode_congr (hsized : v.Sized) (hsized' : v'.Sized) (h : v'.live? n = v.live? n) :
    v'.inode n = v.inode n := by
  rw [inode_eq hsized', inode_eq hsized, h]

theorem Steps.sameAt {S : UInt32 → Prop} (hsteps : Steps S v v') (h : v.Whole) (hn : ¬S n) :
    SameAt n v v' := by
  obtain ⟨hget, hused, hcells⟩ := hsteps.untouched h hn
  have hlive : v'.live? n = v.live? n := by rw [live?, live?, hget, hused]
  exact ⟨inode_congr h.sized (hsteps.whole h).sized hlive, (hsteps.shape h).cells,
    fun b hb => BlockCache.block?_congr (hcells b hb)⟩

theorem Sound.mapped (h : v.Sound) (hlive : v.live? n = some node) : node.Mapped v.data := by
  refine ⟨h.whole.consistent.counted n node hlive, h.whole.blocks_lt hlive, h.whole.cells_lt, ?_,
    (h.content n node hlive).mapped⟩
  rw [← blocksOf_live hlive]
  exact h.whole.consistent.nodup n

theorem Sound.inode_eq (h : v.Sound) (hlive : v.live? n = some node) : v.inode n = .ok node :=
  inode_of_live h.whole.sized hlive (h.number n node hlive)

theorem Sound.read_eq (h : v.Sound) (hlive : v.live? n = some node) (offset length : Nat) :
    v.read n offset length = .ok (((node.content v.data).drop offset).take length) := by
  rw [read, h.inode_eq hlive]
  exact (h.mapped hlive).read offset length

theorem Sound.readAll_eq (h : v.Sound) (hlive : v.live? n = some node) :
    v.readAll n = .ok (node.content v.data) := by
  rw [readAll, h.inode_eq hlive]
  exact (h.mapped hlive).readAll

theorem Sound.list_eq (h : v.Sound) (hlive : v.live? n = some node) (position limit : Nat) :
    v.list n position limit = if node.isDirectory then .ok (Directory.list v.data node position limit)
      else fail (.notADirectory s!"inode {n}") := by
  rw [list, directory, h.inode_eq hlive]
  cases hdir : node.isDirectory <;>
    simp [bind, Except.bind, pure, Except.pure, fail, hdir]

/-- The metadata are the same, and so is the content of every block in use. -/
structure SameFiles (v v' : Volume) : Prop where
  space : v'.space = v.space
  table : v'.table = v.table
  start : v'.data.start = v.data.start
  cells : v'.data.cells.size = v.data.cells.size
  blocks : ∀ n, ∀ b ∈ v.blocksOf n, v'.data.block? b = v.data.block? b

theorem SameFiles.live (h : SameFiles v v') (n : UInt32) : v'.live? n = v.live? n := by
  rw [live?, live?, h.space, h.table]

theorem SameFiles.blocksOf (h : SameFiles v v') (n : UInt32) : v'.blocksOf n = v.blocksOf n := by
  rw [Volume.blocksOf, Volume.blocksOf, h.live]

theorem SameFiles.sized (h : SameFiles v v') (hv : v.Sized) : v'.Sized := by
  obtain ⟨table, records, cells, inodeReserved, blockReserved⟩ := hv
  rw [← h.space] at table records cells inodeReserved blockReserved
  rw [← h.table] at table records
  exact ⟨table, records, h.cells.trans cells, inodeReserved, blockReserved⟩

theorem SameFiles.whole (h : SameFiles v v') (hv : v.Whole) : v'.Whole := by
  refine ⟨h.sized hv.sized, ⟨?_, ?_, ?_, ?_, ?_, ?_, ?_, ?_⟩, h.space ▸ hv.inodePadding,
    h.space ▸ hv.blockPadding⟩
  · exact h.space ▸ hv.consistent.freeInodes
  · exact h.space ▸ hv.consistent.freeBlocks
  · simpa only [h.live] using hv.consistent.counted
  · simpa only [h.live] using hv.consistent.held
  · simpa only [h.blocksOf, h.space] using hv.consistent.inside
  · simpa only [h.blocksOf] using hv.consistent.nodup
  · simpa only [h.blocksOf] using hv.consistent.unshared
  · simpa only [h.blocksOf, h.space] using hv.consistent.used_iff

theorem SameFiles.sound (h : SameFiles v v') (hv : v.Sound) : v'.Sound := by
  refine ⟨h.whole hv.whole, fun n node hlive => ?_, fun n node hlive => ?_⟩
  · exact hv.number n node (h.live n ▸ hlive)
  · rw [h.live] at hlive
    exact sound_congr (hv.content n node hlive) rfl rfl
      fun b hb => h.blocks n b (blocksOf_live hlive ▸ hb)

theorem SameFiles.sameAt (h : SameFiles v v') (hv : v.Whole) (n : UInt32) : SameAt n v v' :=
  ⟨inode_congr hv.sized (h.sized hv.sized) (h.live n), h.cells, h.blocks n⟩

end Volume

namespace Consistency

open Survey

variable {v v' : Volume}

theorem claimRun_congr (hspace : v'.space = v.space) : claimRun v' = claimRun v := by
  funext inode s start count
  induction count with
  | zero => rfl
  | succ count ih =>
    have hclaim : claim v' = claim v := by
      funext inode s block
      rw [claim, claim, hspace]
    rw [claimRun, claimRun, ih, hclaim]

theorem surveyInode_congr (hspace : v'.space = v.space) (htable : v'.table = v.table) :
    surveyInode v' = surveyInode v := by
  have hextent : surveyExtent v' = surveyExtent v := by
    funext inode s e
    rw [surveyExtent, surveyExtent, hspace, claimRun_congr hspace]
  have hrecord : surveyRecord v' = surveyRecord v := by
    funext s inode node
    rw [surveyRecord, surveyRecord, hextent]
  funext s number
  rw [surveyInode, surveyInode, hspace, htable, hrecord]

theorem check_congr (hspace : v'.space = v.space) (htable : v'.table = v.table) :
    check v' = check v := by
  have hblock : surveyBlock v' = surveyBlock v := by
    funext s number
    rw [surveyBlock, surveyBlock, hspace]
  rw [check, check, hspace, surveyInode_congr hspace htable, hblock]

end Consistency

end ExtentVolume
