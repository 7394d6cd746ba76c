import ExtentVolume.Proofs.RegionLayout
import ExtentVolume.Proofs.WriteLog

namespace ExtentVolume

open BlockDevice

namespace Region

variable {first stop n : Nat} {regions : List Region}

/-- The regions follow one another, the first one at `first`, and the last one ends before `stop`.
-/
def Tiles : (first : Nat) → List Region → (stop : Nat) → Prop
  | first, [], stop => first = stop
  | first, r :: rest, stop => r.start = first ∧ Tiles (first + r.count) rest stop

theorem Tiles.le (h : Tiles first regions stop) : first ≤ stop := by
  induction regions generalizing first with
  | nil => exact Nat.le_of_eq h
  | cons r rest ih => exact Nat.le_trans (Nat.le_add_right _ _) (ih h.2)

def numbers (r : Region) : List Nat := List.range' r.start r.count

end Region

/-- Every sum and every product on the way to the layout of a geometry is a 64-bit word. -/
structure Geometry.Words (g : Geometry) : Prop where
  bits : g.inodes.toNat + 7 < 2 ^ 64 ∧ g.blocks.toNat + 7 < 2 ^ 64
  bitBytes : (g.inodes.toNat + 7) / 8 + blockSize < 2 ^ 64 ∧
    (g.blocks.toNat + 7) / 8 + blockSize < 2 ^ 64
  recordBytes : g.inodes.toNat * Inode.slotSize + blockSize < 2 ^ 64
  sum : g.deviceBlocks < 2 ^ 64

theorem Geometry.words (g : Geometry) : g.Words := by
  have hinodes := g.inodes.toNat_lt
  have hblocks := g.blocks.toNat_lt
  have hblock : blockSize = 4096 := rfl
  have hslot : g.inodes.toNat * Inode.slotSize = g.inodes.toNat * 128 := rfl
  refine ⟨?_, ?_, ?_, g.deviceBlocks_lt⟩
  · omega
  · omega
  · omega

namespace Volume

variable {v v' v'' : Volume}

theorem Layout.placed (h : v.Layout) : v.Placed :=
  ⟨h.inodes, h.blocks, h.table, h.data, h.counts.1.symm, h.counts.2.symm⟩

/-- The volumes differ at most in which blocks of the data area are dirty. -/
structure Flushed (v v' : Volume) : Prop where
  superBlock : v'.superBlock = v.superBlock
  space : v'.space = v.space
  table : v'.table = v.table
  start : v'.data.start = v.data.start
  size : v'.data.cells.size = v.data.cells.size
  content : ∀ b, v'.data.block? b = v.data.block? b

theorem Flushed.refl (v : Volume) : Flushed v v := ⟨rfl, rfl, rfl, rfl, rfl, fun _ => rfl⟩

theorem Flushed.symm (h : Flushed v v') : Flushed v' v :=
  ⟨h.superBlock.symm, h.space.symm, h.table.symm, h.start.symm, h.size.symm,
    fun b => (h.content b).symm⟩

theorem Flushed.trans (h : Flushed v v') (h' : Flushed v' v'') : Flushed v v'' :=
  ⟨h'.superBlock.trans h.superBlock, h'.space.trans h.space, h'.table.trans h.table,
    h'.start.trans h.start, h'.size.trans h.size, fun b => (h'.content b).trans (h.content b)⟩

theorem Flushed.sized (h : Flushed v v') (hv : v.Sized) : v'.Sized := by
  constructor
  · rw [h.table, h.space]
    exact hv.table
  · rw [h.table, h.space]
    exact hv.records
  · rw [h.size, h.space]
    exact hv.cells
  · rw [h.space]
    exact hv.inodeReserved
  · rw [h.space]
    exact hv.blockReserved

end Volume

/-- The parts of a volume, each of which is written to the device by itself. -/
inductive Part where
  | superBlock
  | inodeBitmap
  | blockBitmap
  | inodeTable
  | dataArea
deriving DecidableEq

namespace Part

variable {p q : Part} {v v' : Volume}

def all : List Part := [superBlock, inodeBitmap, blockBitmap, inodeTable, dataArea]

theorem mem_all (p : Part) : p ∈ all := by
  cases p <;> decide

def start (v : Volume) : Part → UInt64
  | superBlock => 0
  | inodeBitmap => v.space.inodes.start
  | blockBitmap => v.space.blocks.start
  | inodeTable => v.table.start
  | dataArea => v.data.start

def size (v : Volume) : Part → Nat
  | superBlock => 1
  | inodeBitmap => Bitmap.regionSize v.space.inodes.total
  | blockBitmap => Bitmap.regionSize v.space.blocks.total
  | inodeTable => InodeTable.regionSize v.table.total
  | dataArea => v.data.cells.size

def region (v : Volume) (p : Part) : Region := ⟨(p.start v).toNat, p.size v⟩

/-- The blocks that a part is written as. Of the data area, only the dirty blocks are written. -/
def image (v : Volume) : Part → List Block
  | superBlock => [.ofBytes (Codec.encode v.superBlock)]
  | inodeBitmap => Block.split v.space.inodes.toBytes (Bitmap.regionSize v.space.inodes.total)
  | blockBitmap => Block.split v.space.blocks.toBytes (Bitmap.regionSize v.space.blocks.total)
  | inodeTable =>
    InodeTable.blocksOf (InodeTable.regionSize v.table.total) v.table.records.toList
  | dataArea => []

variable {D : Type} [BlockDevice D]

def sync : Part → Action VolumeError (Mounted D) Unit
  | superBlock => do Mounted.onDisk (← get).volume.superBlock.sync
  | inodeBitmap => do Mounted.onDisk (← get).volume.space.inodes.sync
  | blockBitmap => do Mounted.onDisk (← get).volume.space.blocks.sync
  | inodeTable => do Mounted.onDisk (← get).volume.table.sync
  | dataArea => (Action.within (fun m => (m.volume.data, m.disk))
      (fun m (data, disk) => ⟨{ m.volume with data }, disk⟩) BlockCache.sync).restate .device

theorem map_region (v : Volume) : all.map (region v) = v.regions := rfl

theorem apart (h : v.regions.Pairwise Region.Apart) (hpq : p ≠ q) :
    (p.region v).Apart (q.region v) := by
  have hsymm : Std.Symm fun p q : Part => (p.region v).Apart (q.region v) := ⟨fun _ _ => .symm⟩
  rw [← map_region, List.pairwise_map] at h
  exact h.forall p.mem_all q.mem_all hpq

theorem length_image (hp : p ≠ dataArea) : (p.image v).length = (p.region v).count := by
  cases p with
  | superBlock => rfl
  | inodeBitmap => exact Block.length_split _ _
  | blockBitmap => exact Block.length_split _ _
  | inodeTable => exact InodeTable.length_blocksOf _ _
  | dataArea => exact absurd rfl hp

theorem sync_eq (hv : v.Sized) (hp : p ≠ dataArea) (d : D) :
    p.sync ⟨v, d⟩ = Mounted.onDisk (storeRun (p.start v) 0 (p.image v)) ⟨v, d⟩ := by
  cases p with
  | superBlock =>
    have hrun : storeRun 0 0 [.ofBytes (Codec.encode v.superBlock)] =
        (v.superBlock.sync : Action DeviceError D Unit) := by
      apply bind_pure
    exact congrArg (fun x => Mounted.onDisk x ⟨v, d⟩) hrun.symm
  | inodeBitmap => rfl
  | blockBitmap => rfl
  | inodeTable =>
    have hrecords : blocksFor (v.table.records.size * Inode.slotSize) =
        InodeTable.regionSize v.table.total := by
      rw [hv.records, hv.table]
      rfl
    have hrun : (v.table.sync : Action DeviceError D Unit) =
        storeRun v.table.start 0 (inodeTable.image v) := by
      rw [InodeTable.sync, hrecords]
      rfl
    exact congrArg (fun x => Mounted.onDisk x ⟨v, d⟩) hrun
  | dataArea => exact absurd rfl hp

def writes (v : Volume) : Part → List Nat
  | dataArea => v.data.dirtyNumbers (List.range v.data.cells.size)
  | p => (p.region v).numbers

theorem sync_writes (hv : v.Sized) (hin : (p.region v).start + (p.region v).count ≤ 2 ^ 64)
    (d : LoggedDisk D) : p.sync.Writes (fun m => m.disk.log) ⟨v, d⟩ (p.writes v) := by
  by_cases hp : p = dataArea
  · subst hp
    apply Action.writes_restate
    exact Action.writes_within (BlockCache.sync_writes hin d) rfl fun _ => rfl
  · have hwrites : p.writes v = List.range' ((p.start v).toNat + 0) (p.image v).length := by
      rw [length_image hp]
      cases p with
      | dataArea => exact absurd rfl hp
      | _ => rfl
    rw [hwrites, Action.Writes, Action.Ensures, sync_eq hv hp]
    have hfits : (p.start v).toNat + 0 + (p.image v).length ≤ 2 ^ 64 := by
      rw [length_image hp]
      exact hin
    apply Action.writes_restate
    exact Action.writes_within (LoggedDisk.storeRun_writes hfits d) rfl fun _ => rfl

def Stored (S : Nat → Prop) (v : Volume) (c : Nat → Block) : Part → Prop
  | dataArea => ∀ b, S b → v.data.block? b = some (c (v.data.start.toNat + b))
  | p => Holds c (p.start v).toNat (p.image v)

theorem stored_iff (hp : p ≠ dataArea) {S : Nat → Prop} {c : Nat → Block} :
    p.Stored S v c ↔ Holds c (p.start v).toNat (p.image v) := by
  cases p with
  | dataArea => exact absurd rfl hp
  | _ => rfl

theorem start_flushed (h : v.Flushed v') (p : Part) : p.start v' = p.start v := by
  cases p with
  | superBlock => rfl
  | inodeBitmap => exact congrArg (·.inodes.start) h.space
  | blockBitmap => exact congrArg (·.blocks.start) h.space
  | inodeTable => exact congrArg (·.start) h.table
  | dataArea => exact h.start

theorem image_flushed (h : v.Flushed v') (p : Part) : p.image v' = p.image v := by
  cases p with
  | dataArea => rfl
  | _ => simp only [image, h.superBlock, h.space, h.table]

variable {S : Nat → Prop} {c c' : Nat → Block}

theorem Stored.congr (h : p.Stored S v c) (hflushed : v.Flushed v')
    (hc : ∀ n, (p.region v).Has n → c' n = c n) : p.Stored S v' c' := by
  by_cases hp : p = dataArea
  · subst hp
    intro b hb
    have hblock := h b hb
    have hlt := BlockCache.lt_of_block? hblock
    have hkept : c' (v.data.start.toNat + b) = c (v.data.start.toNat + b) :=
      hc _ ⟨Nat.le_add_right _ _, Nat.add_lt_add_left hlt _⟩
    rw [hflushed.content, hflushed.start, hkept, hblock]
  · rw [stored_iff hp] at h ⊢
    rw [start_flushed hflushed, image_flushed hflushed]
    apply h.congr_region
    rw [length_image hp]
    exact hc

structure Progress (S : Nat → Prop) (done : Part → Prop) (v : Volume) (c : Nat → Block) : Prop where
  backed : ∀ b, S b → v.data.Backed c b
  stored : ∀ p, done p → p.Stored S v c

theorem backed_congr {b : Nat} (h : v.data.Backed c b)
    (hc : ∀ n, (dataArea.region v).Has n → c' n = c n) : v.data.Backed c' b := by
  apply Or.imp_right _ h
  intro hblock
  have hstored : dataArea.Stored (· = b) v c := by
    rintro _ rfl
    exact hblock
  exact hstored.congr (.refl v) hc b rfl

variable {holds : D → (Nat → Block) → Prop} {d : D} {limit : Nat} {done : Part → Prop}

theorem sync_ensures (hv : v.Sized) (hapart : v.regions.Pairwise Region.Apart)
    (hin : (p.region v).start + (p.region v).count ≤ limit) (hlimit : limit ≤ 2 ^ 64)
    (htracks : Tracks holds) (hd : holds d c) (h : Progress S done v c) :
    Action.Ensures p.sync ⟨v, d⟩
      (fun _ m => v.Flushed m.volume ∧ ∃ c', holds m.disk c' ∧
        Progress S (fun q => done q ∨ q = p) m.volume c')
      (fun _ _ => Refuses holds limit) False := by
  -- of the data area only dirty blocks are written, of any other part its whole region
  by_cases hp : p = dataArea
  · subst hp
    rw [sync, Action.ensures_restate, Action.ensures_within]
    apply (BlockCache.sync_ensures htracks hd hlimit hin).mono
    · rintro _ ⟨data, d'⟩ ⟨c', hd', hback, hdone⟩
      have hflushed : v.Flushed { v with data } :=
        ⟨rfl, rfl, rfl, hback.start, hback.size, hback.content⟩
      refine ⟨hflushed, c', hd', fun b hb => hback.backed (h.backed b hb), ?_⟩
      intro q hq
      by_cases hqp : q = dataArea
      · subst hqp
        intro b hb
        rw [hback.start]
        exact hdone b (h.backed b hb)
      · apply (h.stored q (hq.resolve_right hqp)).congr hflushed
        intro n hn
        exact hback.outside (apart hapart hqp n hn)
    · rintro _ _ ⟨hrefused, -⟩
      exact hrefused
    · exact id
  · have hfits : (p.start v).toNat + 0 + (p.image v).length ≤ limit := by
      rw [length_image hp]
      exact hin
    have hkeep : ∀ q, q ≠ p → ∀ n, (q.region v).Has n →
        replaced c (p.start v).toNat (p.image v) n = c n := by
      intro q hqp n hn
      apply replaced_apart _ hn
      rw [length_image hp]
      exact apart hapart hqp
    rw [Action.Ensures, sync_eq hv hp]
    apply Action.ensures_restate.2
    apply Action.ensures_within.2
    apply (storeRun_ensures htracks hd hlimit hfits).mono
    · intro _ d' hd'
      refine ⟨.refl v, _, hd', ?_, ?_⟩
      · intro b hb
        exact backed_congr (h.backed b hb) (hkeep dataArea (Ne.symm hp))
      · intro q hq
        by_cases hqp : q = p
        · subst hqp
          exact (stored_iff hp).2 holds_replaced
        · exact (h.stored q (hq.resolve_right hqp)).congr (.refl v) (hkeep q hqp)
    · rintro _ _ ⟨hrefused, -⟩
      exact hrefused
    · exact id

end Part

end ExtentVolume
