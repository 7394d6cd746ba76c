import ExtentVolume.Volume.Mounted
import ExtentVolume.Proofs.Regions
import ExtentVolume.Proofs.View
import ExtentVolume.Proofs.WriteBack

namespace ExtentVolume

open BlockDevice

theorem Geometry.deviceBytes_lt (g : Geometry) : g.deviceBlocks * blockSize < 2 ^ 64 := by
  have hblocks := g.blocks.toNat_lt
  have hinodes := g.inodes.toNat_lt
  simp only [deviceBlocks, dataStart, inodeTableStart, blockBitmapStart, inodeBitmapStart,
    Bitmap.regionSize, InodeTable.regionSize, blocksForBits, blocksFor, blockSize, Inode.slotSize]
  omega

theorem Geometry.deviceBlocks_lt (g : Geometry) : g.deviceBlocks < 2 ^ 64 :=
  Nat.lt_of_le_of_lt (Nat.le_mul_of_pos_right _ (by decide)) g.deviceBytes_lt

theorem Geometry.toNat_ofNat (g : Geometry) {n : Nat} (h : n ≤ g.deviceBlocks) :
    (UInt64.ofNat n).toNat = n :=
  UInt64.toNat_ofNat_of_lt' (Nat.lt_of_le_of_lt h g.deviceBlocks_lt)

namespace Volume

def geometry (v : Volume) : Geometry := ⟨v.space.blocks.total, v.space.inodes.total⟩

/-- The superblock is that of the geometry of the volume, up to its counters, and the parts lie
where it says. -/
structure Layout (v : Volume) : Prop where
  superBlock : v.superBlock =
    { SuperBlock.ofGeometry v.geometry v.superBlock.id v.superBlock.created with
      freeBlocks := v.superBlock.freeBlocks
      freeInodes := v.superBlock.freeInodes }
  inodes : v.space.inodes.start = v.superBlock.inodeBitmapStart
  blocks : v.space.blocks.start = v.superBlock.blockBitmapStart
  table : v.table.start = v.superBlock.inodeTableStart
  data : v.data.start = v.superBlock.dataStart

def Backed (v : Volume) (c : Nat → Block) : Prop := ∀ n, ∀ b ∈ v.blocksOf n, v.data.Backed c b

/-- The volume is on the device: its metadata, and the content of all blocks in use. -/
structure Stored (v : Volume) (c : Nat → Block) : Prop where
  superBlock : Holds c 0 [.ofBytes (Codec.encode v.superBlock)]
  inodes : Holds c v.space.inodes.start.toNat
    (Block.split v.space.inodes.toBytes (Bitmap.regionSize v.space.inodes.total))
  blocks : Holds c v.space.blocks.start.toNat
    (Block.split v.space.blocks.toBytes (Bitmap.regionSize v.space.blocks.total))
  table : Holds c v.table.start.toNat
    (InodeTable.blocksOf (InodeTable.regionSize v.table.total) v.table.records.toList)
  data : ∀ n, ∀ b ∈ v.blocksOf n, v.data.block? b = some (c (v.data.start.toNat + b))

/-- The superblock with the counters of free blocks and inodes that the volume has. -/
def counted (v : Volume) : SuperBlock :=
  { v.superBlock with freeInodes := v.space.inodes.free, freeBlocks := v.space.blocks.free }

/-- What a sync changes in memory: the counters in the superblock, and which blocks are dirty. -/
structure Settled (v v' : Volume) : Prop extends SameFiles v v' where
  superBlock : v'.superBlock = v.counted
  content : ∀ b, v'.data.block? b = v.data.block? b

variable {v v' : Volume} {c c' : Nat → Block}

theorem SameShape.layout (h : SameShape v v') (hv : v.Layout) : v'.Layout := by
  refine ⟨?_, ?_, ?_, ?_, ?_⟩
  · rw [geometry, h.superBlock, h.blocks.2.1, h.inodes.2.1]
    exact hv.superBlock
  · rw [h.inodes.2.2, h.superBlock, hv.inodes]
  · rw [h.blocks.2.2, h.superBlock, hv.blocks]
  · rw [h.tableStart, h.superBlock, hv.table]
  · rw [h.dataStart, h.superBlock, hv.data]

theorem Settled.layout (h : Settled v v') (hv : v.Layout) : v'.Layout := by
  refine ⟨?_, ?_, ?_, ?_, ?_⟩
  · rw [geometry, h.superBlock, h.space]
    exact congrArg (fun s : SuperBlock => { s with
      freeInodes := v.space.inodes.free, freeBlocks := v.space.blocks.free }) hv.superBlock
  · rw [h.space, h.superBlock, hv.inodes]
    rfl
  · rw [h.space, h.superBlock, hv.blocks]
    rfl
  · rw [h.table, h.superBlock, hv.table]
    rfl
  · rw [h.start, h.superBlock, hv.data]
    rfl

theorem Layout.geometry_eq (h : v.Layout) : v.superBlock.geometry = v.geometry := by
  rw [h.superBlock]
  rfl

theorem Layout.root_eq (h : v.Layout) : v.superBlock.root = SuperBlock.rootNumber := by
  rw [h.superBlock]
  rfl

theorem Layout.counts (h : v.Layout) : v.superBlock.inodeCount = v.space.inodes.total ∧
    v.superBlock.blockCount = v.space.blocks.total := by
  rw [h.superBlock]
  exact ⟨rfl, rfl⟩

theorem Layout.deviceBlocks_eq (h : v.Layout) :
    v.superBlock.deviceBlocks = v.geometry.deviceBlocks := by
  have hstart : (UInt64.ofNat v.geometry.dataStart).toNat = v.geometry.dataStart :=
    v.geometry.toNat_ofNat (Nat.le_add_right _ _)
  rw [h.superBlock]
  exact congrArg (· + v.geometry.blocks.toNat) hstart

theorem Layout.starts (h : v.Layout) :
    v.space.inodes.start.toNat = 1 ∧ v.space.blocks.start.toNat = v.geometry.blockBitmapStart ∧
      v.table.start.toNat = v.geometry.inodeTableStart ∧
      v.data.start.toNat = v.geometry.dataStart := by
  have hdata : v.geometry.dataStart ≤ v.geometry.deviceBlocks := Nat.le_add_right _ _
  have htable : v.geometry.inodeTableStart ≤ v.geometry.dataStart := Nat.le_add_right _ _
  have hblocks : v.geometry.blockBitmapStart ≤ v.geometry.inodeTableStart := Nat.le_add_right _ _
  rw [h.inodes, h.blocks, h.table, h.data, h.superBlock]
  exact ⟨rfl, v.geometry.toNat_ofNat (by omega), v.geometry.toNat_ofNat (by omega),
    v.geometry.toNat_ofNat hdata⟩

theorem Layout.places (h : v.Layout) :
    v.space.inodes.start.toNat = 1 ∧
      v.space.blocks.start.toNat = 1 + Bitmap.regionSize v.space.inodes.total ∧
      v.table.start.toNat = v.space.blocks.start.toNat + Bitmap.regionSize v.space.blocks.total ∧
      v.data.start.toNat = v.table.start.toNat + InodeTable.regionSize v.space.inodes.total ∧
      v.geometry.deviceBlocks = v.data.start.toNat + v.space.blocks.total.toNat := by
  obtain ⟨hinodes, hblocks, htable, hdata⟩ := h.starts
  rw [hinodes, hblocks, htable, hdata]
  exact ⟨rfl, rfl, rfl, rfl, rfl⟩

theorem Layout.fits (h : v.Layout) {deviceBlocks : Nat}
    (hroom : v.geometry.deviceBlocks ≤ deviceBlocks) : v.superBlock.Fits deviceBlocks := by
  obtain ⟨-, -, htable, hdata⟩ := h.starts
  refine ⟨?_, ?_, ?_, ?_, ?_⟩
  · rw [h.superBlock]
    rfl
  · rw [h.superBlock]
    rfl
  · rw [h.geometry_eq, ← h.data, hdata]
  · rw [h.geometry_eq, ← h.table, htable]
  · rw [h.deviceBlocks_eq]
    exact hroom

theorem Backed.congr (h : v.Backed c) (hc : ∀ n, v.data.start.toNat ≤ n → c' n = c n) :
    v.Backed c' := by
  intro n b hb
  rw [BlockCache.Backed, hc _ (Nat.le_add_right _ _)]
  exact h n b hb

theorem Backed.steps {S : UInt32 → Prop} (h : v.Backed c) (hsteps : Steps S v v') (hv : v.Whole) :
    v'.Backed c := by
  intro n b hb
  have hstart := (hsteps.shape hv).dataStart
  obtain ⟨m, hm⟩ | hdirty := (hsteps.dirty hv).2 n b hb
  · obtain hcell | hdirty := (hsteps.dirty hv).1 b
    · obtain ⟨content, hold⟩ | hblock := h m b hm
      · exact .inl ⟨content, hcell.trans hold⟩
      · right
        rw [BlockCache.block?_congr hcell, hstart]
        exact hblock
    · exact .inl hdirty
  · exact .inl hdirty

theorem Settled.recounted (h : Settled v v') : v'.superBlock = v'.counted := by
  rw [counted, h.superBlock, h.space]
  rfl

theorem settled_counted (v : Volume) : Settled v { v with superBlock := v.counted } :=
  ⟨⟨rfl, rfl, rfl, rfl, fun _ _ _ => rfl⟩, rfl, fun _ => rfl⟩

theorem settled_writtenBack {data : BlockCache} (h : BlockCache.WrittenBack v.data data c c') :
    Settled v { v with superBlock := v.counted, data } :=
  ⟨⟨rfl, rfl, h.start, h.size, fun _ b _ => h.content b⟩, rfl, h.content⟩

section Sync

variable {D : Type} [BlockDevice D] {holds : D → (Nat → Block) → Prop} {d : D} {limit : Nat}

/-- The regions of the list, all of which end before `next`, have been written, and nothing was from
`bound` on. -/
structure Written (c₀ : Nat → Block) (bound next : Nat) (regions : List (Nat × List Block))
    (c : Nat → Block) : Prop where
  behind : ∀ n, bound ≤ n → c n = c₀ n
  holds : ∀ r ∈ regions, r.1 + r.2.length ≤ next ∧ Holds c r.1 r.2

theorem Written.keep {c₀ : Nat → Block} {bound next : Nat} {regions : List (Nat × List Block)}
    (h : Written c₀ bound next regions c) (hc : ∀ n < next, c' n = c n) :
    ∀ r ∈ regions, Holds c' r.1 r.2 := by
  intro r hr
  obtain ⟨hbefore, hrun⟩ := h.holds r hr
  exact hrun.congr fun n _ hn => hc n (by omega)

theorem superBlock_ensures {s : SuperBlock} {bound : Nat} (htracks : Tracks holds) (hd : holds d c)
    (hlimit : limit ≤ 2 ^ 64) (hbound : bound ≤ limit) (hpos : 0 < bound) :
    Action.Ensures s.sync d
      (fun _ d' => ∃ c', holds d' c' ∧ Written c bound 1 [(0, [.ofBytes (Codec.encode s)])] c')
      (fun _ d' => Refuses holds limit ∧ ∃ c', holds d' c' ∧ ∀ n, bound ≤ n → c' n = c n)
      False := by
  have hin : (0 : UInt64).toNat + 0 < limit := by
    simp only [UInt64.toNat_zero]
    omega
  refine (store_ensures htracks hd hlimit hin _).mono ?_ ?_ id
  · intro _ d' hd'
    refine ⟨_, hd', fun n hn => ?_, ?_⟩
    · apply Function.update_of_ne
      simp only [UInt64.toNat_zero]
      omega
    · intro r hr
      obtain rfl := List.mem_singleton.1 hr
      refine ⟨Nat.le_refl 1, ?_⟩
      rintro (_ | i) b hi
      · obtain rfl := Option.some.inj hi
        exact Function.update_self _ _ _
      · cases hi
  · rintro _ d' ⟨rfl, hrefused⟩
    exact ⟨hrefused, c, hd, fun _ _ => rfl⟩

theorem region_ensures {start : UInt64} {blocks : List Block} {bound next : Nat} {c₀ : Nat → Block}
    {regions : List (Nat × List Block)} (htracks : Tracks holds) (hd : holds d c)
    (hw : Written c₀ bound next regions c) (hlimit : limit ≤ 2 ^ 64) (hbound : bound ≤ limit)
    (hnext : next ≤ start.toNat) (hin : start.toNat + blocks.length ≤ bound) :
    Action.Ensures (storeRun start 0 blocks) d
      (fun _ d' => ∃ c', holds d' c' ∧
        Written c₀ bound (start.toNat + blocks.length) ((start.toNat, blocks) :: regions) c')
      (fun _ d' => Refuses holds limit ∧ ∃ c', holds d' c' ∧ ∀ n, bound ≤ n → c' n = c₀ n)
      False := by
  refine (storeRun_ensures htracks hd hlimit (by omega)).mono ?_ ?_ id
  · intro _ d' hd'
    refine ⟨_, hd', fun n hn => ?_, ?_⟩
    · exact (replaced_outside (.inr (by omega))).trans (hw.behind n hn)
    · rw [List.forall_mem_cons]
      refine ⟨⟨Nat.le_refl _, holds_replaced⟩, fun r hr => ?_⟩
      obtain ⟨hbefore, hrun⟩ := hw.holds r hr
      exact ⟨by omega, hrun.replaced (.inl (by omega))⟩
  · rintro _ d' ⟨hrefused, written, hd'⟩
    refine ⟨hrefused, _, hd', fun n hn => (replaced_outside (.inr ?_)).trans (hw.behind n hn)⟩
    rw [List.length_take]
    omega

/-- A sync that succeeds leaves the volume on the device. One that fails met with a refused write,
and loses nothing. -/
theorem sync_ensures (hv : v.Sized) (hlayout : v.Layout) (htracks : Tracks holds) (hd : holds d c)
    (hbacked : v.Backed c) :
    Action.Ensures Mounted.sync ⟨v, d⟩
      (fun _ m => ∃ c', holds m.disk c' ∧ Settled v m.volume ∧ m.volume.Backed c' ∧
        m.volume.Stored c')
      (fun _ m => Refuses holds v.geometry.deviceBlocks ∧
        ∃ c', holds m.disk c' ∧ Settled v m.volume ∧ m.volume.Backed c') False := by
  obtain ⟨hinodes, hblocks, htable, hdata, hend⟩ := hlayout.places
  have hlimit : v.geometry.deviceBlocks ≤ 2 ^ 64 := Nat.le_of_lt v.geometry.deviceBlocks_lt
  generalize v.geometry.deviceBlocks = limit at hend hlimit ⊢
  have hpos : 0 < limit := by omega
  have hbound : v.data.start.toNat ≤ limit := by omega
  have hrecords : blocksFor (v.table.records.size * Inode.slotSize) =
      InodeTable.regionSize v.space.inodes.total := by
    rw [hv.records]
    rfl
  -- the metadata lie before the data area, so a refusal there leaves its blocks as they were
  have hfailed : ∀ d' : D, (∃ c', holds d' c' ∧ ∀ n, v.data.start.toNat ≤ n → c' n = c n) →
      ∃ c', holds d' c' ∧ Settled v { v with superBlock := v.counted } ∧
        Backed { v with superBlock := v.counted } c' := by
    rintro d' ⟨c', hd', hc'⟩
    exact ⟨c', hd', settled_counted v, hbacked.congr hc'⟩
  simp only [Mounted.sync, Mounted.onVolume, Mounted.onDisk, FreeSpace.sync, Bitmap.sync,
    InodeTable.sync, hrecords, Action.ensures_bind, Action.ensures_get, Action.ensures_within,
    Action.ensures_modify, Action.ensures_restate]
  refine (superBlock_ensures htracks hd hlimit hbound (by omega)).mono ?_
    (fun _ d' h => ⟨h.1, hfailed d' h.2⟩) id
  rintro _ d₁ ⟨c₁, hd₁, hw₁⟩
  refine (region_ensures htracks hd₁ hw₁ hlimit hbound (by omega) (by
    rw [Block.length_split]
    omega)).mono ?_ (fun _ d' h => ⟨h.1, hfailed d' h.2⟩) id
  rintro _ d₂ ⟨c₂, hd₂, hw₂⟩
  rw [Block.length_split] at hw₂
  refine (region_ensures htracks hd₂ hw₂ hlimit hbound (by omega) (by
    rw [Block.length_split]
    omega)).mono ?_ (fun _ d' h => ⟨h.1, hfailed d' h.2⟩) id
  rintro _ d₃ ⟨c₃, hd₃, hw₃⟩
  rw [Block.length_split] at hw₃
  refine (region_ensures htracks hd₃ hw₃ hlimit hbound (by omega) (by
    rw [InodeTable.length_blocksOf]
    omega)).mono ?_ (fun _ d' h => ⟨h.1, hfailed d' h.2⟩) id
  rintro _ d₄ ⟨c₄, hd₄, hw₄⟩
  rw [InodeTable.length_blocksOf] at hw₄
  have hbacked₄ : v.Backed c₄ := hbacked.congr hw₄.behind
  refine (BlockCache.sync_ensures htracks hd₄ hlimit (by rw [hv.cells]; omega)).mono ?_ ?_ id
  · rintro _ ⟨data, d₅⟩ ⟨c₅, hd₅, hback, hdone⟩
    have hkept := hw₄.keep fun n hn => hback.before n (by omega)
    simp only [List.forall_mem_cons] at hkept
    obtain ⟨htable₅, hblocks₅, hinodes₅, hsuper₅, -⟩ := hkept
    rw [← hv.table] at htable₅
    refine ⟨c₅, hd₅, settled_writtenBack hback, fun n b hb => hback.backed (hbacked₄ n b hb),
      hsuper₅, hinodes₅, hblocks₅, htable₅, fun n b hb => ?_⟩
    rw [hback.start]
    exact hdone b (hbacked₄ n b hb)
  · rintro _ ⟨data, d₅⟩ ⟨hrefused, c₅, hd₅, hback⟩
    exact ⟨hrefused, c₅, hd₅, settled_writtenBack hback,
      fun n b hb => hback.backed (hbacked₄ n b hb)⟩

end Sync

def reloaded (v : Volume) (c : Nat → Block) : Volume :=
  { v with data := BlockCache.ofDevice v.data.start v.space.blocks.total.toNat c }

theorem Stored.sameFiles (h : v.Stored c) (hv : v.Whole) : SameFiles v (v.reloaded c) := by
  refine ⟨rfl, rfl, rfl, ?_, fun n b hb => ?_⟩
  · rw [hv.sized.cells]
    simp [reloaded, BlockCache.ofDevice]
  · rw [h.data n b hb]
    exact BlockCache.block?_ofDevice (hv.consistent.inside n b hb)

theorem Stored.reload (h : v.Stored c) (hv : v.Whole) : (v.reloaded c).Stored c := by
  refine ⟨h.superBlock, h.inodes, h.blocks, h.table, fun n b hb => ?_⟩
  exact BlockCache.block?_ofDevice (hv.consistent.inside n b hb)

theorem Layout.reload (h : v.Layout) (c : Nat → Block) : (v.reloaded c).Layout :=
  ⟨h.superBlock, h.inodes, h.blocks, h.table, h.data⟩

theorem Stored.backed (h : v.Stored c) : v.Backed c := fun n b hb => .inr (h.data n b hb)

theorem mount_eq {D : Type} [BlockDevice D] {d : D} (hv : v.Whole) (hlayout : v.Layout)
    (hstored : v.Stored c) (hshows : Shows d v.geometry.deviceBlocks c)
    (hroom : v.geometry.deviceBlocks ≤ BlockDevice.blockCount d) :
    mount d = if (v.table.get? v.superBlock.root).any (·.isDirectory) then .ok (v.reloaded c)
      else fail (.corrupted .rootMissing) := by
  obtain ⟨hinodes, hblocks, htable, hdata, hend⟩ := hlayout.places
  have hsuper : SuperBlock.load d = .ok v.superBlock :=
    SuperBlock.load_ok (hlayout.fits hroom) hshows hstored.superBlock (by omega)
  obtain ⟨hinodeCount, hblockCount⟩ := hlayout.counts
  have hinodes' :
      Bitmap.load d 1 v.space.inodes.total v.space.inodes.start = .ok v.space.inodes := by
    rw [← hv.sized.inodeReserved]
    exact Bitmap.load_ok hv.exactInodes hshows hstored.inodes (by omega)
  have hblocks' :
      Bitmap.load d 0 v.space.blocks.total v.space.blocks.start = .ok v.space.blocks := by
    rw [← hv.sized.blockReserved]
    exact Bitmap.load_ok hv.exactBlocks hshows hstored.blocks (by omega)
  have htable' : InodeTable.load d v.space.inodes.total v.table.start = .ok v.table := by
    rw [← hv.sized.table]
    refine InodeTable.load_ok ?_ hshows hstored.table ?_
    · rw [hv.sized.records, hv.sized.table]
    · rw [hv.sized.table]
      omega
  have hdata' : BlockCache.load d v.data.start v.space.blocks.total = .ok (v.reloaded c).data :=
    BlockCache.load_eq hshows (by omega)
  simp only [mount, hsuper, hinodeCount, hblockCount, ← hlayout.inodes, ← hlayout.blocks,
    ← hlayout.table, ← hlayout.data, FreeSpace.load, hinodes', hblocks', htable', hdata',
    Fallible.restate, bind, Except.bind, pure, Except.pure, reloaded]

theorem fetched_of_loadFrom {D : Type} [BlockDevice D] {d : D} {start : UInt64}
    {blocks index count : Nat} {nodes : List Inode}
    (h : InodeTable.loadFrom d start blocks index count = .ok nodes) :
    ∀ i < blocks, ∃ b, fetch d start (index + i) = .ok b := by
  induction blocks generalizing index count nodes with
  | zero => simp
  | succ blocks ih =>
    obtain ⟨b, hb, hrest⟩ := Fallible.of_bind_ok h
    intro i hi
    cases i with
    | zero => exact ⟨b, Fallible.of_restate_ok hb⟩
    | succ i =>
      dsimp only at hrest
      split at hrest
      · obtain ⟨nodes', hnodes', -⟩ := Fallible.of_bind_ok hrest
        have hih := ih hnodes' i (by omega)
        rwa [Nat.add_assoc, Nat.add_comm 1] at hih
      · cases hrest

theorem shows_of_mount {D : Type} [BlockDevice D] [FaithfulDevice D] {d : D}
    (hvalid : FaithfulDevice.Valid d) (hlayout : v.Layout)
    (hstored : v.Stored (FaithfulDevice.held d))
    (hroom : v.geometry.deviceBlocks ≤ BlockDevice.blockCount d) (hmount : mount d = .ok v') :
    Shows d v.geometry.deviceBlocks (FaithfulDevice.held d) := by
  obtain ⟨hinodes, hblocks, htable, hdata, hend⟩ := hlayout.places
  have hlimit : v.geometry.deviceBlocks ≤ 2 ^ 64 := Nat.le_of_lt v.geometry.deviceBlocks_lt
  obtain ⟨s, hs, hrest⟩ := Fallible.of_bind_ok hmount
  obtain ⟨space, hspace, hrest⟩ := Fallible.of_bind_ok hrest
  obtain ⟨table, ht, hrest⟩ := Fallible.of_bind_ok hrest
  obtain ⟨data, hd, -⟩ := Fallible.of_bind_ok hrest
  obtain ⟨b₀, hb₀, -⟩ := Fallible.of_bind_ok hs
  have hfirst : Fetched d 0 1 := by
    intro i hi
    obtain rfl : i = 0 := by omega
    exact ⟨b₀, Fallible.of_restate_ok hb₀⟩
  have hheld : ∀ n, (∃ b, readBlock d n = .ok b) → readBlock d n = .ok (FaithfulDevice.held d n) := by
    rintro n ⟨b, hb⟩
    rw [hb, FaithfulDevice.read_eq hvalid hb]
  -- the superblock that was loaded is the stored one, so the regions are those of the volume
  have hsuper : SuperBlock.load d = .ok v.superBlock := by
    refine SuperBlock.load_ok (hlayout.fits hroom) ⟨Nat.one_le_two_pow, fun n hn => ?_⟩
      hstored.superBlock Nat.one_pos
    exact hheld n (hfirst.readBlock (by decide) (Nat.zero_le n) (by simpa using hn))
  obtain rfl : v.superBlock = s := Except.ok.inj (hsuper.symm.trans hs)
  obtain ⟨hinodeCount, hblockCount⟩ := hlayout.counts
  rw [hinodeCount, ← hlayout.table] at ht
  rw [hblockCount, ← hlayout.data] at hd
  rw [hinodeCount, hblockCount, ← hlayout.inodes, ← hlayout.blocks] at hspace
  obtain ⟨inodes, hi, hspace⟩ := Fallible.of_bind_ok (Fallible.of_restate_ok hspace)
  obtain ⟨blocks, hb, -⟩ := Fallible.of_bind_ok hspace
  obtain ⟨ib, hib, -⟩ := Fallible.of_bind_ok hi
  obtain ⟨bb, hbb, -⟩ := Fallible.of_bind_ok hb
  obtain ⟨nodes, hnodes, -⟩ := Fallible.of_bind_ok ht
  obtain ⟨cells, hcells, -⟩ := Fallible.of_bind_ok (Fallible.of_restate_ok hd)
  have htableFetched : Fetched d v.table.start (InodeTable.regionSize v.space.inodes.total) := by
    intro i hi
    simpa using fetched_of_loadFrom hnodes i hi
  refine ⟨hlimit, fun n hn => hheld n ?_⟩
  by_cases h0 : n < 1
  · exact hfirst.readBlock (by decide) (Nat.zero_le n) (by simpa using h0)
  by_cases h1 : n < v.space.blocks.start.toNat
  · exact (fetched_of_fetchRun hib).readBlock (by omega) (by omega) (by omega)
  by_cases h2 : n < v.table.start.toNat
  · exact (fetched_of_fetchRun hbb).readBlock (by omega) (by omega) (by omega)
  by_cases h3 : n < v.data.start.toNat
  · exact htableFetched.readBlock (by omega) (by omega) (by omega)
  · exact (fetched_of_fetchRun hcells).readBlock (by omega) (by omega) (by omega)

end Volume

end ExtentVolume
