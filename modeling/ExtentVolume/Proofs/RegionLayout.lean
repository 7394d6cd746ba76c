import ExtentVolume.Proofs.Persistence

namespace ExtentVolume

open BlockDevice

structure Region where
  start : Nat
  count : Nat

namespace Region

def Has (r : Region) (n : Nat) : Prop := r.start ≤ n ∧ n < r.start + r.count

def Apart (r r' : Region) : Prop := ∀ n, r.Has n → ¬r'.Has n

def Inside (r : Region) (deviceBlocks : Nat) : Prop := ∀ n, r.Has n → n < deviceBlocks

/-- No two of the regions share a block, and the device has all of their blocks. -/
def Sane (regions : List Region) (deviceBlocks : Nat) : Prop :=
  regions.Pairwise Apart ∧ ∀ r ∈ regions, r.Inside deviceBlocks

theorem Apart.symm {r r' : Region} (h : r.Apart r') : r'.Apart r := fun n hn' hn => h n hn hn'

end Region

namespace SuperBlock

def home : Region := ⟨0, 1⟩

variable (s : SuperBlock)

def inodeBitmap : Region := ⟨s.inodeBitmapStart.toNat, Bitmap.regionSize s.inodeCount⟩

def blockBitmap : Region := ⟨s.blockBitmapStart.toNat, Bitmap.regionSize s.blockCount⟩

def inodeTable : Region := ⟨s.inodeTableStart.toNat, InodeTable.regionSize s.inodeCount⟩

def dataArea : Region := ⟨s.dataStart.toNat, s.blockCount.toNat⟩

def regions : List Region := [home, s.inodeBitmap, s.blockBitmap, s.inodeTable, s.dataArea]

/-- A block of the device that is neither the superblock nor in the inode table or the data area. -/
def Spare (deviceBlocks n : Nat) : Prop :=
  n < deviceBlocks ∧ ¬home.Has n ∧ ¬s.inodeTable.Has n ∧ ¬s.dataArea.Has n

variable {s} {n : Nat}

theorem fits_of_corruption? (h : s.corruption? n = none) : s.Fits n := by
  unfold corruption? at h
  split at h
  · cases h
  split at h
  · cases h
  split at h
  · cases h
  split at h
  · cases h
  rename_i hmagic hsize hlayout hroom
  rw [not_or, not_not, not_not] at hlayout
  exact ⟨not_not.1 hmagic, not_not.1 hsize, hlayout.1, hlayout.2, Nat.not_lt.1 hroom⟩

theorem fits_of_load {D : Type} [BlockDevice D] {d : D} (h : load d = .ok s) :
    s.Fits (BlockDevice.blockCount d) := by
  obtain ⟨b, -, h⟩ := Fallible.of_bind_ok h
  split at h
  · cases h
  · split at h
    · cases h
    · rename_i hnone
      obtain rfl := Except.ok.inj h
      exact fits_of_corruption? hnone

theorem Fits.moved (h : s.Fits n) (inodeBitmapStart blockBitmapStart : UInt64) :
    Fits { s with inodeBitmapStart, blockBitmapStart } n :=
  ⟨h.magic, h.blockSize, h.dataStart, h.inodeTableStart, h.room⟩

theorem Fits.places (h : s.Fits n) : 0 < s.inodeTable.start ∧
    s.dataArea.start = s.inodeTable.start + s.inodeTable.count ∧
    s.dataArea.start + s.dataArea.count ≤ n := by
  have htable := h.inodeTableStart
  have hdata := h.dataStart
  have hroom := h.room
  rw [Geometry.inodeTableStart, Geometry.blockBitmapStart, Geometry.inodeBitmapStart] at htable
  rw [Geometry.dataStart, ← h.inodeTableStart] at hdata
  refine ⟨?_, hdata, hroom⟩
  change 0 < s.inodeTableStart.toNat
  omega

theorem Fits.sane_checked (h : s.Fits n) : Region.Sane [home, s.inodeTable, s.dataArea] n := by
  obtain ⟨hpos, hdata, hend⟩ := h.places
  simp only [Region.Sane, List.pairwise_cons, List.forall_mem_cons, List.not_mem_nil,
    List.Pairwise.nil, false_imp_iff, implies_true, and_true, Region.Apart, Region.Inside,
    Region.Has, home]
  refine ⟨⟨⟨?_, ?_⟩, ?_⟩, ?_, ?_, ?_⟩ <;> intro b hb <;> omega

theorem Fits.sane_iff (h : s.Fits n) : Region.Sane s.regions n ↔
    s.inodeBitmap.Apart s.blockBitmap ∧ (∀ b, s.inodeBitmap.Has b → s.Spare n b) ∧
      ∀ b, s.blockBitmap.Has b → s.Spare n b := by
  have hchecked := h.sane_checked
  simp only [Region.Sane, regions, List.pairwise_cons, List.forall_mem_cons, List.not_mem_nil,
    List.Pairwise.nil, false_imp_iff, implies_true, and_true] at hchecked ⊢
  obtain ⟨⟨⟨htable, hdata⟩, happart⟩, hhome, htableIn, hdataIn⟩ := hchecked
  constructor
  · rintro ⟨⟨⟨hi, hb, -, -⟩, ⟨hib, hit, hid⟩, ⟨hbt, hbd⟩, -⟩, -, hiIn, hbIn, -, -⟩
    exact ⟨hib,
      fun b hb' => ⟨hiIn b hb', fun hh => hi b hh hb', hit b hb', hid b hb'⟩,
      fun b hb' => ⟨hbIn b hb', fun hh => hb b hh hb', hbt b hb', hbd b hb'⟩⟩
  · rintro ⟨hib, hi, hb⟩
    exact ⟨⟨⟨fun n hh hn => (hi n hn).2.1 hh, fun n hh hn => (hb n hn).2.1 hh, htable, hdata⟩,
      ⟨hib, fun n hn => (hi n hn).2.2.1, fun n hn => (hi n hn).2.2.2⟩,
      ⟨fun n hn => (hb n hn).2.2.1, fun n hn => (hb n hn).2.2.2⟩, happart⟩,
      hhome, fun n hn => (hi n hn).1, fun n hn => (hb n hn).1, htableIn, hdataIn⟩

theorem Fits.sane_of_starts (h : s.Fits n)
    (hinodes : s.inodeBitmapStart.toNat = Geometry.inodeBitmapStart)
    (hblocks : s.blockBitmapStart.toNat = s.geometry.blockBitmapStart) :
    Region.Sane s.regions n := by
  obtain ⟨-, hdata, hend⟩ := h.places
  have htable := h.inodeTableStart
  rw [Geometry.inodeTableStart, ← hblocks] at htable
  rw [Geometry.blockBitmapStart, ← hinodes] at hblocks
  rw [Geometry.inodeBitmapStart] at hinodes
  have hstart : s.inodeTable.start = s.inodeTableStart.toNat := rfl
  have hgeometry : s.geometry.inodes = s.inodeCount ∧ s.geometry.blocks = s.blockCount := ⟨rfl, rfl⟩
  rw [hgeometry.1] at hblocks
  rw [hgeometry.2] at htable
  rw [h.sane_iff]
  simp only [Region.Apart, Spare, Region.Has, home, inodeBitmap, blockBitmap]
  refine ⟨?_, ?_, ?_⟩ <;> intro b hb <;> omega

end SuperBlock

section Load

variable {D : Type} [BlockDevice D] {d : D} {start : UInt64} {total : UInt32}

theorem BlockDevice.Fetched.le_words {count : Nat} (h : Fetched d start count) :
    start.toNat + count ≤ 2 ^ 64 := by
  have hstart := start.toNat_lt
  cases count with
  | zero => omega
  | succ count =>
    obtain ⟨b, hb⟩ := h count (Nat.lt_succ_self count)
    obtain ⟨m, hm, -⟩ := readBlock_of_fetch hb
    by_contra hlarge
    rw [blockNumber, word64, if_neg (by simp only [UInt64.size]; omega)] at hm
    cases hm

theorem Bitmap.of_load {reserved : Nat} {b : Bitmap} (h : load d reserved total start = .ok b) :
    b.reserved = reserved ∧ b.total = total ∧ b.start = start ∧
      Fetched d start (regionSize total) := by
  obtain ⟨blocks, hblocks, h⟩ := Fallible.of_bind_ok h
  rw [ofBlocks_eq] at h
  obtain ⟨-, rfl⟩ := of_recounted (Fallible.of_lift_ok h)
  exact ⟨rfl, rfl, rfl, fetched_of_fetchRun hblocks⟩

theorem InodeTable.length_of_loadFrom {blocks index count : Nat} {nodes : List Inode}
    (h : loadFrom d start blocks index count = .ok nodes)
    (hcount : count ≤ blocks * Inode.slotsPerBlock) : nodes.length = count := by
  induction blocks generalizing index count nodes with
  | zero =>
    obtain rfl := Except.ok.inj h
    rw [List.length_nil]
    omega
  | succ blocks ih =>
    rw [Nat.succ_mul] at hcount
    obtain ⟨b, -, h⟩ := Fallible.of_bind_ok h
    have hslots : min count Inode.slotsPerBlock * Inode.slotSize ≤ b.toList.length := by
      rw [Vector.length_toList]
      simp only [Inode.slotsPerBlock, Inode.slotSize, blockSize]
      omega
    have hwidth : Codec.Stored.width Inode ≤ Inode.slotSize := by decide
    obtain ⟨here, hhere, hlength⟩ := Codec.decodeSlots_ok hwidth hslots
    dsimp only at h
    rw [hhere] at h
    obtain ⟨rest, hrest, h⟩ := Fallible.of_bind_ok h
    obtain rfl := Except.ok.inj h
    have hih := ih hrest (by omega)
    rw [List.length_append, hlength, hih]
    omega

theorem InodeTable.of_load {t : InodeTable} (h : load d total start = .ok t) :
    t.total = total ∧ t.start = start ∧ t.records.size = total.toNat ∧
      Fetched d start (regionSize total) := by
  obtain ⟨nodes, hnodes, h⟩ := Fallible.of_bind_ok h
  obtain rfl := Except.ok.inj h
  refine ⟨rfl, rfl, ?_, ?_⟩
  · rw [List.size_toArray]
    refine length_of_loadFrom hnodes ?_
    simp only [regionSize, blocksFor, Inode.slotsPerBlock, Inode.slotSize, blockSize]
    omega
  · intro i hi
    simpa using Volume.fetched_of_loadFrom hnodes i hi

theorem BlockCache.of_load {a : BlockCache} (h : load d start total = .ok a) :
    a.start = start ∧ a.cells.size = total.toNat ∧ Fetched d start total.toNat := by
  obtain ⟨blocks, hblocks, h⟩ := Fallible.of_bind_ok h
  obtain rfl := Except.ok.inj h
  refine ⟨rfl, ?_, fetched_of_fetchRun hblocks⟩
  rw [List.size_toArray, List.length_map]
  exact (length_of_mapM_ok hblocks).trans List.length_range

theorem BlockCache.block?_of_load [FaithfulDevice D] (hvalid : FaithfulDevice.Valid d)
    {a : BlockCache} (h : load d start total = .ok a) {b : Nat} (hb : b < total.toNat) :
    a.block? b = some (FaithfulDevice.held d (start.toNat + b)) := by
  obtain ⟨blocks, hblocks, h⟩ := Fallible.of_bind_ok h
  have hfetched := fetched_of_fetchRun hblocks
  have hwords := hfetched.le_words
  have hall : ∀ i ∈ List.range total.toNat,
      fetch d start i = .ok (FaithfulDevice.held d (start.toNat + i)) := by
    intro i hi
    rw [List.mem_range] at hi
    obtain ⟨block, hfetch⟩ := hfetched i hi
    obtain ⟨m, hm, hread⟩ := readBlock_of_fetch hfetch
    rw [blockNumber_ok (by omega)] at hm
    obtain rfl := Except.ok.inj hm
    rw [hfetch, FaithfulDevice.read_eq hvalid hread]
  rw [fetchRun, mapM_ok hall] at hblocks
  obtain rfl := Except.ok.inj hblocks
  obtain rfl := Except.ok.inj h
  simp [block?, hb]

theorem FreeSpace.of_load {inodeCount blockCount : UInt32} {inodeStart blockStart : UInt64}
    {a : FreeSpace} (h : load d inodeCount blockCount inodeStart blockStart = .ok a) :
    Bitmap.load d 1 inodeCount inodeStart = .ok a.inodes ∧
      Bitmap.load d 0 blockCount blockStart = .ok a.blocks := by
  obtain ⟨inodes, hinodes, h⟩ := Fallible.of_bind_ok h
  obtain ⟨blocks, hblocks, h⟩ := Fallible.of_bind_ok h
  obtain rfl := Except.ok.inj h
  exact ⟨hinodes, hblocks⟩

end Load

namespace Volume

variable {v v' : Volume}

/-- The parts lie where the superblock says, and are as large. -/
structure Placed (v : Volume) : Prop where
  inodes : v.space.inodes.start = v.superBlock.inodeBitmapStart
  blocks : v.space.blocks.start = v.superBlock.blockBitmapStart
  table : v.table.start = v.superBlock.inodeTableStart
  data : v.data.start = v.superBlock.dataStart
  inodeCount : v.space.inodes.total = v.superBlock.inodeCount
  blockCount : v.space.blocks.total = v.superBlock.blockCount

structure Loaded {D : Type} [BlockDevice D] (d : D) (v : Volume) : Prop where
  superBlock : SuperBlock.load d = .ok v.superBlock
  sized : v.Sized
  placed : v.Placed
  words : ∀ r ∈ v.superBlock.regions, r.start + r.count ≤ 2 ^ 64
  data : BlockCache.load d v.superBlock.dataStart v.superBlock.blockCount = .ok v.data
  root : (v.table.get? v.superBlock.root).any (·.isDirectory) = true

theorem loaded_of_mount {D : Type} [BlockDevice D] {d : D} (h : mount d = .ok v) : v.Loaded d := by
  obtain ⟨s, hs, h⟩ := Fallible.of_bind_ok h
  obtain ⟨space, hspace, h⟩ := Fallible.of_bind_ok h
  obtain ⟨table, htable, h⟩ := Fallible.of_bind_ok h
  obtain ⟨data, hdata, h⟩ := Fallible.of_bind_ok h
  split at h
  · rename_i hroot
    obtain rfl := Except.ok.inj h
    obtain ⟨hinodes, hblocks⟩ := FreeSpace.of_load (Fallible.of_restate_ok hspace)
    have hdata := Fallible.of_restate_ok hdata
    obtain ⟨hireserved, hitotal, histart, hifetched⟩ := Bitmap.of_load hinodes
    obtain ⟨hbreserved, hbtotal, hbstart, hbfetched⟩ := Bitmap.of_load hblocks
    obtain ⟨httotal, htstart, htsize, htfetched⟩ := InodeTable.of_load htable
    obtain ⟨hdstart, hdsize, hdfetched⟩ := BlockCache.of_load hdata
    refine ⟨hs, ⟨httotal.trans hitotal.symm, by rw [htsize, hitotal], by rw [hdsize, hbtotal],
      hireserved, hbreserved⟩, ⟨histart, hbstart, htstart, hdstart, hitotal, hbtotal⟩, ?_, hdata,
      hroot⟩
    simp only [SuperBlock.regions, List.forall_mem_cons, List.not_mem_nil, false_imp_iff,
      implies_true, and_true]
    exact ⟨by decide, hifetched.le_words, hbfetched.le_words, htfetched.le_words,
      hdfetched.le_words⟩
  · cases h

/-- Each region of the device holds what the volume has in memory. -/
structure Mirrored (v : Volume) (c : Nat → Block) : Prop where
  superBlock : Holds c 0 [.ofBytes (Codec.encode v.superBlock)]
  inodes : Holds c v.space.inodes.start.toNat
    (Block.split v.space.inodes.toBytes (Bitmap.regionSize v.space.inodes.total))
  blocks : Holds c v.space.blocks.start.toNat
    (Block.split v.space.blocks.toBytes (Bitmap.regionSize v.space.blocks.total))
  table : Holds c v.table.start.toNat
    (InodeTable.blocksOf (InodeTable.regionSize v.table.total) v.table.records.toList)
  data : ∀ b < v.data.cells.size, v.data.block? b = some (c (v.data.start.toNat + b))

end Volume

theorem BlockDevice.Holds.congr_region {c c' : Nat → Block} {first : Nat} {blocks : List Block}
    (h : Holds c first blocks) (hc : ∀ n, Region.Has ⟨first, blocks.length⟩ n → c' n = c n) :
    Holds c' first blocks :=
  h.congr fun n hle hlt => hc n ⟨hle, hlt⟩

theorem BlockDevice.replaced_apart {c : Nat → Block} {first : Nat} {blocks : List Block}
    {r : Region} (h : r.Apart ⟨first, blocks.length⟩) {n : Nat} (hn : r.Has n) :
    replaced c first blocks n = c n := by
  have hout : ¬(first ≤ n ∧ n < first + blocks.length) := h n hn
  exact replaced_outside (by omega)

theorem BlockCache.WrittenBack.outside {a a' : BlockCache} {c c' : Nat → Block}
    (h : WrittenBack a a' c c') {n : Nat}
    (hn : ¬Region.Has ⟨a.start.toNat, a.cells.size⟩ n) : c' n = c n := by
  by_cases hbefore : n < a.start.toNat
  · exact h.before n hbefore
  obtain ⟨b, rfl⟩ := Nat.exists_eq_add_of_le (Nat.not_lt.1 hbefore)
  obtain ⟨-, hsame⟩ | ⟨-, hblock⟩ := h.block b
  · exact hsame
  · exact absurd ⟨Nat.le_add_right _ _, Nat.add_lt_add_left (lt_of_block? hblock) _⟩ hn

namespace Volume

section Sync

variable {v : Volume} {c c' : Nat → Block} {n : Nat}

def regions (v : Volume) : List Region :=
  [SuperBlock.home, ⟨v.space.inodes.start.toNat, Bitmap.regionSize v.space.inodes.total⟩,
    ⟨v.space.blocks.start.toNat, Bitmap.regionSize v.space.blocks.total⟩,
    ⟨v.table.start.toNat, InodeTable.regionSize v.table.total⟩,
    ⟨v.data.start.toNat, v.data.cells.size⟩]

theorem Placed.regions_eq (h : v.Placed) (hv : v.Sized) : v.regions = v.superBlock.regions := by
  rw [regions, hv.table, hv.cells, h.inodes, h.blocks, h.table, h.data, h.inodeCount, h.blockCount]
  rfl

def written (v : Volume) (c : Nat → Block) : Nat → Block :=
  let c := Function.update c 0 (.ofBytes (Codec.encode v.superBlock))
  let c := replaced c v.space.inodes.start.toNat
    (Block.split v.space.inodes.toBytes (Bitmap.regionSize v.space.inodes.total))
  let c := replaced c v.space.blocks.start.toNat
    (Block.split v.space.blocks.toBytes (Bitmap.regionSize v.space.blocks.total))
  replaced c v.table.start.toNat
    (InodeTable.blocksOf (InodeTable.regionSize v.table.total) v.table.records.toList)

theorem written_apart (hapart : v.regions.Pairwise Region.Apart)
    (hc : ∀ n, ¬Region.Has ⟨v.data.start.toNat, v.data.cells.size⟩ n → c' n = v.written c n) :
    (Holds c' 0 [.ofBytes (Codec.encode v.superBlock)] ∧
      Holds c' v.space.inodes.start.toNat
        (Block.split v.space.inodes.toBytes (Bitmap.regionSize v.space.inodes.total)) ∧
      Holds c' v.space.blocks.start.toNat
        (Block.split v.space.blocks.toBytes (Bitmap.regionSize v.space.blocks.total)) ∧
      Holds c' v.table.start.toNat
        (InodeTable.blocksOf (InodeTable.regionSize v.table.total) v.table.records.toList)) ∧
      ∀ n, Region.Has ⟨v.data.start.toNat, v.data.cells.size⟩ n → v.written c n = c n := by
  simp only [regions, List.pairwise_cons, List.forall_mem_cons] at hapart
  obtain ⟨⟨hHI, hHB, hHT, hHD, -⟩, ⟨hIB, hIT, hID, -⟩, ⟨hBT, hBD, -⟩, ⟨hTD, -⟩, -⟩ := hapart
  have hI := Block.length_split v.space.inodes.toBytes (Bitmap.regionSize v.space.inodes.total)
  have hB := Block.length_split v.space.blocks.toBytes (Bitmap.regionSize v.space.blocks.total)
  have hT := InodeTable.length_blocksOf (InodeTable.regionSize v.table.total)
    v.table.records.toList
  unfold written at hc ⊢
  generalize Block.split v.space.inodes.toBytes _ = inodes at hI hc ⊢
  generalize Block.split v.space.blocks.toBytes _ = blocks at hB hc ⊢
  generalize InodeTable.blocksOf _ v.table.records.toList = table at hT hc ⊢
  rw [← hI] at hHI hIB hIT hID
  rw [← hB] at hHB hIB hBT hBD
  rw [← hT] at hHT hIT hBT hTD
  generalize hc₁ : Function.update c 0 _ = c₁ at hc ⊢
  have hsuper : Holds c₁ 0 [.ofBytes (Codec.encode v.superBlock)] := by
    rintro (_ | i) b hi
    · obtain rfl := Option.some.inj hi
      rw [← hc₁]
      exact Function.update_self _ _ _
    · cases hi
  refine ⟨⟨?_, ?_, ?_, ?_⟩, fun n hn => ?_⟩
  · refine hsuper.congr_region fun n hn => ?_
    rw [hc n (hHD n hn), replaced_apart hHT hn, replaced_apart hHB hn, replaced_apart hHI hn]
  · have hheld : Holds (replaced c₁ v.space.inodes.start.toNat inodes) _ inodes := holds_replaced
    refine hheld.congr_region fun n hn => ?_
    rw [hc n (hID n hn), replaced_apart hIT hn, replaced_apart hIB hn]
  · generalize replaced c₁ v.space.inodes.start.toNat inodes = c₂ at hc
    have hheld : Holds (replaced c₂ v.space.blocks.start.toNat blocks) _ blocks := holds_replaced
    refine hheld.congr_region fun n hn => ?_
    rw [hc n (hBD n hn), replaced_apart hBT hn]
  · generalize replaced (replaced c₁ _ inodes) v.space.blocks.start.toNat blocks = c₃ at hc
    have hheld : Holds (replaced c₃ v.table.start.toNat table) _ table := holds_replaced
    exact hheld.congr_region fun n hn => hc n (hTD n hn)
  · rw [replaced_apart hTD.symm hn, replaced_apart hBD.symm hn, replaced_apart hID.symm hn, ← hc₁]
    apply Function.update_of_ne
    rintro rfl
    exact hHD 0 ⟨Nat.le_refl 0, Nat.one_pos⟩ hn

variable {D : Type} [BlockDevice D] {holds : D → (Nat → Block) → Prop} {d : D}

theorem sync_mirrors (hv : v.Sized) (hapart : v.regions.Pairwise Region.Apart)
    (hwords : ∀ r ∈ v.regions, r.start + r.count ≤ 2 ^ 64) (htracks : Tracks holds)
    (hd : holds d c) (hbacked : ∀ b < v.data.cells.size, v.data.Backed c b) :
    Action.Ensures Mounted.sync ⟨v, d⟩
      (fun _ m => ∃ c', holds m.disk c' ∧ m.volume.Mirrored c') (fun _ _ => True) False := by
  have hrecords : blocksFor (v.table.records.size * Inode.slotSize) =
      InodeTable.regionSize v.table.total := by
    rw [hv.records, hv.table]
    rfl
  let w : Volume := { v with superBlock := v.counted }
  obtain ⟨-, hI, hB, hT, hD, -⟩ := by
    simpa only [regions, List.forall_mem_cons] using hwords
  have hlimit : (2 : Nat) ^ 64 ≤ 2 ^ 64 := Nat.le_refl _
  simp only [Mounted.sync, Mounted.onVolume, Mounted.onDisk, SuperBlock.sync, FreeSpace.sync,
    Bitmap.sync, InodeTable.sync, hrecords, Action.ensures_bind, Action.ensures_get,
    Action.ensures_within, Action.ensures_modify, Action.ensures_restate]
  refine (store_ensures htracks hd hlimit (by decide) _).mono ?_ (fun _ _ _ => trivial) id
  intro _ d₁ hd₁
  refine (storeRun_ensures htracks hd₁ hlimit (by
    rw [Block.length_split]
    exact hI)).mono ?_ (fun _ _ _ => trivial) id
  intro _ d₂ hd₂
  refine (storeRun_ensures htracks hd₂ hlimit (by
    rw [Block.length_split]
    exact hB)).mono ?_ (fun _ _ _ => trivial) id
  intro _ d₃ hd₃
  refine (storeRun_ensures htracks hd₃ hlimit (by
    rw [InodeTable.length_blocksOf]
    exact hT)).mono ?_ (fun _ _ _ => trivial) id
  intro _ d₄ hd₄
  refine (BlockCache.sync_ensures htracks hd₄ hlimit hD).mono ?_ (fun _ _ _ => trivial) id
  rintro _ ⟨data, d₅⟩ ⟨c₅, hd₅, hback, hdone⟩
  change BlockCache.WrittenBack v.data data (w.written c) c₅ at hback
  change ∀ b, v.data.Backed (w.written c) b → _ at hdone
  obtain ⟨⟨hsuper, hinodes, hblocks, htable⟩, hdata⟩ :=
    written_apart (v := w) hapart fun n hn => hback.outside hn
  refine ⟨c₅, hd₅, hsuper, hinodes, hblocks, htable, fun b hb => ?_⟩
  rw [hback.start]
  refine hdone b ?_
  rw [hback.size] at hb
  rw [BlockCache.Backed, hdata _ ⟨Nat.le_add_right _ _, Nat.add_lt_add_left hb _⟩]
  exact hbacked b hb

end Sync

end Volume

/-- On every device, a superblock that is accepted has its inode table and its data area apart from
each other, behind the superblock and inside the device. Its layout is sane exactly if the bitmaps
share no block and are in blocks that are left over, and it is if they start where a format puts them.
A volume with a sane layout that is mounted and synced is on the device with all of its regions. -/
theorem accepted_superblock_is_sane_iff {D : Type} [BlockDevice D] (d : D) (s : SuperBlock)
    (hload : SuperBlock.load d = .ok s) :
    Region.Sane [SuperBlock.home, s.inodeTable, s.dataArea] (blockCount d) ∧
      (Region.Sane s.regions (blockCount d) ↔ s.inodeBitmap.Apart s.blockBitmap ∧
        (∀ b, s.inodeBitmap.Has b → s.Spare (blockCount d) b) ∧
        ∀ b, s.blockBitmap.Has b → s.Spare (blockCount d) b) ∧
      (s.inodeBitmapStart.toNat = Geometry.inodeBitmapStart →
        s.blockBitmapStart.toNat = s.geometry.blockBitmapStart →
        Region.Sane s.regions (blockCount d)) ∧
      ∀ [FaithfulDevice D] (v : Volume) (m : Mounted D), FaithfulDevice.Valid d →
        Volume.mount d = .ok v → Region.Sane s.regions (blockCount d) →
        Mounted.sync ⟨v, d⟩ = .ok () m → m.volume.Mirrored (FaithfulDevice.held m.disk) := by
  have hfits := SuperBlock.fits_of_load hload
  refine ⟨hfits.sane_checked, hfits.sane_iff, hfits.sane_of_starts,
    fun v m hvalid hmount hsane hsync => ?_⟩
  have hloaded := Volume.loaded_of_mount hmount
  obtain rfl := Except.ok.inj (hload.symm.trans hloaded.superBlock)
  have hregions := hloaded.placed.regions_eq hloaded.sized
  have hsynced := Volume.sync_mirrors hloaded.sized (hregions ▸ hsane.1) (hregions ▸ hloaded.words)
    (tracks_contains (blockCount d)) ⟨hvalid, rfl, rfl⟩ fun b hb => .inr ?_
  · obtain ⟨c', ⟨-, -, rfl⟩, hmirrored⟩ := hsynced.of_ok hsync
    exact hmirrored
  · rw [hloaded.placed.data]
    rw [hloaded.sized.cells, hloaded.placed.blockCount] at hb
    exact BlockCache.block?_of_load hvalid hloaded.data hb

/-- What a format left is mounted, and synced to where it was. -/
theorem formatted_superblock_is_sane : ∃ (v₀ v : Volume) (d' : MemoryDisk) (m : Mounted MemoryDisk),
    Volume.format ⟨4, 4⟩ ⟨.replicate 16 0⟩ 0 (MemoryDisk.blank 8) = .ok v₀ d' ∧
      SuperBlock.load d' = .ok v₀.superBlock ∧
      Region.Sane v₀.superBlock.regions (blockCount d') ∧ Volume.mount d' = .ok v ∧
      Mounted.sync ⟨v, d'⟩ = .ok () m ∧ m.volume.Mirrored (FaithfulDevice.held m.disk) := by
  obtain ⟨v₀, d', hformat⟩ := Volume.format_memoryDisk
  have hformatted := Volume.formatted_of_format hformat
  have hsafe := Usage.safe_of_format trivial hformat
  obtain ⟨v, hmount, hrestored⟩ := Volume.mount_of_format trivial hformat
  have hload : SuperBlock.load d' = .ok v₀.superBlock :=
    hrestored.superBlock ▸ (Volume.loaded_of_mount hmount).superBlock
  obtain ⟨m, hsync⟩ := (hsafe.step (.mount (Option.some_ne_none _) hmount)).sync_ok
  obtain ⟨-, -, hstarts, hmirrors⟩ := accepted_superblock_is_sane_iff d' v₀.superBlock hload
  obtain ⟨hinodes, hblocks, -⟩ := hformatted.layout.starts
  rw [hformatted.layout.inodes] at hinodes
  rw [hformatted.layout.blocks, ← hformatted.layout.geometry_eq] at hblocks
  have hsane := hstarts hinodes hblocks
  exact ⟨v₀, v, d', m, hformat, hload, hsane, hmount, hsync, hmirrors v m trivial hmount hsane hsync⟩

open Volume in
/-- Both bitmaps in the first block behind the superblock. -/
theorem bitmaps_may_share_a_block : ∃ (d : MemoryDisk) (s : SuperBlock),
    SuperBlock.load d = .ok s ∧ ¬Region.Sane s.regions (blockCount d) := by
  let s : SuperBlock := { SuperBlock.ofGeometry ⟨4, 4⟩ ⟨.replicate 16 0⟩ 0 with
    inodeBitmapStart := 1, blockBitmapStart := 1 }
  let d : MemoryDisk := ⟨(Array.replicate 8 Block.zero).setIfInBounds 0 (.ofBytes (Codec.encode s))⟩
  have hcount : blockCount d = 8 := by
    change (Array.setIfInBounds _ _ _).size = 8
    rw [Array.size_setIfInBounds, Array.size_replicate]
  have hfirst : d.blocks[0]? = some (.ofBytes (Codec.encode s)) :=
    Array.getElem?_setIfInBounds_self_of_lt (by rw [Array.size_replicate]; decide)
  have hshows : Shows d 1 fun _ => .ofBytes (Codec.encode s) := by
    refine ⟨by decide, fun n hn => ?_⟩
    obtain rfl : n = 0 := by omega
    simp only [readBlock, hfirst]
  have hholds : Holds (fun _ => .ofBytes (Codec.encode s)) 0 [.ofBytes (Codec.encode s)] := by
    rintro (_ | i) b hi
    · exact Option.some.inj hi
    · cases hi
  have hfits : s.Fits (blockCount d) := by
    have hroom : (unrooted ⟨4, 4⟩ ⟨.replicate 16 0⟩ 0).geometry.deviceBlocks ≤ 8 := by decide
    rw [hcount]
    exact ((layout_unrooted ⟨4, 4⟩ ⟨.replicate 16 0⟩ 0).fits hroom).moved 1 1
  have hload := SuperBlock.load_ok hfits hshows hholds Nat.one_pos
  refine ⟨d, s, hload, fun hsane => ?_⟩
  have hapart := (hfits.sane_iff.1 hsane).1
  exact hapart 1 ⟨by decide, by decide⟩ ⟨by decide, by decide⟩

end ExtentVolume
