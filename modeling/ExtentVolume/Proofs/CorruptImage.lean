import ExtentVolume.Proofs.LoadedCounters
import ExtentVolume.Proofs.Verdict

namespace ExtentVolume

open BlockDevice

/-- A device that has no blocks to read behind its last one. -/
class BoundedDevice (D : Type) [BlockDevice D] : Prop where
  read_lt {d : D} {n : Nat} {b : Block} : readBlock d n = .ok b → n < blockCount d

instance : BoundedDevice MemoryDisk where
  read_lt {d n b} h := by
    simp only [readBlock] at h
    split at h
    · rename_i hb
      exact (Array.getElem?_eq_some_iff.1 hb).1
    · cases h

instance {D : Type} [BlockDevice D] [BoundedDevice D] : BoundedDevice (FaultyDisk D) where
  read_lt {f n b} h := by
    simp only [readBlock] at h
    split at h
    · cases h
    · exact BoundedDevice.read_lt (d := f.disk) h

instance : BoundedDevice ImageDisk where
  read_lt {d n b} h := by
    simp only [readBlock] at h
    split at h
    · assumption
    · cases h

namespace Fallible

variable {ε ε' α β : Type}

abbrev Ends (x : Fallible ε α) : Prop := x.Ensures (fun _ => True) (fun _ => True) False

theorem Ensures.ends {x : Fallible ε α} {P : α → Prop}
    (h : x.Ensures P (fun _ => True) False) : x.Ends :=
  h.mono (fun _ _ => trivial) (fun _ _ => trivial) fun h => h

theorem Ends.restate {x : Fallible ε α} (h : x.Ends) (f : ε → ε') : (x.restate f).Ends :=
  ensures_restate.2 h

theorem Ends.run {x : Fallible ε α} (h : x.Ends) :
    x.Ensures (fun a => x = .ok a) (fun _ => True) False := by
  match x, h with
  | .ok a, _ => exact rfl
  | .error (.failure e), _ => trivial
  | .error (.trap t), h => exact h

end Fallible

section Load

variable {D : Type} [BlockDevice D] [BoundedDevice D] {d : D} {start : UInt64} {total : UInt32}

theorem BlockDevice.fetch_ensures {index : Nat} (h : start.toNat + index < 2 ^ 64) :
    (fetch d start index).Ensures (fun _ => start.toNat + index < blockCount d) (fun _ => True)
      False := by
  simp only [fetch, Fallible.ensures_bind, Fallible.ensures_lift, blockNumber_ok h]
  cases hread : readBlock d (start.toNat + index) with
  | ok b => exact BoundedDevice.read_lt hread
  | error e => trivial

theorem BlockDevice.fetches_end (hd : blockCount d < 2 ^ 64) {index count : Nat}
    (h : start.toNat + index < 2 ^ 64) :
    ((List.range' index count).mapM (fetch d start)).Ends := by
  induction count generalizing index with
  | zero => trivial
  | succ count ih =>
    rw [List.range'_succ, List.mapM_cons]
    apply (fetch_ensures h).bind
    intro b hlt
    apply (ih (show start.toNat + (index + 1) < 2 ^ 64 by omega)).bind
    intro bs _
    trivial

theorem BlockDevice.fetchRun_ends (hd : blockCount d < 2 ^ 64) (start : UInt64) (count : Nat) :
    (fetchRun d start count).Ends := by
  rw [fetchRun, List.range_eq_range']
  exact fetches_end hd start.toNat_lt

theorem Bitmap.load_ends (hd : blockCount d < 2 ^ 64) (h : total.toNat ≤ 2 ^ 32 - 8)
    (reserved : Nat) (start : UInt64) : (load d reserved total start).Ends := by
  apply (fetchRun_ends hd start (regionSize total)).bind
  intro blocks _
  have hcount : ∀ b : Bitmap, b.total = total → b.popcount < 2 ^ 32 := by
    rintro b rfl
    apply Nat.lt_of_le_of_lt List.count_le_length
    rw [Vector.length_toList, paddedBits]
    omega
  rw [ofBlocks_eq, recounted_eq, if_pos (hcount _ rfl)]
  trivial

theorem FreeSpace.load_ends (hd : BlockDevice.blockCount d < 2 ^ 64)
    {inodeCount blockCount : UInt32} (hinodes : inodeCount.toNat ≤ 2 ^ 32 - 8)
    (hblocks : blockCount.toNat ≤ 2 ^ 32 - 8) (inodeStart blockStart : UInt64) :
    (load d inodeCount blockCount inodeStart blockStart).Ends := by
  apply (Bitmap.load_ends hd hinodes 1 inodeStart).bind
  intro inodes _
  apply (Bitmap.load_ends hd hblocks 0 blockStart).bind
  intro blocks _
  trivial

theorem InodeTable.loadFrom_ends (hd : blockCount d < 2 ^ 64) {blocks index count : Nat}
    (h : start.toNat + index < 2 ^ 64) : (loadFrom d start blocks index count).Ends := by
  induction blocks generalizing index count with
  | zero => trivial
  | succ blocks ih =>
    rw [loadFrom]
    apply (Fallible.ensures_restate.2 (fetch_ensures h)).bind
    intro b hlt
    dsimp only
    split
    · apply (ih (show start.toNat + (index + 1) < 2 ^ 64 by omega)).bind
      intro nodes _
      trivial
    · trivial

theorem InodeTable.load_ends (hd : blockCount d < 2 ^ 64) (total : UInt32) (start : UInt64) :
    (load d total start).Ends := by
  apply (loadFrom_ends hd start.toNat_lt).bind
  intro nodes _
  trivial

theorem BlockCache.load_ends (hd : blockCount d < 2 ^ 64) (start : UInt64) (count : UInt32) :
    (load d start count).Ends := by
  apply (fetchRun_ends hd start count.toNat).bind
  intro blocks _
  trivial

theorem SuperBlock.load_ends (d : D) : (load d).Ends := by
  have hfetch : (fetch d 0 0).Ends := (fetch_ensures (by decide)).ends
  apply (hfetch.restate VolumeError.device).bind
  intro b _
  split
  · trivial
  · split <;> trivial

theorem Volume.mount_ends (hd : blockCount d < 2 ^ 64)
    (hcounts : ∀ s, SuperBlock.load d = .ok s →
      s.blockCount.toNat ≤ 2 ^ 32 - 8 ∧ s.inodeCount.toNat ≤ 2 ^ 32 - 8) : (mount d).Ends := by
  apply (SuperBlock.load_ends d).run.bind
  intro s hs
  obtain ⟨hblocks, hinodes⟩ := hcounts s hs
  have hspace := FreeSpace.load_ends hd hinodes hblocks s.inodeBitmapStart s.blockBitmapStart
  apply (hspace.restate VolumeError.device).bind
  intro space _
  apply (InodeTable.load_ends hd s.inodeCount s.inodeTableStart).bind
  intro table _
  have hdata := BlockCache.load_ends hd s.dataStart s.blockCount
  apply (hdata.restate VolumeError.device).bind
  intro data _
  split <;> trivial

end Load

/-- Ends of extents, on the device and in the file, and numbers of slots are words. -/
structure Inode.Words (node : Inode) : Prop where
  physical : ∀ e ∈ node.extents.inUse, e.byteStart + e.byteLength < 2 ^ 64
  capacity : node.extents.capacity < 2 ^ 64
  slots : Directory.slotCount node < 2 ^ 64

theorem Inode.words (node : Inode) : node.Words := by
  have htotal := node.extents.blockTotal_inUse_le
  refine ⟨fun e _ => ?_, ?_, ?_⟩
  · have hend := e.byteEnd_lt
    omega
  · rw [node.extents.capacity_eq, ExtentMap.blockNumbers, length_blockNumbers]
    simp only [blockSize]
    omega
  · rw [Directory.slotCount, Directory.blockCount]
    simp only [Entry.slotsPerBlock, Entry.slotSize, blockSize]
    omega

theorem blockAt_lt {extents : List Extent} {number b : Nat} (h : blockAt extents number = some b) :
    b < 2 ^ 33 ∧ number < blockTotal extents := by
  induction extents generalizing number with
  | nil => cases h
  | cons e rest ih =>
    have hstart := e.start.toNat_lt
    have hcount := e.count.toNat_lt
    rw [blockAt] at h
    rw [blockTotal]
    split at h
    · obtain rfl := Option.some.inj h
      omega
    · have hrest := ih h
      omega

namespace BlockCache

theorem check_ends (a : BlockCache) {address length : Nat} (h : address + length < 2 ^ 64) :
    (a.check address length).Ends := by
  rw [check_eq a h]
  split <;> trivial

theorem lt_of_check {a : BlockCache} {address length : Nat} (h : a.check address length = .ok ())
    {x : Nat} (hx : x < address + length) : x / blockSize < a.cells.size := by
  obtain ⟨last, hlast, h⟩ := Fallible.of_bind_ok h
  have hword := Fallible.of_lift_ok hlast
  split at h
  · cases h
  · rename_i hin
    have hnat : last.toNat = address + length := by
      unfold word64 at hword
      split at hword
      · rename_i hlt
        obtain rfl := Except.ok.inj hword
        exact UInt64.toNat_ofNat_of_lt' hlt
      · cases hword
    rw [size] at hin
    rw [Nat.div_lt_iff_lt_mul (by decide)]
    omega

end BlockCache

theorem Inode.read_ensures (node : Inode) (data : BlockCache) (offset length : Nat) :
    (node.read data offset length).Ensures (fun bytes => bytes.length ≤ length) (fun _ => True)
      False := by
  rw [read]
  split
  · exact Nat.zero_le length
  · apply (readExtents_ensures data node.extents.inUse offset _).mono
    · rintro bytes ⟨-, rfl⟩
      simp only [List.length_map, List.length_range]
      omega
    · exact fun _ _ => trivial
    · exact id

namespace Directory

variable {data : BlockCache} {dir : Inode}

theorem length_decodeSlots {size count : Nat} {bytes : List UInt8} {entries : List Entry}
    (h : Codec.decodeSlots size count bytes = .ok entries) : entries.length = count := by
  induction count generalizing bytes entries with
  | zero =>
    obtain rfl := Except.ok.inj h
    rfl
  | succ count ih =>
    rw [Codec.decodeSlots] at h
    cases hhere : Codec.decode (α := Entry) (bytes.take size) with
    | error e =>
      rw [hhere] at h
      cases h
    | ok e =>
      cases hrest : Codec.decodeSlots (α := Entry) size count (bytes.drop size) with
      | error e =>
        rw [hhere, hrest] at h
        cases h
      | ok rest =>
        rw [hhere, hrest] at h
        obtain rfl := Except.ok.inj h
        rw [List.length_cons, ih hrest]

theorem entriesFrom_ensures (data : BlockCache) {block first : Nat} (hblock : block < 2 ^ 33)
    (hfirst : first < Entry.slotsPerBlock) :
    (entriesFrom data block first).Ensures (fun entries => first + entries.length =
      Entry.slotsPerBlock) (fun _ => True) False := by
  have hword : block * blockSize + first * Entry.slotSize + Entry.slotSize < 2 ^ 64 := by
    simp only [Entry.slotsPerBlock, Entry.slotSize, blockSize] at hfirst ⊢
    omega
  rw [entriesFrom]
  apply (data.check_ends hword).bind
  intro _ _
  dsimp only
  split
  · rename_i entries hentries
    rw [Fallible.ensures_pure, List.length_drop, length_decodeSlots hentries]
    omega
  · trivial

/-- Where a scan that starts at a position of a directory with so many slots may end. -/
def Scan.Within (position slots : Nat) : Scan → Prop
  | .exhausted last => last ≤ max position slots
  | .found slot => slot.ordinal < slots ∧ slot.address + Entry.slotSize < 2 ^ 64
  | .failed ordinal stop => ordinal < slots ∧ ∀ t, stop ≠ .trap t

theorem Scan.Within.mono {s : Scan} {position position' slots : Nat} (h : s.Within position slots)
    (hle : position ≤ max position' slots) : s.Within position' slots := by
  cases s with
  | exhausted last => exact Nat.le_trans h (Nat.max_le.2 ⟨hle, Nat.le_max_right _ _⟩)
  | found slot => exact h
  | failed ordinal stop => exact h

theorem scanBlocks_within (p : Entry → Bool) {number first count : Nat}
    (hfirst : first < Entry.slotsPerBlock) (hcount : number + count ≤ max number (blockCount dir)) :
    (scanBlocks data dir p number first count).Within (number * Entry.slotsPerBlock + first)
      (slotCount dir) := by
  induction count generalizing number first with
  | zero => exact Nat.le_max_left _ _
  | succ count ih =>
    rw [scanBlocks]
    cases hblock : blockAt dir.extents.inUse number with
    | none => exact Nat.le_max_left _ _
    | some block =>
      obtain ⟨hlt, hnumber⟩ := blockAt_lt hblock
      have hslots : (number + 1) * Entry.slotsPerBlock ≤ slotCount dir :=
        Nat.mul_le_mul_right _ hnumber
      rw [Nat.succ_mul] at hslots
      have hentries := entriesFrom_ensures data hlt hfirst
      dsimp only
      cases hread : entriesFrom data block first with
      | error stop =>
        rw [hread] at hentries
        refine ⟨by omega, fun t ht => ?_⟩
        rw [ht] at hentries
        exact hentries
      | ok entries =>
        rw [hread] at hentries
        change first + entries.length = _ at hentries
        dsimp only
        split
        · rename_i e i hfound
          have hi : i < entries.length := by
            have hmem := List.mem_of_find?_eq_some hfound
            have hlt := (List.mem_zipIdx hmem).2.1
            rwa [Nat.zero_add] at hlt
          refine ⟨?_, ?_⟩
          · dsimp only
            omega
          · simp only [Entry.slotsPerBlock, Entry.slotSize, blockSize] at *
            omega
        · have hnext : (scanBlocks data dir p (number + 1) 0 count).Within
              ((number + 1) * Entry.slotsPerBlock + 0) (slotCount dir) :=
            ih (by decide) (by omega)
          apply hnext.mono
          rw [Nat.add_zero, Nat.succ_mul]
          exact Nat.le_trans hslots (Nat.le_max_right _ _)

theorem scan_within (data : BlockCache) (dir : Inode) (p : Entry → Bool) (position : Nat) :
    (scan data dir p position).Within position (slotCount dir) := by
  have hposition := Nat.div_add_mod position Entry.slotsPerBlock
  rw [Nat.mul_comm] at hposition
  have hscan : (scan data dir p position).Within (position / Entry.slotsPerBlock *
      Entry.slotsPerBlock + position % Entry.slotsPerBlock) (slotCount dir) :=
    scanBlocks_within p (Nat.mod_lt position (by decide)) (by omega)
  rw [hposition] at hscan
  exact hscan

theorem lookup_ends (data : BlockCache) (dir : Inode) (name : String) :
    (lookup data dir name).Ends := by
  have hscan := scan_within data dir (·.isFor name) 0
  have hfind : (find data dir (·.isFor name)).Ends := by
    rw [find]
    cases hs : scan data dir (·.isFor name) 0 with
    | exhausted last => trivial
    | found slot => trivial
    | failed ordinal stop =>
      rw [hs] at hscan
      cases stop with
      | failure e => trivial
      | trap t => exact hscan.2 t rfl
  apply hfind.bind
  intro slot _
  trivial

/-- No more is listed than was asked for, the walk ends at a slot or right behind the last one, or
where it stood, and what stopped it is no trap. -/
structure Listing.Fine (position limit slots : Nat) (l : Listing) : Prop where
  entries : l.entries.length ≤ limit
  position : l.position ≤ max position slots
  stopped : ∀ t, l.stopped ≠ some (.trap t)

theorem list_fine (data : BlockCache) (dir : Inode) (position limit : Nat) :
    (list data dir position limit).Fine position limit (slotCount dir) := by
  induction limit generalizing position with
  | zero => exact ⟨Nat.le_refl 0, Nat.le_max_left _ _, by simp [list]⟩
  | succ limit ih =>
    have hscan := scan_within data dir (!·.isFree) position
    rw [list, next]
    cases hs : scan data dir (!·.isFree) position with
    | exhausted last =>
      rw [hs] at hscan
      exact ⟨Nat.zero_le _, hscan, by simp⟩
    | found slot =>
      rw [hs] at hscan
      have hnext : slot.ordinal + 1 ≤ slotCount dir := hscan.1
      obtain ⟨hentries, hposition, hstopped⟩ := ih (slot.ordinal + 1)
      refine ⟨Nat.succ_le_succ hentries, ?_, hstopped⟩
      rw [Nat.max_eq_right hnext] at hposition
      exact Nat.le_trans hposition (Nat.le_max_right _ _)
    | failed ordinal stop =>
      rw [hs] at hscan
      refine ⟨Nat.zero_le _, Nat.le_trans hscan.1 (Nat.le_max_right _ _), fun t ht => ?_⟩
      exact hscan.2 t (Option.some.inj ht)

end Directory

/-- Whatever is asked of the volume without changing it, there is an answer or an error. Nothing
that is added up on the way exceeds a word, and nothing is read where there is no block. -/
structure Volume.ReadsSafely (v : Volume) : Prop where
  sized : v.Sized
  check : ∃ r, Consistency.check v = .ok r ∧ r.inodes < 2 ^ 32 ∧ r.owned < 2 ^ 32
  lookup : ∀ dir name, (v.lookup dir name).Ends
  list : ∀ dir position limit, (v.list dir position limit).Ensures
    (fun l => ∃ slots < 2 ^ 64, l.Fine position limit slots) (fun _ => True) False
  read : ∀ number offset length, (v.read number offset length).Ensures
    (fun bytes => bytes.length ≤ length) (fun _ => True) False
  words : ∀ number node, v.inode number = .ok node → node.Words
  access : ∀ address length, v.data.check address length = .ok () →
    ∀ x < address + length, x / blockSize < v.data.cells.size
  area : v.data.size < 2 ^ 64

theorem Bitmap.sum_of_load {D : Type} [BlockDevice D] {d : D} {reserved : Nat} {total : UInt32}
    {start : UInt64} {b : Bitmap} (h : load d reserved total start = .ok b) :
    b.free.toNat + b.popcount < 2 ^ 32 := by
  have hload := free_of_load h
  have htotal := b.total.toNat_lt
  omega

theorem Volume.readsSafely_of_mount {D : Type} [BlockDevice D] {d : D} {v : Volume}
    (h : mount d = .ok v) : v.ReadsSafely := by
  have hsized := (loaded_of_mount h).sized
  obtain ⟨hinodes, hblocks⟩ := bitmaps_of_mount h
  refine ⟨hsized, ?_, fun dir name => ?_, fun dir position limit => ?_,
    fun number offset length => ?_, fun number node _ => node.words,
    fun address length hcheck x hx => BlockCache.lt_of_check hcheck hx, ?_⟩
  · obtain ⟨r, hr⟩ := Consistency.exists_report (Bitmap.sum_of_load hblocks)
      (Bitmap.sum_of_load hinodes)
    obtain ⟨hcount, howned⟩ := Consistency.numbers_of_check hr
    exact ⟨r, hr, Nat.lt_of_le_of_lt hcount v.space.inodes.total.toNat_lt,
      Nat.lt_of_le_of_lt howned v.space.blocks.total.toNat_lt⟩
  · apply (directory_ensures hsized dir).ends.bind
    intro node _
    exact Directory.lookup_ends v.data node name
  · apply (directory_ensures hsized dir).bind
    intro node _
    exact ⟨_, node.words.slots, Directory.list_fine v.data node position limit⟩
  · apply (inode_ensures hsized number).bind
    intro node _
    exact node.read_ensures v.data offset length
  · have htotal := v.space.blocks.total.toNat_lt
    rw [BlockCache.size, hsized.cells]
    simp only [blockSize]
    omega

/-- On a device of any content whose superblock, if it is accepted, leaves eight 32-bit words unused
above its counts, a mount ends with a volume or an error, and the volume, however corrupt, is
checked, searched, listed and read without a trap. The blocks of a bitmap have a byte for each of
its numbers, and the size of a volume is a word wherever its data area starts as its counts say. -/
theorem corrupt_images_are_read_safely {D : Type} [BlockDevice D] [BoundedDevice D] (d : D)
    (hd : blockCount d < 2 ^ 64)
    (hcounts : ∀ s, SuperBlock.load d = .ok s →
      s.blockCount.toNat ≤ 2 ^ 32 - 8 ∧ s.inodeCount.toNat ≤ 2 ^ 32 - 8) :
    (Volume.mount d).Ensures Volume.ReadsSafely (fun _ => True) False ∧
      (∀ total : UInt32, (total.toNat + 7) / 8 ≤ Bitmap.regionSize total * blockSize) ∧
      ∀ s : SuperBlock, s.dataStart.toNat = s.geometry.dataStart → s.deviceBlocks < 2 ^ 64 := by
  refine ⟨?_, fun total => le_blocksFor _, fun s hstart => ?_⟩
  · apply (Volume.mount_ends hd hcounts).run.imp
    intro v hmount
    exact Volume.readsSafely_of_mount hmount
  · rw [SuperBlock.deviceBlocks, hstart]
    exact s.geometry.deviceBlocks_lt

def Inode.wild (node : Inode) : Inode :=
  { node with
    size := 18446744073709551615
    blocks := 0
    extents := ⟨.replicate 4 ⟨4294967295, 4294967295⟩, 9⟩ }

/-- An image whose root has such a record is mounted. -/
theorem wild_image_is_read_safely : ∃ (v₀ v : Volume) (d' : MemoryDisk) (root : Inode)
    (m : Mounted MemoryDisk),
    Volume.format ⟨4, 4⟩ ⟨.replicate 16 0⟩ 0 (MemoryDisk.blank 8) = .ok v₀ d' ∧
      v₀.live? 1 = some root ∧
      Mounted.sync ⟨{ v₀ with table := v₀.table.set 1 root.wild }, d'⟩ = .ok () m ∧
      Volume.mount m.disk = .ok v ∧ v.live? 1 = some root.wild ∧ v.ReadsSafely := by
  have hmade : Action.any (Volume.format ⟨4, 4⟩ ⟨.replicate 16 0⟩ 0) (MemoryDisk.blank 8)
      (fun v₀ d' => (v₀.live? 1).any fun root =>
        Action.any Mounted.sync ⟨{ v₀ with table := v₀.table.set 1 root.wild }, d'⟩ fun _ m =>
          Fallible.any (Volume.mount m.disk) fun v =>
            blockCount m.disk == 8 && v.superBlock.geometry == ⟨4, 4⟩ &&
              v.live? 1 == some root.wild) = true := by
    decide +kernel
  obtain ⟨v₀, d', hformat, hmade⟩ := Action.any_eq_true.1 hmade
  obtain ⟨root, hroot, hmade⟩ := (Option.any_eq_true _ _).1 hmade
  obtain ⟨⟨⟩, m, hsync, hmade⟩ := Action.any_eq_true.1 hmade
  obtain ⟨v, hmount, hmade⟩ := Fallible.any_eq_true.1 hmade
  simp only [Bool.and_eq_true, beq_iff_eq] at hmade
  obtain ⟨⟨hcount, hgeometry⟩, hwild⟩ := hmade
  have hcounts : ∀ s, SuperBlock.load m.disk = .ok s →
      s.blockCount.toNat ≤ 2 ^ 32 - 8 ∧ s.inodeCount.toNat ≤ 2 ^ 32 - 8 := by
    intro s hs
    obtain rfl := Except.ok.inj (hs.symm.trans (Volume.loaded_of_mount hmount).superBlock)
    obtain ⟨hblocks, hinodes⟩ := Geometry.mk.inj hgeometry
    rw [hblocks, hinodes]
    decide
  have hread := (corrupt_images_are_read_safely m.disk (by rw [hcount]; decide) hcounts).1
  exact ⟨v₀, v, d', root, m, hformat, hroot, hsync, hmount, hwild, hread.of_ok hmount⟩

end ExtentVolume
