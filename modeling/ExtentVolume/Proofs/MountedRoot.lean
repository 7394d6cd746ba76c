import ExtentVolume.Proofs.RegionLayout
import ExtentVolume.Proofs.RootFrame

namespace ExtentVolume

open BlockDevice

def Stop.DeniesDirectory : Stop VolumeError → Prop
  | .failure (.invalidInode _) => True
  | .failure (.notADirectory _) => True
  | _ => False

namespace Directory

variable {data : BlockCache} {dir : Inode} {p : Entry → Bool} {stop : Stop VolumeError}

theorem not_denies_of_entriesFrom {block first : Nat}
    (h : entriesFrom data block first = .error stop) : ¬stop.DeniesDirectory := by
  have hens : (entriesFrom data block first).Ensures (fun _ => True)
      (fun e => ¬(Stop.failure e).DeniesDirectory) True := by
    simp only [entriesFrom, BlockCache.check, Fallible.ensures_bind, Fallible.ensures_lift]
    split
    · split
      · exact fun hdenies => hdenies
      · split
        · trivial
        · exact fun hdenies => hdenies
    · trivial
  cases stop with
  | failure e => simpa only [Fallible.Ensures, h] using hens
  | trap t => exact fun hdenies => hdenies

theorem not_denies_of_scanBlocks {number first count ordinal : Nat}
    (h : scanBlocks data dir p number first count = .failed ordinal stop) :
    ¬stop.DeniesDirectory := by
  induction count generalizing number first with
  | zero => cases h
  | succ count ih =>
    rw [scanBlocks] at h
    split at h
    · cases h
    · split at h
      · rename_i hfailed
        obtain ⟨-, rfl⟩ := Scan.failed.inj h
        exact not_denies_of_entriesFrom hfailed
      · split at h
        · cases h
        · exact ih h

theorem not_denies_of_lookup {name : String} (h : lookup data dir name = .error stop) :
    ¬stop.DeniesDirectory := by
  unfold lookup find at h
  split at h
  · cases h
  · cases h
  · rename_i hscan
    obtain rfl := Except.error.inj h
    exact not_denies_of_scanBlocks hscan

theorem not_denies_of_next {position position' : Nat}
    (h : next data dir position = ⟨position', some (.error stop)⟩) : ¬stop.DeniesDirectory := by
  unfold next at h
  split at h
  · cases h
  · cases h
  · rename_i hscan
    obtain ⟨-, rfl⟩ : _ ∧ _ := by simpa using h
    exact not_denies_of_scanBlocks hscan

theorem not_denies_of_list {position limit : Nat}
    (h : (list data dir position limit).stopped = some stop) : ¬stop.DeniesDirectory := by
  induction limit generalizing position with
  | zero => cases h
  | succ limit ih =>
    rw [list] at h
    split at h
    · cases h
    · rename_i hnext
      obtain rfl := Option.some.inj h
      exact not_denies_of_next hnext
    · exact ih h

end Directory

namespace Volume

variable {v : Volume} {root : UInt32}

structure Serves (v : Volume) (root : UInt32) : Prop where
  lookup : ∀ name stop, v.lookup root name = .error stop → ¬stop.DeniesDirectory
  list : ∀ position limit stop, v.list root position limit = .error stop → ¬stop.DeniesDirectory
  stopped : ∀ position limit l stop, v.list root position limit = .ok l → l.stopped = some stop →
    ¬stop.DeniesDirectory
  create : ∀ parent name mode owner now n v', create parent name mode owner now v = .ok n v' →
    n ≠ root
  createInode : ∀ owner mode now node v', createInode owner mode now v = .ok node v' →
    node.number ≠ root

theorem RootedAt.serves (h : v.RootedAt root) : v.Serves root := by
  obtain ⟨dir, hdir⟩ := h.directory
  refine ⟨fun name stop hlookup => ?_, fun position limit stop hlist => ?_,
    fun position limit l stop hlist hstopped => ?_,
    fun parent name mode owner now n v' hcreate => ?_,
    fun owner mode now node v' hcreate => ?_⟩
  · simp only [Volume.lookup, hdir] at hlookup
    exact Directory.not_denies_of_lookup hlookup
  · simp only [Volume.list, hdir] at hlist
    cases hlist
  · simp only [Volume.list, hdir] at hlist
    obtain rfl := Except.ok.inj hlist
    exact Directory.not_denies_of_list hstopped
  · exact ((h.create parent name mode owner now).of_ok hcreate).1
  · exact ((h.createInode owner mode now).of_ok hcreate).1

theorem Serves.inode (h : v.Serves root) (hv : v.Sized) : ∃ node, v.inode root = .ok node := by
  cases hnode : v.inode root with
  | ok node => exact ⟨node, rfl⟩
  | error stop =>
    have hlookup : v.lookup root "" = .error stop := by
      simp only [Volume.lookup, Volume.directory, hnode]
      rfl
    refine absurd ?_ (h.lookup "" stop hlookup)
    rw [inode_eq hv] at hnode
    split at hnode
    · split at hnode
      · cases hnode
      · obtain rfl := Except.error.inj hnode
        trivial
    · obtain rfl := Except.error.inj hnode
      trivial

end Volume

namespace Mounted

variable {D : Type} [BlockDevice D] {m m' : Mounted D} {root : UInt32}

inductive KeepsRoot : Mounted D → Mounted D → Prop where
  | call {m : Mounted D} {r : Request} {v' : Volume} (h : r.Returns m.volume v')
      (hkeeps : ¬r.Frees m.volume m.volume.rootNumber) : KeepsRoot m { m with volume := v' }
  | sync {m m' : Mounted D} (h : Action.Returns sync m m') : KeepsRoot m m'

def RootUsable (m : Mounted D) : Prop :=
  ∀ m', Relation.ReflTransGen KeepsRoot m m' → m'.volume.Serves m.volume.rootNumber

theorem sync_rooted (h : m.volume.RootedAt root) :
    Action.Leaves sync m (·.volume.RootedAt root) := by
  have hkept : ∀ data, Volume.RootedAt { m.volume with superBlock := m.volume.counted, data } root :=
    fun _ => h.same_table rfl (fun hused => hused) rfl
  simp only [sync, onVolume, onDisk, Action.ensures_bind, Action.ensures_get, Action.ensures_within,
    Action.ensures_modify, Action.ensures_restate]
  refine (Action.leaves_true _ _).mono (fun _ d₁ _ => ?_) (fun _ _ _ => hkept _) id
  refine (Action.leaves_true _ _).mono (fun _ d₂ _ => ?_) (fun _ _ _ => hkept _) id
  refine (Action.leaves_true _ _).mono (fun _ d₃ _ => ?_) (fun _ _ _ => hkept _) id
  exact (Action.leaves_true _ _).mono (fun _ _ _ => hkept _) (fun _ _ _ => hkept _) id

theorem KeepsRoot.rooted (h : KeepsRoot m m') (hm : m.volume.RootedAt root) :
    m'.volume.RootedAt root := by
  cases h with
  | call hr hkeeps => exact hm.request (hm.number ▸ hkeeps) hr
  | sync hsync => exact (sync_rooted hm).of_returns hsync

theorem rooted_run (h : Relation.ReflTransGen KeepsRoot m m') (hm : m.volume.RootedAt root) :
    m'.volume.RootedAt root := by
  induction h with
  | refl => exact hm
  | tail _ hstep ih => exact hstep.rooted ih

end Mounted

/-- A volume that was mounted has a usable root exactly if the two things hold that mounting does not
ask for: the root has its bit, and its record has its number. -/
theorem mounted_root_usable_iff {D : Type} [BlockDevice D] (d : D) (v : Volume)
    (hmount : Volume.mount d = .ok v) :
    Mounted.RootUsable ⟨v, d⟩ ↔ v.space.inodes.used v.rootNumber.toNat = true ∧
      ∀ node, v.table.get? v.rootNumber = some node → node.number = v.rootNumber := by
  have hloaded := Volume.loaded_of_mount hmount
  constructor
  · intro husable
    obtain ⟨node, hnode⟩ := (husable _ .refl).inode hloaded.sized
    obtain ⟨hlive, hnumber⟩ := Volume.inode_eq_ok.1 hnode
    obtain ⟨hused, hget⟩ := Volume.live?_eq_some.1 hlive
    refine ⟨hused, fun node' hnode' => ?_⟩
    obtain rfl := Option.some.inj (hget.symm.trans hnode')
    exact hnumber
  · rintro ⟨hused, hnumber⟩ m' hrun
    have hroot := hloaded.root
    cases hget : v.table.get? v.rootNumber with
    | none =>
      rw [← Volume.rootNumber, hget] at hroot
      cases hroot
    | some node =>
      rw [← Volume.rootNumber, hget, Option.any_some] at hroot
      have hrooted : v.RootedAt v.rootNumber :=
        ⟨rfl, Volume.hasDirectory_iff.2 ⟨hused, node, hget, hnumber node hget, hroot⟩⟩
      exact (Mounted.rooted_run hrun hrooted).serves

/-- What a format left has a usable root after a mount. -/
theorem formatted_root_is_usable : ∃ (v₀ v : Volume) (d' : MemoryDisk),
    Volume.format ⟨4, 4⟩ ⟨.replicate 16 0⟩ 0 (MemoryDisk.blank 8) = .ok v₀ d' ∧
      Volume.mount d' = .ok v ∧ Mounted.RootUsable ⟨v, d'⟩ := by
  obtain ⟨v₀, d', hformat⟩ := Volume.format_memoryDisk
  have hformatted := Volume.formatted_of_format hformat
  obtain ⟨root, hroot, hdirectory⟩ := hformatted.rooted
  obtain ⟨hused, hget⟩ := Volume.live?_eq_some.1 hroot
  obtain ⟨v, hmount, hrestored⟩ := Volume.mount_of_format trivial hformat
  have hnumber : v.rootNumber = SuperBlock.rootNumber := by
    rw [Volume.rootNumber, hrestored.superBlock, hformatted.layout.superBlock]
    rfl
  refine ⟨v₀, v, d', hformat, hmount, (mounted_root_usable_iff d' v hmount).2 ⟨?_, ?_⟩⟩
  · rw [hnumber, hrestored.space]
    exact hused
  · intro node hnode
    rw [hnumber, hrestored.table, hget] at hnode
    obtain rfl := Option.some.inj hnode
    rw [hnumber]
    exact hformatted.sound.number _ _ hroot

namespace Volume

/-- An empty volume in whose table there is a root, but not in the bitmap. -/
def stray (g : Geometry) (id : VolumeId) (now : Int64) : Volume :=
  { unrooted g id now with
    table := (unrooted g id now).table.set SuperBlock.rootNumber
      { Inode.blank with number := SuperBlock.rootNumber, mode := .defaultDirectory } }

variable {g : Geometry} {id : VolumeId} {now : Int64}

theorem live?_stray (n : UInt32) : (stray g id now).live? n = none := by
  by_cases hn : n = SuperBlock.rootNumber
  · have hused : (stray g id now).space.inodes.used n.toNat = decide (n.toNat < 1 ∧ _) :=
      Bitmap.used_fresh 1 g.inodes _ n.toNat
    rw [live?, hused, hn]
    rfl
  · have hsame : (stray g id now).live? n = (unrooted g id now).live? n := by
      rw [live?, live?, stray, get?_set_ne hn]
    rw [hsame, live?_unrooted]

theorem sound_stray (g : Geometry) (id : VolumeId) (now : Int64) : (stray g id now).Sound := by
  have hsound := sound_unrooted g id now
  have hothers : Others SuperBlock.rootNumber (unrooted g id now) (stray g id now) :=
    others_set (fun _ _ => rfl) rfl
  have hblocks : (unrooted g id now).space.blocks.Becomes
      ((unrooted g id now).foreign SuperBlock.rootNumber) (stray g id now).space.blocks := by
    refine hsound.whole.exactBlocks.becomes_self.congr fun b => ?_
    rw [hsound.whole.used_iff, owned_iff SuperBlock.rootNumber, blocksOf_unrooted]
    simp
  have hshape : SameShape (unrooted g id now) (stray g id now) :=
    ⟨rfl, rfl, rfl, Array.size_setIfInBounds, ⟨rfl, rfl, rfl⟩, ⟨rfl, rfl, rfl⟩, rfl, rfl⟩
  have hnone : ∀ n node, (stray g id now).live? n ≠ some node := by
    intro n node hnode
    rw [live?_stray] at hnode
    cases hnode
  have hwhole := (hsound.whole.emptied hshape hothers rfl hsound.whole.exactInodes hblocks
    fun node hnode => absurd hnode (hnone _ node)).2
  exact ⟨hwhole, fun n node hnode => absurd hnode (hnone n node),
    fun n node hnode => absurd hnode (hnone n node)⟩

theorem mount_stray : ∃ (d : MemoryDisk) (v : Volume), mount d = .ok v ∧ v.Whole ∧
    v.rootNumber = SuperBlock.rootNumber ∧
    v.space = (stray ⟨4, 4⟩ ⟨.replicate 16 0⟩ 0).space ∧ v.live? SuperBlock.rootNumber = none := by
  generalize hw : stray ⟨4, 4⟩ ⟨.replicate 16 0⟩ 0 = w
  have hsound : w.Sound := hw ▸ sound_stray _ _ _
  have hlayout : w.Layout := by
    rw [← hw]
    exact ⟨rfl, rfl, rfl, rfl, rfl⟩
  have hroot : ∃ root, w.table.get? 1 = some root ∧ root.isDirectory = true := by
    rw [← hw]
    exact ⟨_, get?_set_self rfl, rfl⟩
  have hdead : ∀ n, w.live? n = none := fun n => hw ▸ live?_stray n
  have hbacked : w.Backed (FaithfulDevice.held (MemoryDisk.blank 8)) := by
    intro n b hb
    rw [blocksOf, hdead] at hb
    cases hb
  have hroom : w.geometry.deviceBlocks ≤ blockCount (MemoryDisk.blank 8) := by
    have hcount : blockCount (MemoryDisk.blank 8) = 8 := Array.size_replicate
    rw [hcount, ← hw]
    decide
  have hsafe : Usage.Safe ⟨w, MemoryDisk.blank 8, none⟩ :=
    ⟨trivial, ⟨hsound, hlayout, hroom⟩, hbacked, by rintro _ ⟨⟩⟩
  obtain ⟨m, hsync⟩ := hsafe.sync_ok
  obtain ⟨hsynced, hsettled, -⟩ := hsafe.sync_ensures.of_ok hsync
  rw [← hsettled.table] at hroot
  obtain ⟨v, hmount, hrestored⟩ := hsynced.mount_restores rfl
    (fun n hn => ReliableDevice.read_ok trivial hn) hroot
  refine ⟨m.disk, v, hmount, (hsynced.step (.mount (Option.some_ne_none _) hmount)).fits.sound.whole,
    ?_, hrestored.space.trans hsettled.space, ?_⟩
  · rw [rootNumber, hrestored.superBlock, hsettled.superBlock, counted, hlayout.superBlock]
    rfl
  · rw [live?, hrestored.space, hrestored.table, hsettled.space, hsettled.table]
    exact hdead SuperBlock.rootNumber

end Volume

/-- The root of a volume that is mounted cannot be looked into, and its number is handed out. -/
theorem mounted_root_may_be_free : ∃ (d : MemoryDisk) (v v' : Volume) (node : Inode),
    Volume.mount d = .ok v ∧
      v.lookup v.rootNumber "x" = .error (.failure (.invalidInode v.rootNumber)) ∧
      Volume.createInode default .defaultFile 0 v = .ok node v' ∧ node.number = v.rootNumber := by
  obtain ⟨d, v, hmount, hwhole, hnumber, hspace, hdead⟩ := Volume.mount_stray
  have hinode : v.inode v.rootNumber = fail (.invalidInode v.rootNumber) := by
    rw [hnumber, Volume.inode_eq hwhole.sized, hdead]
  have hlookup : v.lookup v.rootNumber "x" = .error (.failure (.invalidInode v.rootNumber)) := by
    simp only [Volume.lookup, Volume.directory, hinode]
    rfl
  have hfree : v.space.inodes.used 1 = false := by
    rw [hspace]
    exact (Bitmap.used_fresh 1 4 _ 1).trans (by decide)
  have htotal : 1 < v.space.inodes.total.toNat := by
    rw [hspace]
    decide
  obtain ⟨inodes, htake⟩ := hwhole.take_root htotal hfree
  have hens := Volume.createInode_ensures hwhole default .defaultFile 0
  cases hcreate : Volume.createInode default .defaultFile 0 v with
  | ok node v' =>
    obtain ⟨inodes', htaken⟩ := (hens.of_ok hcreate).taken
    have hfirst := (Prod.mk.inj (Option.some.inj (Except.ok.inj (htaken.symm.trans htake)))).1
    exact ⟨d, v, v', node, hmount, hlookup, hcreate, hfirst.trans hnumber.symm⟩
  | error stop v' =>
    cases stop with
    | trap t => exact (hens.of_trap hcreate).elim
    | failure e =>
      obtain ⟨-, ⟨-, hinodes | hblocks | hnone⟩ | ⟨-, hkind⟩⟩ := hens.of_failure hcreate
      · exact absurd hinodes (hwhole.exactInodes.free_ne_zero htotal hfree)
      · rw [hspace] at hblocks
        cases hblocks
      · rw [htake] at hnone
        cases hnone
      · cases hkind

end ExtentVolume
