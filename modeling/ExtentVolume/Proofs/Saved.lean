import ExtentVolume.Proofs.FileLinks
import ExtentVolume.Proofs.Rollback

namespace ExtentVolume

open BlockDevice

def Request.Inserts : Request → Prop
  | .insert .. => True
  | _ => False

namespace Namespace

/-- There is a root directory, and no entry is for it. -/
structure Anchored (ns : Namespace) : Prop where
  directory : ns.isDirectory 1 = true
  unnamed : ns.names 1 = 0

variable {ns ns' : Namespace} {r : Request}

theorem anchored_rooted : rooted.Anchored := by
  refine ⟨?_, names_rooted (by decide)⟩
  rw [isDirectory_eq, kind_rooted]
  rfl

theorem Anchored.effect (h : ns.Anchored) (heffect : ns.Effect r ns') (hr : ¬r.Inserts) :
    ns'.Anchored := by
  have hone : (1 : UInt32) ≠ 0 := by decide
  cases heffect with
  | keep => exact h
  | create hdirectory hname hfresh hnumber =>
    have hne := ne_of_isDirectory h.directory hfresh
    constructor
    · rw [isDirectory_create (ne_of_isDirectory hdirectory hfresh), if_neg hne, h.directory]
    · rw [names_create hone hdirectory hfresh, h.unnamed, if_neg hne.symm]
  | createInode hfresh hnumber =>
    have hne := ne_of_isDirectory h.directory hfresh
    constructor
    · rw [isDirectory, set_ne hne]
      exact h.directory
    · rw [names_set_free _ (mentions_ofMode hone _), h.unnamed]
      rw [hfresh]
      rfl
  | insert => exact absurd trivial hr
  | @remove parent n name now target hfound htarget hspare =>
    -- what is removed has a name, and the root has none
    have hne : (1 : UInt32) ≠ n := by
      rintro rfl
      exact Nat.ne_of_gt (names_pos hfound) h.unnamed
    constructor
    · rw [isDirectory_remove hne, h.directory]
    · exact Nat.le_zero.1 (h.unnamed ▸ names_le fun d => mentions_remove hone hfound d)
  | grow hlive =>
    constructor
    · rw [isDirectory_eq, kind_onSlots, ← isDirectory_eq, h.directory]
    · rw [names_grow hone, h.unnamed]

end Namespace

namespace Volume

variable {v v' : Volume} {c : Nat → Block}

theorem Stored.kept (h : v.Stored c) (hv : v.Whole) (hkept : Kept v v')
    (hstart : v'.data.start = v.data.start) : v'.Stored c := by
  have hlive : ∀ n, v'.live? n = v.live? n := fun n => by
    rw [live?, live?, hkept.space, hkept.table]
  refine ⟨?_, ?_, ?_, ?_, fun n b hb => ?_⟩
  · rw [hkept.superBlock]
    exact h.superBlock
  · rw [hkept.space]
    exact h.inodes
  · rw [hkept.space]
    exact h.blocks
  · rw [hkept.table]
    exact h.table
  · rw [blocksOf, hlive, ← blocksOf] at hb
    rw [hstart, hkept.content b ((hv.used_iff b).2 ⟨n, hb⟩)]
    exact h.data n b hb

end Volume

namespace Mounted

variable {D : Type} [BlockDevice D] [FaithfulDevice D] {m : Mounted D} {v' : Volume}

/-- A volume in use on a device that refuses nothing. -/
structure Working (m : Mounted D) : Prop where
  maintains : Maintains (blockCount m.disk) m.disk (FaithfulDevice.held m.disk)
  room : m.volume.geometry.deviceBlocks ≤ blockCount m.disk
  regular : m.volume.Regular
  backed : m.volume.Backed (FaithfulDevice.held m.disk)
  anchored : m.volume.members.Anchored

/-- The device has the volume as it is in memory. -/
structure Saved (m : Mounted D) : Prop extends Working m where
  stored : m.volume.Stored (FaithfulDevice.held m.disk)

theorem Working.call (h : Working m) {r : Request} (hr : r.Returns m.volume v')
    (hinserts : ¬r.Inserts) : Working { m with volume := v' } := by
  have hsound := h.regular.sound
  have hsteps := Request.steps hsound.whole hr
  refine ⟨h.maintains, ?_, hsteps.regular h.regular, h.backed.steps hsteps hsound.whole,
    h.anchored.effect (Request.effect hsound hr) hinserts⟩
  rw [(hsteps.shape hsound.whole).geometry_eq]
  exact h.room

theorem Working.sync_ensures (h : Working m) :
    Action.Ensures sync m (fun _ m' => Saved m' ∧ m'.volume.members = m.volume.members)
      (fun _ _ => False) False := by
  have hsound := h.regular.sound
  refine (Volume.sync_ensures hsound.whole.sized h.regular.layout (tracks_maintains _) h.maintains
    h.backed).mono ?_ ?_ id
  · rintro _ ⟨v', d'⟩ ⟨c', ⟨⟨hvalid, hcount, rfl⟩, hunfailing⟩, hsettled, hbacked, hstored⟩
    have hmembers := hsettled.toSameFiles.members hsound.whole
    refine ⟨⟨⟨⟨⟨hvalid, rfl, rfl⟩, hunfailing⟩, ?_, hsettled.regular h.regular, hbacked, ?_⟩, hstored⟩,
      hmembers⟩
    · rw [hsettled.toSameFiles.geometry_eq, hcount]
      exact h.room
    · rw [hmembers]
      exact h.anchored
  · rintro _ _ ⟨hrefused, -⟩
    exact maintains_not_refuses h.room hrefused

theorem Saved.kept (h : Saved m) {r : Request} (hr : r.Returns m.volume v') (hinserts : ¬r.Inserts)
    (hkept : Volume.Kept m.volume v') : Saved { m with volume := v' } := by
  have hwhole := h.regular.sound.whole
  exact ⟨h.toWorking.call hr hinserts,
    h.stored.kept hwhole hkept ((Request.steps hwhole hr).shape hwhole).dataStart⟩

theorem Saved.create (h : Saved m) (parent : UInt32) (name : String) (mode : Mode) (owner : Owner)
    (now : Int64) :
    Action.Ensures (onVolume (Volume.create parent name mode owner now)) m (fun _ => Working)
      (fun _ => Saved) (m.volume.Overflows parent name mode owner now) := by
  rw [onVolume, Action.ensures_within]
  refine (Volume.create_outcome h.regular.sound h.regular.tidy parent name mode owner now).run.mono
    ?_ ?_ id
  · rintro n v' ⟨hrun, -⟩
    have hr : (Request.create parent name mode owner now).Returns m.volume v' := .inl ⟨n, hrun⟩
    exact h.toWorking.call hr id
  · rintro e v' ⟨hrun, hkept⟩
    have hr : (Request.create parent name mode owner now).Returns m.volume v' := .inr ⟨e, hrun⟩
    exact h.kept hr id hkept

theorem Saved.remove (h : Saved m) (parent : UInt32) (name : String) (now : Int64) :
    Action.Ensures (onVolume (Volume.remove parent name now)) m (fun _ => Working) (fun _ => Saved)
      False := by
  rw [onVolume, Action.ensures_within]
  refine (Volume.remove_members h.regular.sound parent name now).run.mono ?_ ?_ id
  · rintro n v' ⟨hrun, -⟩
    have hr : (Request.remove parent name now).Returns m.volume v' := .inl ⟨n, hrun⟩
    exact h.toWorking.call hr id
  · rintro e v' ⟨-, rfl, -⟩
    exact h

theorem Working.write (h : Working m) (n : UInt32) (offset : Nat) (bytes : List UInt8)
    (now : Int64) :
    Action.Leaves (onVolume (Volume.write n offset bytes now)) m Working := by
  rw [Action.Leaves, onVolume, Action.ensures_within]
  exact Action.leaves_iff.2 fun v' hr =>
    h.call (show (Request.write n offset bytes now).Returns m.volume v' from hr) id

theorem saved_of_format {g : Geometry} {id : VolumeId} {now : Int64} {d d' : D} {v : Volume}
    {count : Nat} {c : Nat → Block} (hmaintains : Maintains count d c)
    (hformat : Volume.format g id now d = .ok v d') : Saved ⟨v, d'⟩ := by
  obtain ⟨hroom, hformatted, -, c', ⟨⟨hvalid, hcount, rfl⟩, hunfailing⟩, hbacked, hstored⟩ :=
    (Volume.format_ensures (tracks_maintains count) hmaintains g id now).of_ok hformat
  refine ⟨⟨⟨⟨hvalid, rfl, rfl⟩, hunfailing⟩, ?_, Volume.regular_of_format hformat, hbacked, ?_⟩,
    hstored⟩
  · rw [hformatted.geometry, hcount, ← hmaintains.1.2.1]
    exact hroom.2.2
  · rw [hformatted.members]
    exact Namespace.anchored_rooted

theorem Working.reformat (h : Working m) (g : Geometry) (id : VolumeId) (now : Int64) :
    Action.Ensures (reformat g id now) m
      (fun _ m' => Saved m' ∧ m'.volume.members = .rooted) (fun _ m' => m' = m) False := by
  simp only [Mounted.reformat, Action.ensures_bind, Action.ensures_get, Action.ensures_lift,
    Action.ensures_modify, onVolume, Action.ensures_within]
  refine (Volume.blank_ensures (blockCount m.disk) g id now).mono ?_ (fun _ _ => trivial) False.elim
  rintro _ ⟨rfl, hroom⟩
  obtain ⟨v, hrun, hformatted, hbacked⟩ := Volume.makeRoot_ok hroom id now now
  refine (Action.ensures_of_ok hrun).2 ?_
  have hworking : Working ⟨v, m.disk⟩ := by
    refine ⟨h.maintains, ?_, (Volume.makeRoot_regular hroom id now now).of_ok hrun, hbacked _, ?_⟩
    · rw [hformatted.geometry]
      exact hroom.2.2
    · rw [hformatted.members]
      exact Namespace.anchored_rooted
  exact hworking.sync_ensures.mono
    (fun _ _ h => ⟨h.1, h.2.trans hformatted.members⟩) (fun _ _ => False.elim) False.elim

end Mounted

end ExtentVolume
