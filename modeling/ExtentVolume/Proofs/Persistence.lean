import ExtentVolume.Proofs.Format
import ExtentVolume.Proofs.Requests

namespace ExtentVolume

open BlockDevice

/-- A volume in use, and the volume as of the last sync, unless a sync has failed since. -/
structure Usage (D : Type) where
  volume : Volume
  disk : D
  synced : Option Volume

namespace Usage

variable {D : Type} [BlockDevice D]

inductive Step : Usage D → Usage D → Prop where
  | call {u : Usage D} {r : Request} {v' : Volume} (h : r.Returns u.volume v') :
      Step u { u with volume := v' }
  | sync {u : Usage D} {m : Mounted D} (h : Mounted.sync ⟨u.volume, u.disk⟩ = .ok () m) :
      Step u ⟨m.volume, m.disk, some m.volume⟩
  | failedSync {u : Usage D} {e : VolumeError} {m : Mounted D}
      (h : Mounted.sync ⟨u.volume, u.disk⟩ = .error (.failure e) m) :
      Step u ⟨m.volume, m.disk, none⟩
  | mount {u : Usage D} {v : Volume} (hsynced : u.synced ≠ none) (h : Volume.mount u.disk = .ok v) :
      Step u { u with volume := v }

abbrev Run : Usage D → Usage D → Prop := Relation.ReflTransGen Step

structure Fits (v : Volume) (d : D) : Prop where
  sound : v.Sound
  layout : v.Layout
  room : v.geometry.deviceBlocks ≤ blockCount d

variable {u u' : Usage D} {v v' : Volume} {d d' : D}

theorem Fits.congr (h : Fits v d) (hcount : blockCount d' = blockCount d) : Fits v d' :=
  ⟨h.sound, h.layout, hcount ▸ h.room⟩

open Volume in
theorem Fits.settled (h : Fits v d) (hsettled : Settled v v') : Fits v' d :=
  ⟨hsettled.toSameFiles.sound h.sound, hsettled.layout h.layout,
    hsettled.toSameFiles.geometry_eq ▸ h.room⟩

theorem fits_formatted {g : Geometry} (h : Volume.Formatted g v)
    (hroom : Volume.HasRoom g (blockCount d)) : Fits v d := by
  refine ⟨h.sound, h.layout, ?_⟩
  rw [h.geometry]
  exact hroom.2.2

variable [FaithfulDevice D]

/-- What holds along a run: nothing in use is lost in memory, and the volume as of the last sync is
on the device. -/
structure Safe (u : Usage D) : Prop where
  valid : FaithfulDevice.Valid u.disk
  fits : Fits u.volume u.disk
  backed : u.volume.Backed (FaithfulDevice.held u.disk)
  synced : ∀ w, u.synced = some w → Fits w u.disk ∧ w.Stored (FaithfulDevice.held u.disk)

theorem Safe.sync_ensures (h : Safe u) :
    Action.Ensures Mounted.sync ⟨u.volume, u.disk⟩
      (fun _ m => Safe ⟨m.volume, m.disk, some m.volume⟩ ∧ Volume.Settled u.volume m.volume ∧
        blockCount m.disk = blockCount u.disk)
      (fun _ m => Safe ⟨m.volume, m.disk, none⟩ ∧ Volume.Settled u.volume m.volume ∧
        Refuses (Contains (blockCount u.disk) : D → (Nat → Block) → Prop)
          u.volume.geometry.deviceBlocks) False := by
  refine (Volume.sync_ensures h.fits.sound.whole.sized h.fits.layout
    (tracks_contains (blockCount u.disk)) ⟨h.valid, rfl, rfl⟩ h.backed).mono ?_ ?_ fun h => h
  · rintro _ ⟨v', d'⟩ ⟨c', ⟨hvalid, hcount, rfl⟩, hsettled, hbacked, hstored⟩
    have hfits := (h.fits.settled hsettled).congr hcount
    refine ⟨⟨hvalid, hfits, hbacked, ?_⟩, hsettled, hcount⟩
    rintro w ⟨⟩
    exact ⟨hfits, hstored⟩
  · rintro _ ⟨v', d'⟩ ⟨hrefused, c', ⟨hvalid, hcount, rfl⟩, hsettled, hbacked⟩
    refine ⟨⟨hvalid, (h.fits.settled hsettled).congr hcount, hbacked, ?_⟩, hsettled, hrefused⟩
    rintro w ⟨⟩

theorem Safe.shows (h : Safe u) {w : Volume} (hw : u.synced = some w) (hread : Readable u.disk) :
    Shows u.disk w.geometry.deviceBlocks (FaithfulDevice.held u.disk) :=
  Contains.shows ⟨h.valid, rfl, rfl⟩ hread (h.synced w hw).1.room
    (Nat.le_of_lt w.geometry.deviceBlocks_lt)

theorem Safe.mount_eq (h : Safe u) {w : Volume} (hw : u.synced = some w)
    (hshows : Shows u.disk w.geometry.deviceBlocks (FaithfulDevice.held u.disk)) :
    Volume.mount u.disk =
      if (w.table.get? w.superBlock.root).any (·.isDirectory) then
        .ok (w.reloaded (FaithfulDevice.held u.disk))
      else fail (.corrupted .rootMissing) := by
  obtain ⟨hfits, hstored⟩ := h.synced w hw
  exact Volume.mount_eq hfits.sound.whole hfits.layout hstored hshows hfits.room

theorem Safe.mount_reloaded (h : Safe u) {w : Volume} (hw : u.synced = some w)
    (hread : Readable u.disk)
    (hroot : ∃ root, w.table.get? 1 = some root ∧ root.isDirectory = true) :
    Volume.mount u.disk = .ok (w.reloaded (FaithfulDevice.held u.disk)) := by
  obtain ⟨root, hget, hdirectory⟩ := hroot
  have hfound : w.table.get? w.superBlock.root = some root := by
    rw [(h.synced w hw).1.layout.root_eq]
    exact hget
  rw [h.mount_eq hw (h.shows hw hread), hfound]
  exact if_pos hdirectory

theorem Safe.step (h : Safe u) (hstep : Step u u') : Safe u' := by
  cases hstep with
  | call hr =>
    have hsteps := Request.steps h.fits.sound.whole hr
    have hshape := hsteps.shape h.fits.sound.whole
    exact ⟨h.valid, ⟨hsteps.sound h.fits.sound, hshape.layout h.fits.layout,
      hshape.geometry_eq ▸ h.fits.room⟩, h.backed.steps hsteps h.fits.sound.whole, h.synced⟩
  | sync hsync => exact (h.sync_ensures.of_ok hsync).1
  | failedSync hsync => exact (h.sync_ensures.of_failure hsync).1
  | @mount v hsynced hmount =>
    obtain ⟨w, hw⟩ := Option.ne_none_iff_exists'.1 hsynced
    obtain ⟨hfits, hstored⟩ := h.synced w hw
    have hshows := Volume.shows_of_mount h.valid hfits.layout hstored hfits.room hmount
    rw [h.mount_eq hw hshows] at hmount
    split at hmount
    · obtain rfl := Except.ok.inj hmount
      have hsame := hstored.sameFiles hfits.sound.whole
      exact ⟨h.valid, ⟨hsame.sound hfits.sound, hfits.layout.reload _, hfits.room⟩,
        (hstored.reload hfits.sound.whole).backed, h.synced⟩
    · cases hmount

theorem Safe.run (h : Safe u) (hrun : Run u u') : Safe u' := by
  induction hrun with
  | refl => exact h
  | tail _ hstep ih => exact ih.step hstep

theorem Safe.sync_ok {D : Type} [BlockDevice D] [ReliableDevice D] {u : Usage D} (h : Safe u) :
    ∃ m, Mounted.sync ⟨u.volume, u.disk⟩ = .ok () m := by
  obtain ⟨⟨⟩, m, hsync, -⟩ := h.sync_ensures.exists_ok
    (fun _ _ hfailed => not_refuses h.fits.room hfailed.2.2) fun h => h
  exact ⟨m, hsync⟩

theorem safe_of_format {g : Geometry} {id : VolumeId} {now : Int64}
    (hvalid : FaithfulDevice.Valid d) (hformat : Volume.format g id now d = .ok v d') :
    Safe ⟨v, d', some v⟩ := by
  have hens := Volume.format_ensures (tracks_contains (blockCount d)) ⟨hvalid, rfl, rfl⟩ g id now
  obtain ⟨hroom, hformatted, -, c', ⟨hvalid', hcount, rfl⟩, hbacked, hstored⟩ := hens.of_ok hformat
  have hfits : Fits v d' := fits_formatted hformatted (hcount ▸ hroom)
  refine ⟨hvalid', hfits, hbacked, ?_⟩
  rintro w ⟨⟩
  exact ⟨hfits, hstored⟩

end Usage

/-- Everything that can be found out about `v` is as it was in `w`. -/
structure Restored (w v : Volume) : Prop where
  superBlock : v.superBlock = w.superBlock
  space : v.space = w.space
  table : v.table = w.table
  blocks : ∀ n, ∀ b ∈ w.blocksOf n, v.data.block? b = w.data.block? b
  lookup : ∀ n name, v.lookup n name = w.lookup n name
  list : ∀ n, v.list n = w.list n
  read : ∀ n, v.read n = w.read n
  readAll : ∀ n, v.readAll n = w.readAll n
  check : Consistency.check v = Consistency.check w

theorem Volume.SameFiles.restored {w v : Volume} (h : SameFiles w v) (hw : w.Whole)
    (hsuper : v.superBlock = w.superBlock) : Restored w v := by
  refine ⟨hsuper, h.space, h.table, h.blocks, fun n name => ?_, fun n => ?_, fun n => ?_,
    fun n => ?_, Consistency.check_congr h.space h.table⟩
  · exact (h.sameAt hw n).lookup hw name
  · exact (h.sameAt hw n).list hw
  · exact (h.sameAt hw n).read hw
  · exact (h.sameAt hw n).readAll hw

theorem Restored.trans {u v w : Volume} (h : Restored w v) (h' : Restored v u) : Restored w u := by
  refine ⟨h'.superBlock.trans h.superBlock, h'.space.trans h.space, h'.table.trans h.table,
    fun n b hb => ?_, fun n name => (h'.lookup n name).trans (h.lookup n name),
    fun n => (h'.list n).trans (h.list n), fun n => (h'.read n).trans (h.read n),
    fun n => (h'.readAll n).trans (h.readAll n), h'.check.trans h.check⟩
  have hblocks : v.blocksOf n = w.blocksOf n := by
    rw [Volume.blocksOf, Volume.blocksOf, Volume.live?, Volume.live?, h.space, h.table]
  exact (h'.blocks n b (hblocks ▸ hb)).trans (h.blocks n b hb)

theorem Usage.Safe.mount_restores {D : Type} [BlockDevice D] [FaithfulDevice D] {u : Usage D}
    {w : Volume} (h : Safe u) (hsynced : u.synced = some w) (hread : BlockDevice.Readable u.disk)
    (hroot : ∃ root, w.table.get? 1 = some root ∧ root.isDirectory = true) :
    ∃ v, Volume.mount u.disk = .ok v ∧ Restored w v := by
  obtain ⟨hfits, hstored⟩ := h.synced w hsynced
  exact ⟨_, h.mount_reloaded hsynced hread hroot,
    (hstored.sameFiles hfits.sound.whole).restored hfits.sound.whole rfl⟩

theorem Volume.mount_of_format {D : Type} [BlockDevice D] [ReliableDevice D] {g : Geometry}
    {id : VolumeId} {now : Int64} {d d' : D} {w : Volume} (hvalid : FaithfulDevice.Valid d)
    (hformat : format g id now d = .ok w d') : ∃ v, mount d' = .ok v ∧ Restored w v := by
  obtain ⟨root, hroot, hdirectory⟩ := (formatted_of_format hformat).rooted
  have hsafe := Usage.safe_of_format hvalid hformat
  exact hsafe.mount_restores rfl (fun n hn => ReliableDevice.read_ok hsafe.valid hn)
    ⟨root, (live?_eq_some.1 hroot).2, hdirectory⟩

/-- In every run from a format, the device always holds the volume of the last sync: mounting it
succeeds and restores that volume, provided its root was a directory. -/
theorem mount_restores_synced {D : Type} [BlockDevice D] [FaithfulDevice D] (g : Geometry)
    (id : VolumeId) (now : Int64) (d d' : D) (v₀ w : Volume) (u : Usage D)
    (hvalid : FaithfulDevice.Valid d) (hformat : Volume.format g id now d = .ok v₀ d')
    (hrun : Usage.Run ⟨v₀, d', some v₀⟩ u) (hsynced : u.synced = some w)
    (hread : BlockDevice.Readable u.disk)
    (hroot : ∃ root, w.table.get? 1 = some root ∧ root.isDirectory = true) :
    ∃ v, Volume.mount u.disk = .ok v ∧ Restored w v :=
  ((Usage.safe_of_format hvalid hformat).run hrun).mount_restores hsynced hread hroot

theorem mount_restores_formatted : ∃ (v₀ v v' : Volume) (d' : MemoryDisk),
    Volume.format ⟨4, 4⟩ ⟨.replicate 16 0⟩ 0 (MemoryDisk.blank 8) = .ok v₀ d' ∧
      (Request.createInode default .defaultDirectory 0).Returns v₀ v ∧
      Volume.mount d' = .ok v' ∧ Restored v₀ v' := by
  obtain ⟨v₀, d', hformat⟩ := Volume.format_memoryDisk
  have hformatted := Volume.formatted_of_format hformat
  obtain ⟨v, hr⟩ := (Volume.createInode_ensures hformatted.sound.whole default .defaultDirectory
    0).returns
  have hr : (Request.createInode default .defaultDirectory 0).Returns v₀ v := hr
  obtain ⟨root, hroot, hdirectory⟩ := hformatted.rooted
  obtain ⟨v', hmount, hrestored⟩ := mount_restores_synced ⟨4, 4⟩ ⟨.replicate 16 0⟩ 0
    (MemoryDisk.blank 8) d' v₀ v₀ ⟨v, d', some v₀⟩ trivial hformat (.single (.call hr)) rfl
    (fun n hn => ReliableDevice.read_ok trivial hn)
    ⟨root, (Volume.live?_eq_some.1 hroot).2, hdirectory⟩
  exact ⟨v₀, v, v', d', hformat, hr, hmount, hrestored⟩

end ExtentVolume
