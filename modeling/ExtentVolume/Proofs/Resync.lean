import ExtentVolume.Proofs.Persistence

namespace ExtentVolume

open BlockDevice

namespace Volume

variable {D : Type} [BlockDevice D] {holds : D → (Nat → Block) → Prop} {d : D} {c : Nat → Block}
  {v : Volume}

theorem sync_stored (hv : v.Sized) (hlayout : v.Layout) (htracks : Tracks holds) (hd : holds d c)
    (hcounted : v.superBlock = v.counted) (hstored : v.Stored c)
    (hclean : ∀ b, ¬BlockCache.Dirty v.data.cells b) :
    Action.Ensures Mounted.sync ⟨v, d⟩ (fun _ m => m.volume = v ∧ holds m.disk c)
      (fun _ _ => Refuses holds v.geometry.deviceBlocks) False := by
  obtain ⟨hinodes, hblocks, htable, hdata, hend⟩ := hlayout.places
  have hlimit : v.geometry.deviceBlocks ≤ 2 ^ 64 := Nat.le_of_lt v.geometry.deviceBlocks_lt
  generalize v.geometry.deviceBlocks = limit at hend hlimit ⊢
  have hrecords : blocksFor (v.table.records.size * Inode.slotSize) =
      InodeTable.regionSize v.table.total := by
    rw [hv.records, hv.table]
    rfl
  have hfirst : (0 : UInt64).toNat + 0 < limit := by
    simp only [UInt64.toNat_zero]
    omega
  have hsuper : Function.update c 0 (.ofBytes (Codec.encode v.counted)) = c := by
    rw [← hcounted, ← hstored.superBlock 0 _ rfl]
    exact Function.update_eq_self 0 c
  simp only [Mounted.sync, Mounted.onVolume, Mounted.onDisk, FreeSpace.sync, Bitmap.sync,
    SuperBlock.sync, InodeTable.sync, hrecords, Action.ensures_bind, Action.ensures_get,
    Action.ensures_within, Action.ensures_modify, Action.ensures_restate]
  refine (store_ensures htracks hd hlimit hfirst _).mono ?_ (fun _ _ h => h.2) id
  intro _ d₁ hd₁
  replace hd₁ : holds d₁ c := hsuper ▸ hd₁
  refine (storeRun_held htracks hd₁ hlimit ?_ hstored.inodes).imp ?_
  · rw [Block.length_split]
    omega
  intro _ d₂ hd₂
  refine (storeRun_held htracks hd₂ hlimit ?_ hstored.blocks).imp ?_
  · rw [Block.length_split]
    omega
  intro _ d₃ hd₃
  refine (storeRun_held htracks hd₃ hlimit ?_ hstored.table).imp ?_
  · rw [InodeTable.length_blocksOf, hv.table]
    omega
  intro _ d₄ hd₄
  refine (BlockCache.sync_clean hclean).mono ?_ (fun _ _ h => h.elim) id
  rintro _ _ rfl
  exact ⟨congrArg (fun s => { v with superBlock := s }) hcounted.symm, hd₄⟩

end Volume

namespace Usage

variable {D : Type} [BlockDevice D] [FaithfulDevice D] {u u' : Usage D}

theorem Run.counted (h : Safe u) (hrun : Run u u')
    (hcounted : ∀ w, u.synced = some w → w.superBlock = w.counted) :
    ∀ w, u'.synced = some w → w.superBlock = w.counted := by
  induction hrun with
  | refl => exact hcounted
  | tail hrun hstep ih =>
    cases hstep with
    | call _ => exact ih
    | sync hsync =>
      rintro w ⟨⟩
      exact ((h.run hrun).sync_ensures.of_ok hsync).2.1.recounted
    | failedSync _ => simp
    | mount _ _ => exact ih

theorem Safe.resync {w : Volume} (h : Safe u) (hsynced : u.synced = some w)
    (hcounted : w.superBlock = w.counted) (hunfailing : Unfailing u.disk)
    (hroot : ∃ root, w.table.get? 1 = some root ∧ root.isDirectory = true) :
    ∃ v m, Volume.mount u.disk = .ok v ∧ Mounted.sync ⟨v, u.disk⟩ = .ok () m ∧ m.volume = v ∧
      Maintains (blockCount u.disk) m.disk (FaithfulDevice.held u.disk) := by
  obtain ⟨hfits, hstored⟩ := h.synced w hsynced
  have hsized := ((hstored.sameFiles hfits.sound.whole).sound hfits.sound).whole.sized
  have hmaintains : Maintains (blockCount u.disk) u.disk (FaithfulDevice.held u.disk) :=
    ⟨⟨h.valid, rfl, rfl⟩, hunfailing⟩
  have hens := Volume.sync_stored hsized (hfits.layout.reload _)
    (tracks_maintains (blockCount u.disk)) hmaintains hcounted
    (hstored.reload hfits.sound.whole) BlockCache.clean_ofDevice
  obtain ⟨⟨⟩, m, hsync, hvolume, hkept⟩ :=
    hens.exists_ok (fun _ _ => maintains_not_refuses hfits.room) id
  exact ⟨_, m, h.mount_reloaded hsynced hunfailing.readable hroot, hsync, hvolume, hkept⟩

end Usage

/-- In every run from a format, once a sync has succeeded, mounting the device and syncing at once
writes every block as it was. -/
theorem mount_then_sync_is_identity {D : Type} [BlockDevice D] [FaithfulDevice D] (g : Geometry)
    (id : VolumeId) (now : Int64) (d d' : D) (v₀ w : Volume) (u : Usage D)
    (hvalid : FaithfulDevice.Valid d) (hformat : Volume.format g id now d = .ok v₀ d')
    (hrun : Usage.Run ⟨v₀, d', some v₀⟩ u) (hsynced : u.synced = some w)
    (hunfailing : Unfailing u.disk)
    (hroot : ∃ root, w.table.get? 1 = some root ∧ root.isDirectory = true) :
    ∃ v m, Volume.mount u.disk = .ok v ∧ Mounted.sync ⟨v, u.disk⟩ = .ok () m ∧
      blockCount m.disk = blockCount u.disk ∧
      ∀ n < blockCount u.disk, ∃ b, readBlock u.disk n = .ok b ∧ readBlock m.disk n = .ok b := by
  have hsafe := Usage.safe_of_format hvalid hformat
  have hfirst : ∀ w, some v₀ = some w → w.superBlock = w.counted := by
    rintro w ⟨⟩
    exact Volume.counted_of_format hformat
  have hsafe' := hsafe.run hrun
  obtain ⟨v, m, hmount, hsync, -, hmaintains⟩ :=
    hsafe'.resync hsynced (Usage.Run.counted hsafe hrun hfirst w hsynced) hunfailing hroot
  have hbefore : Maintains (blockCount u.disk) u.disk (FaithfulDevice.held u.disk) :=
    ⟨⟨hsafe'.valid, rfl, rfl⟩, hunfailing⟩
  exact ⟨v, m, hmount, hsync, hmaintains.1.2.1,
    fun n hn => ⟨_, hbefore.readBlock hn, hmaintains.readBlock hn⟩⟩

/-- A call that was never synced leaves no trace. -/
theorem formatted_device_is_synced_again : ∃ (v₀ v v' : Volume) (d' : MemoryDisk)
    (m : Mounted MemoryDisk),
    Volume.format ⟨4, 4⟩ ⟨.replicate 16 0⟩ 0 (MemoryDisk.blank 8) = .ok v₀ d' ∧
      (Request.createInode default .defaultDirectory 0).Returns v₀ v ∧
      Volume.mount d' = .ok v' ∧ Mounted.sync ⟨v', d'⟩ = .ok () m ∧
      ∀ n < blockCount d', ∃ b, readBlock d' n = .ok b ∧ readBlock m.disk n = .ok b := by
  obtain ⟨v₀, d', hformat⟩ := Volume.format_memoryDisk
  have hformatted := Volume.formatted_of_format hformat
  obtain ⟨v, hr⟩ := (Volume.createInode_ensures hformatted.sound.whole default .defaultDirectory
    0).returns
  have hr : (Request.createInode default .defaultDirectory 0).Returns v₀ v := hr
  obtain ⟨root, hroot, hdirectory⟩ := hformatted.rooted
  obtain ⟨v', m, hmount, hsync, -, hblocks⟩ := mount_then_sync_is_identity ⟨4, 4⟩
    ⟨.replicate 16 0⟩ 0 (MemoryDisk.blank 8) d' v₀ v₀ ⟨v, d', some v₀⟩ trivial hformat
    (.single (.call hr)) rfl (unfailing_of_reliable trivial)
    ⟨root, (Volume.live?_eq_some.1 hroot).2, hdirectory⟩
  exact ⟨v₀, v, v', d', m, hformat, hr, hmount, hsync, hblocks⟩

end ExtentVolume
