import ExtentVolume.Proofs.Persistence

namespace ExtentVolume

open BlockDevice

namespace Mounted

variable {D : Type} [BlockDevice D]

/-- The device refuses to write some of its blocks for now. -/
def refusing (m : Mounted D) (blocks : List Nat) : Mounted (FaultyDisk D) :=
  ⟨m.volume, ⟨m.disk, [], blocks⟩⟩

def recovered (m : Mounted (FaultyDisk D)) : Mounted D := ⟨m.volume, m.disk.disk⟩

inductive Step : Mounted D → Mounted D → Prop where
  | call {m : Mounted D} {r : Request} {v' : Volume} (h : r.Returns m.volume v') :
      Step m { m with volume := v' }
  | sync {m m' : Mounted D} (h : Mounted.sync m = .ok () m') : Step m m'
  | refusedSync {m : Mounted D} {blocks : List Nat} {m' : Mounted (FaultyDisk D)}
      (h : Action.Returns Mounted.sync (m.refusing blocks) m') : Step m m'.recovered

/-- Calls, syncs, and syncs that may be cut short, in any order. -/
abbrev Run : Mounted D → Mounted D → Prop := Relation.ReflTransGen Step

abbrev Safe [FaithfulDevice D] (m : Mounted D) : Prop := Usage.Safe ⟨m.volume, m.disk, none⟩

variable [FaithfulDevice D] {m m' : Mounted D} {blocks : List Nat}

theorem Safe.refusing (h : m.Safe) (blocks : List Nat) : (m.refusing blocks).Safe :=
  ⟨h.valid, ⟨h.fits.sound, h.fits.layout, h.fits.room⟩, h.backed, by rintro w ⟨⟩⟩

theorem Safe.recovered {m : Mounted (FaultyDisk D)} (h : m.Safe) : m.recovered.Safe :=
  ⟨h.valid, ⟨h.fits.sound, h.fits.layout, h.fits.room⟩, h.backed, by rintro w ⟨⟩⟩

theorem Safe.unsynced {u : Usage D} (h : Usage.Safe u) : Safe ⟨u.volume, u.disk⟩ :=
  ⟨h.valid, h.fits, h.backed, by rintro w ⟨⟩⟩

theorem Safe.returns_sync (h : m.Safe) (hsync : Action.Returns Mounted.sync m m') : m'.Safe :=
  (h.sync_ensures.mono (fun _ _ h => Safe.unsynced h.1) (fun _ _ h => h.1) id).of_returns hsync

theorem Safe.step (h : m.Safe) (hstep : Step m m') : m'.Safe := by
  cases hstep with
  | call hr => exact Usage.Safe.step h (.call hr)
  | sync hsync => exact h.returns_sync (.inl ⟨(), hsync⟩)
  | refusedSync hsync => exact ((h.refusing _).returns_sync hsync).recovered

theorem Safe.run (h : m.Safe) (hrun : Run m m') : m'.Safe := by
  induction hrun with
  | refl => exact h
  | tail _ hstep ih => exact ih.step hstep

theorem Safe.settled (h : m.Safe) (hsync : Action.Returns Mounted.sync m m') :
    Volume.Settled m.volume m'.volume := by
  have hens : Action.Ensures Mounted.sync m (fun _ m' => Volume.Settled m.volume m'.volume)
      (fun _ m' => Volume.Settled m.volume m'.volume) False :=
    h.sync_ensures.mono (fun _ _ h => h.2.1) (fun _ _ h => h.2.1) id
  exact hens.of_returns hsync

theorem Safe.sync_restores {D : Type} [BlockDevice D] [ReliableDevice D] {m : Mounted D}
    (h : m.Safe) : ∃ m', Mounted.sync m = .ok () m' ∧
      ((∃ root, m.volume.table.get? 1 = some root ∧ root.isDirectory = true) →
        ∃ v, Volume.mount m'.disk = .ok v ∧
          Restored { m.volume with superBlock := m.volume.counted } v) := by
  obtain ⟨m', hsync⟩ := Usage.Safe.sync_ok h
  refine ⟨m', hsync, fun hroot => ?_⟩
  obtain ⟨hsafe, hsettled, -⟩ := h.sync_ensures.of_ok hsync
  have hread : Readable m'.disk := fun n hn => ReliableDevice.read_ok hsafe.valid hn
  rw [← hsettled.table] at hroot
  obtain ⟨v, hmount, hrestored⟩ := hsafe.mount_restores rfl hread hroot
  have hsame : Volume.SameFiles { m.volume with superBlock := m.volume.counted } m'.volume :=
    ⟨hsettled.space, hsettled.table, hsettled.start, hsettled.cells, hsettled.blocks⟩
  have hwhole := (Volume.settled_counted m.volume).whole h.fits.sound.whole
  exact ⟨v, hmount, (hsame.restored hwhole hsettled.superBlock).trans hrestored⟩

end Mounted

/-- In every run from a format, a sync that is cut short leaves the allocator, the records and the
bytes in memory as they were, and a sync that nothing refuses succeeds, whatever was refused before:
mounting then restores the volume in memory, provided its root is a directory. -/
theorem refused_sync_loses_nothing {D : Type} [BlockDevice D] [ReliableDevice D] (g : Geometry)
    (id : VolumeId) (now : Int64) (d d' : D) (v₀ : Volume) (m : Mounted D)
    (hvalid : FaithfulDevice.Valid d) (hformat : Volume.format g id now d = .ok v₀ d')
    (hrun : Mounted.Run ⟨v₀, d'⟩ m) :
    (∀ blocks e m', Mounted.sync (m.refusing blocks) = .error (.failure e) m' →
      m'.volume.space = m.volume.space ∧ m'.volume.table = m.volume.table ∧
        ∀ b, m'.volume.data.block? b = m.volume.data.block? b) ∧
    ∃ m', Mounted.sync m = .ok () m' ∧
      ((∃ root, m.volume.table.get? 1 = some root ∧ root.isDirectory = true) →
        ∃ v, Volume.mount m'.disk = .ok v ∧
          Restored { m.volume with superBlock := m.volume.counted } v) := by
  have hstart : Mounted.Safe ⟨v₀, d'⟩ := .unsynced (Usage.safe_of_format hvalid hformat)
  have hsafe := hstart.run hrun
  refine ⟨fun blocks e m' hsync => ?_, hsafe.sync_restores⟩
  have hsettled := (hsafe.refusing blocks).settled (.inr ⟨e, hsync⟩)
  exact ⟨hsettled.space, hsettled.table, hsettled.content⟩

theorem refused_superblock_is_stored_later : ∃ (v₀ v : Volume) (d' : MemoryDisk)
    (m : Mounted (FaultyDisk MemoryDisk)) (m' : Mounted MemoryDisk),
    Volume.format ⟨4, 4⟩ ⟨.replicate 16 0⟩ 0 (MemoryDisk.blank 8) = .ok v₀ d' ∧
      Mounted.sync (Mounted.refusing ⟨v₀, d'⟩ [0]) =
        .error (.failure (.device (.writeRefused 0))) m ∧
      m.volume.space = v₀.space ∧ Mounted.sync m.recovered = .ok () m' ∧
      Volume.mount m'.disk = .ok v ∧
      Restored { m.volume with superBlock := m.volume.counted } v := by
  obtain ⟨v₀, d', hformat⟩ := Volume.format_memoryDisk
  have hformatted := Volume.formatted_of_format hformat
  obtain ⟨root, hroot, hdirectory⟩ := hformatted.rooted
  obtain ⟨m, hrefused⟩ : ∃ m, Mounted.sync (Mounted.refusing ⟨v₀, d'⟩ [0]) =
      .error (.failure (.device (.writeRefused 0))) m := ⟨_, rfl⟩
  obtain ⟨hkept, -⟩ := refused_sync_loses_nothing ⟨4, 4⟩ ⟨.replicate 16 0⟩ 0 (MemoryDisk.blank 8) d'
    v₀ ⟨v₀, d'⟩ trivial hformat .refl
  obtain ⟨hspace, htable, -⟩ := hkept [0] _ m hrefused
  obtain ⟨-, m', hsync, hmount⟩ := refused_sync_loses_nothing ⟨4, 4⟩ ⟨.replicate 16 0⟩ 0
    (MemoryDisk.blank 8) d' v₀ m.recovered trivial hformat
    (.single (.refusedSync (.inr ⟨_, hrefused⟩)))
  have hget : m.volume.table.get? 1 = some root := by
    rw [htable]
    exact (Volume.live?_eq_some.1 hroot).2
  obtain ⟨v, hmount, hrestored⟩ := hmount ⟨root, hget, hdirectory⟩
  exact ⟨v₀, v, d', m, m', hformat, hrefused, hspace, hsync, hmount, hrestored⟩

end ExtentVolume
