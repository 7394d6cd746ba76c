import ExtentVolume.Proofs.Format
import ExtentVolume.Proofs.Requests

namespace ExtentVolume.Volume

structure Sane (v : Volume) : Prop where
  sized : v.Sized
  inodePadding : v.space.inodes.PaddingClear
  blockPadding : v.space.blocks.PaddingClear
  clean : ∃ r, Consistency.check v = .ok r ∧ r.isClean = true

theorem sane_iff_whole {v : Volume} : v.Sane ↔ v.Whole := by
  constructor
  · intro h
    exact ⟨h.sized, (clean_iff_consistent h.sized).1 h.clean, h.inodePadding, h.blockPadding⟩
  · intro h
    exact ⟨h.sized, h.inodePadding, h.blockPadding, (clean_iff_consistent h.sized).2 h.consistent⟩

variable {D : Type} [BlockDevice D]

/-- A new volume is clean, every call keeps a volume clean, and in every run the counters are exact
and each block that is marked as used belongs to exactly one inode. -/
theorem clean_along_runs (g : Geometry) (id : VolumeId) (now : Int64) (d d' : D) (v₀ v v' : Volume)
    (r : Request) :
    (format g id now d = .ok v₀ d' → v₀.Sane) ∧
      (v.Sane → r.Returns v v' → v'.Sane) ∧
      (format g id now d = .ok v₀ d' → Request.Run v₀ v' → v'.Sane ∧ v'.Consistent) := by
  refine ⟨fun hformat => ?_, fun hsane hr => ?_, fun hformat hrun => ?_⟩
  · exact sane_iff_whole.2 (formatted_of_format hformat).sound.whole
  · exact sane_iff_whole.2 (Request.whole (sane_iff_whole.1 hsane) hr)
  · have hsound := hrun.sound (formatted_of_format hformat).sound
    exact ⟨sane_iff_whole.2 hsound.whole, hsound.whole.consistent⟩

theorem clean_after_createInode : ∃ (v₀ v : Volume) (d' : MemoryDisk),
    format ⟨4, 4⟩ ⟨.replicate 16 0⟩ 0 (MemoryDisk.blank 8) = .ok v₀ d' ∧ v₀.Sane ∧
      (Request.createInode default .defaultDirectory 0).Returns v₀ v ∧ v.Sane ∧ v.Consistent := by
  obtain ⟨v₀, d', hformat⟩ := format_memoryDisk
  have hwhole := (formatted_of_format hformat).sound.whole
  obtain ⟨v, hr⟩ := (createInode_ensures hwhole default .defaultDirectory 0).returns
  obtain ⟨hnew, hkept, hrun⟩ := clean_along_runs ⟨4, 4⟩ ⟨.replicate 16 0⟩ 0 (MemoryDisk.blank 8) d' v₀
    v₀ v (.createInode default .defaultDirectory 0)
  exact ⟨v₀, v, d', hformat, hnew hformat, hr, hkept (hnew hformat) hr,
    (hrun hformat (.single ⟨.createInode default .defaultDirectory 0, hr⟩)).2⟩

end ExtentVolume.Volume
