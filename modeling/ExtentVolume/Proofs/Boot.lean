import ExtentVolume.Boot
import ExtentVolume.Proofs.Persistence

namespace ExtentVolume

open BlockDevice

def Image.WellFormed (image : Image) : Prop := image.blocks.size = blocksFor image.size

theorem Image.size_overlayAt (blocks : Array Block) (offset : Nat) (bytes : List UInt8) :
    (overlayAt blocks offset bytes).size = blocks.size := by
  induction bytes generalizing blocks offset with
  | nil => rfl
  | cons byte rest ih =>
    rw [overlayAt, ih]
    exact Array.size_modify

theorem Image.wellFormed_ofBytes (bytes : List UInt8) : (ofBytes bytes).WellFormed := by
  unfold ofBytes write
  split
  · rfl
  · have hempty : Image.WellFormed empty := rfl
    exact (size_overlayAt _ _ _).trans (resize_blocks hempty (Nat.le_max_left _ _)).1

theorem Image.size_le_writeBlock (image : Image) (n : Nat) (b : Block) :
    image.size ≤ (image.writeBlock n b).size := by
  simp only [writeBlock]
  split
  · rename_i hgrow
    rw [resize_size]
    exact Nat.le_of_lt hgrow
  · exact Nat.le_refl _

namespace ImageDisk

theorem unfailing {d : ImageDisk} (h : d.blockCount * blockSize ≤ d.image.size) : Unfailing d := by
  intro d' hwrites
  have hsize : d'.blockCount * blockSize ≤ d'.image.size := by
    induction hwrites with
    | refl => exact h
    | tail _ hwrite ih =>
      obtain ⟨n, b, hwrite⟩ := hwrite
      simp only [writeBlock] at hwrite
      split at hwrite
      · obtain rfl := Except.ok.inj hwrite
        exact Nat.le_trans ih (Image.size_le_writeBlock _ n b)
      · cases hwrite
  refine ⟨fun n hn => ⟨_, (if_pos hn).trans (if_pos ?_)⟩, fun n hn b => ⟨_, if_pos hn⟩⟩
  exact Nat.le_trans (Nat.mul_le_mul_right _ hn) hsize

theorem blockCount_le {d : ImageDisk} (h : Readable d) :
    d.blockCount ≤ d.image.size / blockSize := by
  cases hcount : d.blockCount with
  | zero => exact Nat.zero_le _
  | succ n =>
    have hn : n < d.blockCount := hcount ▸ Nat.lt_succ_self n
    obtain ⟨b, hb⟩ := h n hn
    simp only [readBlock, if_pos hn, Image.readBlock] at hb
    split at hb
    · rename_i hsize
      exact (Nat.le_div_iff_mul_le (by decide)).2 hsize
    · cases hb

theorem openImage_ok {image : Image} (h : image.WellFormed) {blocks : Nat}
    (hblocks : blocks * blockSize < 2 ^ 64) :
    ∃ disk messages, openImage image blocks = .ok (disk, messages) ∧
      Maintains disk.blockCount disk (fun n => image.blocks[n]?.getD .zero) ∧
      blocks ≤ disk.blockCount ∧ image.size / blockSize ≤ disk.blockCount := by
  have hpos : 0 < blockSize := by decide
  have hneeded : (UInt64.ofNat (blocks * blockSize)).toNat = blocks * blockSize :=
    UInt64.toNat_ofNat_of_lt' hblocks
  simp only [openImage, word64_ok hblocks, hneeded, bind, Except.bind]
  by_cases hsmall : image.size < blocks * blockSize
  · obtain ⟨hvalid, hheld⟩ := Image.resize_blocks h (Nat.le_of_lt hsmall)
    rw [if_pos hsmall]
    refine ⟨_, _, rfl, ⟨⟨hvalid, rfl, funext hheld⟩, unfailing (Nat.div_mul_le_self _ _)⟩, ?_, ?_⟩
    · exact Nat.le_of_eq (by rw [Image.resize_size, Nat.mul_div_cancel _ hpos])
    · rw [Image.resize_size]
      exact Nat.div_le_div_right (Nat.le_of_lt hsmall)
  · rw [if_neg hsmall]
    refine ⟨_, _, rfl, ⟨⟨h, rfl, rfl⟩, unfailing (Nat.div_mul_le_self _ _)⟩, ?_, Nat.le_refl _⟩
    exact (Nat.le_div_iff_mul_le hpos).2 (Nat.not_lt.1 hsmall)

end ImageDisk

theorem Boot.run_ok {image? : Option Image} (h : (image?.getD .empty).WellFormed) (g : Geometry)
    (forceFormat : Bool) (id : VolumeId) (now : Int64) :
    ∃ boot disk, Boot.run image? g forceFormat id now = .ok boot ∧
      Maintains disk.blockCount disk (fun n => (image?.getD .empty).blocks[n]?.getD .zero) ∧
      g.deviceBlocks ≤ disk.blockCount ∧
      (image?.getD .empty).size / blockSize ≤ disk.blockCount ∧
      boot.result = if image?.isNone || forceFormat then (formatDisk disk g id now).2
        else (mountDisk disk).2 := by
  obtain ⟨disk, messages, hopen, hmaintains, hroom, hsize⟩ :=
    ImageDisk.openImage_ok h g.deviceBytes_lt
  simp only [run, hopen, bind, Except.bind, pure, Except.pure]
  refine ⟨_, disk, rfl, hmaintains, hroom, hsize, ?_⟩
  dsimp only
  split <;> rfl

/-- A boot that formats succeeds for every geometry with a root and a block for it. -/
theorem Boot.run_formats {image? : Option Image} (himage : (image?.getD .empty).WellFormed)
    {g : Geometry} {forceFormat : Bool} (hformats : (image?.isNone || forceFormat) = true)
    (hinodes : 1 < g.inodes.toNat) (hblocks : 0 < g.blocks.toNat) (id : VolumeId) (now : Int64) :
    ∃ boot m, Boot.run image? g forceFormat id now = .ok boot ∧ boot.result = .ok m := by
  obtain ⟨boot, disk, hboot, hmaintains, hroom, -, hresult⟩ :=
    Boot.run_ok himage g forceFormat id now
  have hroom : Volume.HasRoom g (blockCount disk) := ⟨hinodes, hblocks, hroom⟩
  obtain ⟨v, d', hformat, -⟩ :=
    (Volume.format_ensures (tracks_maintains disk.blockCount) hmaintains g id now).exists_ok
      (fun _ _ hfailed => hfailed.elim (fun hnone => hnone.2.2 hroom)
        (maintains_not_refuses hroom.2.2)) fun h => h
  refine ⟨boot, ⟨v, d'⟩, hboot, ?_⟩
  rw [hresult, if_pos hformats, formatDisk, hformat]

end ExtentVolume
