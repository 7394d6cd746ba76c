import ExtentVolume.Proofs.EntryName
import ExtentVolume.Proofs.RegionLayout

namespace ExtentVolume

open BlockDevice Codec

namespace Codec

variable (α : Type) [Stored α]

structure KeptInSlots : Prop where
  write (a : α) (slot : List UInt8) (h : Stored.width α ≤ slot.length) :
    ∃ bytes, encodeInto slot.length a = .ok bytes ∧ bytes.length = slot.length ∧
      decode bytes = .ok a ∧
      bytes.drop (Stored.width α) = List.replicate (slot.length - Stored.width α) 0
  rewrite (slot : List UInt8) (h : Stored.width α ≤ slot.length) :
    ∃ a : α, decode slot = .ok a ∧ encodeInto slot.length a =
      .ok (slot.take (Stored.width α) ++ List.replicate (slot.length - Stored.width α) 0)
  short (a : α) (slot : List UInt8) (h : slot.length < Stored.width α) :
    (decode slot : Except CodecError α).mapError (VolumeError.corrupted ∘ .encoding) =
        .error (.corrupted (.encoding .endOfInput)) ∧
      (encodeInto slot.length a).mapError (VolumeError.corrupted ∘ .encoding) =
        .error (.corrupted (.encoding .slotFull))

variable {α} [LawfulStored α]

theorem decode_of_short {bytes : List UInt8} (h : bytes.length < Stored.width α) :
    (decode bytes : Except CodecError α) = .error .endOfInput := by
  simp only [decode, StateT.run, decode_short bytes h, Functor.map, Except.map]

theorem encodeInto_ok {size : Nat} (h : Stored.width α ≤ size) (a : α) :
    encodeInto size a = .ok (encode a ++ List.replicate (size - Stored.width α) 0) := by
  rw [encodeInto, if_pos h, slotBytes_eq h]

theorem keptInSlots : KeptInSlots α where
  write a slot h := by
    refine ⟨_, encodeInto_ok h a, ?_, decode_encode_append a _, ?_⟩
    · rw [List.length_append, length_encode, List.length_replicate]
      omega
    · exact List.drop_left' (length_encode a)
  rewrite slot h := by
    obtain ⟨a, ha, hencode⟩ := decode_ok (α := α) h
    exact ⟨a, ha, by rw [encodeInto_ok h, hencode]⟩
  short a slot h := by
    rw [decode_of_short h, encodeInto, if_neg (Nat.not_le.2 h)]
    exact ⟨rfl, rfl⟩

end Codec

namespace SuperBlock

variable {D : Type} [BlockDevice D] {d : D} {s : SuperBlock}

theorem encode_of_load {b : Block} (hread : readBlock d 0 = .ok b) (hload : load d = .ok s) :
    encode s = b.toList.take (Stored.width SuperBlock) := by
  have hwidth : Stored.width SuperBlock ≤ b.toList.length := by
    rw [Vector.length_toList]
    decide
  have hfetch : fetch d 0 0 = .ok b := by
    have hnumber : blockNumber 0 0 = .ok 0 := blockNumber_ok (by decide)
    simp only [fetch, hnumber, hread, liftM, monadLift, MonadLift.monadLift, bind, Except.bind, pure,
      Except.pure]
  obtain ⟨s', hdecode, hencode⟩ := decode_ok (α := SuperBlock) hwidth
  rw [load, hfetch] at hload
  simp only [Fallible.restate, bind, Except.bind, hdecode] at hload
  split at hload
  · cases hload
  · obtain rfl := Except.ok.inj hload
    exact hencode

theorem toList_ofBytes_encode {b : Block} (hread : readBlock d 0 = .ok b) (hload : load d = .ok s) :
    (Block.ofBytes (encode s)).toList = b.toList.take (Stored.width SuperBlock) ++
      List.replicate (ExtentVolume.blockSize - Stored.width SuperBlock) 0 := by
  have hwidth : Stored.width SuperBlock ≤ ExtentVolume.blockSize := by decide
  rw [Block.toList_ofBytes (by rw [length_encode]; exact hwidth), length_encode,
    encode_of_load hread hload]

theorem load_sync [ReliableDevice D] (hvalid : FaithfulDevice.Valid d)
    (hs : s.corruption? (BlockDevice.blockCount d) = none) :
    ∃ d', s.sync d = .ok () d' ∧ load d' = .ok s := by
  have hfits := fits_of_corruption? hs
  have hpos : 0 < BlockDevice.blockCount d := by
    obtain ⟨htable, hdata, hend⟩ := hfits.places
    omega
  have hfirst : (0 : UInt64).toNat + 0 < 1 := Nat.one_pos
  have hens := store_ensures (tracks_contains (BlockDevice.blockCount d)) ⟨hvalid, rfl, rfl⟩
    Nat.one_le_two_pow hfirst (.ofBytes (encode s))
  have hrefused : ¬Refuses (Contains (BlockDevice.blockCount d) : D → _ → Prop) 1 :=
    not_refuses hpos
  obtain ⟨⟨⟩, d', hsync, hcontains⟩ := hens.exists_ok (fun _ _ h => hrefused h.2) fun h => h
  have hshows := hcontains.shows (fun n hn => ReliableDevice.read_ok hcontains.1 hn) hpos
    Nat.one_le_two_pow
  refine ⟨d', hsync, load_ok (hcontains.2.1 ▸ hfits) hshows ?_ Nat.one_pos⟩
  rintro (_ | i) b hb
  · obtain rfl := Option.some.inj hb
    exact Function.update_self _ _ _
  · cases hb

end SuperBlock

theorem Entry.decode_ofName {name : String} (h : checkName name = .ok ()) (n : UInt32) :
    ∃ e, ofName name n = .ok e ∧ (encode e).length = slotSize ∧
      ∃ e' : Entry, decode (encode e) = .ok e' ∧ e'.name = name ∧ e'.inode = n := by
  have hdecode := decode_encode_append (⟨fieldOf name, n⟩ : Entry) []
  rw [List.append_nil] at hdecode
  refine ⟨⟨fieldOf name, n⟩, ?_, length_encode _, _, hdecode, name_fieldOf h, rfl⟩
  rw [ofName, h]
  rfl

/-- Inode records are kept in slots, of which they take 88 bytes. A superblock that a device is
large enough for comes back from it, and a first block that is accepted is written again as it was,
up to the bytes behind the superblock. An entry is read with the name and the number that it was
made for. -/
theorem records_are_read_back {D : Type} [BlockDevice D] [ReliableDevice D] :
    (Stored.width Inode = 88 ∧ KeptInSlots Inode) ∧
    (∀ (d : D) (s : SuperBlock), FaithfulDevice.Valid d → s.corruption? (blockCount d) = none →
      ∃ d', s.sync d = .ok () d' ∧ SuperBlock.load d' = .ok s) ∧
    (∀ (d : D) (b : Block) (s : SuperBlock), readBlock d 0 = .ok b → SuperBlock.load d = .ok s →
      (Block.ofBytes (encode s)).toList =
        b.toList.take 88 ++ List.replicate (blockSize - 88) 0) ∧
    ∀ (name : String) (n : UInt32), Entry.checkName name = .ok () →
      ∃ e, Entry.ofName name n = .ok e ∧ (encode e).length = Entry.slotSize ∧
        ∃ e' : Entry, decode (encode e) = .ok e' ∧ e'.name = name ∧ e'.inode = n :=
  ⟨⟨rfl, keptInSlots⟩, fun _ _ hvalid hs => SuperBlock.load_sync hvalid hs,
    fun _ _ _ hread hload => SuperBlock.toList_ofBytes_encode hread hload,
    fun _ n hname => Entry.decode_ofName hname n⟩

/-- A new superblock in memory, and the longest name. -/
theorem new_superblock_is_read_back :
    (∃ d' : MemoryDisk, (SuperBlock.ofGeometry ⟨4, 4⟩ ⟨.replicate 16 0⟩ 0).sync
        (MemoryDisk.blank 8) = .ok () d' ∧
      SuperBlock.load d' = .ok (SuperBlock.ofGeometry ⟨4, 4⟩ ⟨.replicate 16 0⟩ 0)) ∧
    ∃ e, Entry.ofName "abcdefghijklmnopqrstuvwxyz0" 7 = .ok e ∧
      ∃ e' : Entry, decode (encode e) = .ok e' ∧ e'.name = "abcdefghijklmnopqrstuvwxyz0" ∧
        e'.inode = 7 := by
  obtain ⟨-, hsuper, -, hentry⟩ := records_are_read_back (D := MemoryDisk)
  have hcount : blockCount (MemoryDisk.blank 8) = 8 := Array.size_replicate
  have hchecked : (SuperBlock.ofGeometry ⟨4, 4⟩ ⟨.replicate 16 0⟩ 0).corruption? 8 = none := by
    decide
  obtain ⟨e, he, -, hread⟩ := hentry "abcdefghijklmnopqrstuvwxyz0" 7 (by decide +kernel)
  exact ⟨hsuper _ _ trivial (hcount ▸ hchecked), e, he, hread⟩

end ExtentVolume
