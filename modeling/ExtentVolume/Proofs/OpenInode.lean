import Mathlib.Logic.Relation
import ExtentVolume.Proofs.BlockCache
import ExtentVolume.Proofs.Ownership

namespace ExtentVolume

/-- The byte at an offset in the blocks of a file; behind the last block it is zero. -/
def byteIn (data : BlockCache) (extents : List Extent) (offset : Nat) : UInt8 :=
  ((addressAt extents offset).map data.byteAt).getD 0

theorem byteIn_of_some {data : BlockCache} {extents : List Extent} {offset address : Nat}
    (h : addressAt extents offset = some address) :
    byteIn data extents offset = data.byteAt address := by
  rw [byteIn, h, Option.map_some, Option.getD_some]

theorem byteIn_of_none {data : BlockCache} {extents : List Extent} {offset : Nat}
    (h : addressAt extents offset = none) : byteIn data extents offset = 0 := by
  rw [byteIn, h, Option.map_none, Option.getD_none]

theorem byteIn_congr {data data' : BlockCache} {extents : List Extent}
    (h : ∀ b ∈ blockNumbers extents, data'.block? b = data.block? b) (offset : Nat) :
    byteIn data' extents offset = byteIn data extents offset := by
  cases ha : addressAt extents offset with
  | none => rw [byteIn_of_none ha, byteIn_of_none ha]
  | some address =>
    rw [byteIn_of_some ha, byteIn_of_some ha]
    exact BlockCache.byteAt_congr (h _ (addressAt_mem ha))

namespace OpenInode

structure Owns (foreign : Nat → Prop) (w : OpenInode) : Prop where
  blocks : w.node.Owns foreign w.blocks
  size : w.data.cells.size = w.blocks.total.toNat

inductive Step : OpenInode → OpenInode → Prop where
  | grow {w : OpenInode} {count : UInt32} {e : Extent} {node : Inode} {blocks : Bitmap}
      (h : Inode.allocateExtent count (w.node, w.blocks) = .ok e (node, blocks)) :
      Step w ⟨node, blocks,
        ⟨BlockCache.zeroBlocks w.data.cells e.start.toNat e.count.toNat, w.data.start⟩⟩
  | put {w : OpenInode} {offset address : Nat} {bytes : List UInt8} (hpos : 0 < bytes.length)
      (h : ∀ i < bytes.length,
        addressAt w.node.extents.inUse (offset + i) = some (address + i)) :
      Step w { w with
        data := ⟨BlockCache.setBytes w.data.cells address bytes, w.data.start⟩
        node := { w.node with size := .ofNat (max w.node.size.toNat (offset + bytes.length)) } }
  | wipe {w : OpenInode} {offset address count : Nat} (hpos : 0 < count)
      (h : ∀ i < count, addressAt w.node.extents.inUse (offset + i) = some (address + i)) :
      Step w { w with data :=
        ⟨BlockCache.setBytes w.data.cells address (List.replicate count 0), w.data.start⟩ }
  | touch {w : OpenInode} {now : Int64} : Step w (w.touch now)

abbrev Steps := Relation.ReflTransGen Step

/-- What is the same, and what is known of the rest, after steps from `w` to `w'`. -/
structure Keeps (foreign : Nat → Prop) (w w' : OpenInode) : Prop where
  owns : w'.Owns foreign
  identity : w'.node.number = w.node.number ∧ w'.node.mode = w.node.mode
  total : w'.blocks.total = w.blocks.total
  bitmapStart : w'.blocks.start = w.blocks.start
  dataStart : w'.data.start = w.data.start
  foreign : ∀ b, foreign b → w'.data.cells[b]? = w.data.cells[b]?
  changed : ∀ b, w'.data.cells[b]? = w.data.cells[b]? ∨ BlockCache.Dirty w'.data.cells b
  gained : ∀ b ∈ w'.node.extents.blockNumbers,
    b ∈ w.node.extents.blockNumbers ∨ BlockCache.Dirty w'.data.cells b

/-- The slots are packed, the content is mapped, and what is mapped behind its end is zero. -/
structure Sound (w : OpenInode) : Prop where
  packed : w.node.extents.Packed
  mapped : w.node.size.toNat ≤ w.node.extents.blockNumbers.length * blockSize
  tail : ∀ i, w.node.size.toNat ≤ i → byteIn w.data w.node.extents.inUse i = 0

variable {foreign : Nat → Prop} {w w' w'' : OpenInode} {b : Nat}

theorem Owns.size_lt (h : w.Owns foreign) : w.data.cells.size < 2 ^ 32 := by
  rw [h.size]
  exact w.blocks.total.toNat_lt

theorem Owns.capacity_lt (h : w.Owns foreign) :
    w.node.extents.blockNumbers.length * blockSize < 2 ^ 64 := by
  have hle := Inode.length_le_of_nodup h.blocks.nodup (fun b => h.blocks.lt_total)
  have hlt := w.blocks.total.toNat_lt
  simp only [blockSize]
  omega

theorem Owns.address_lt (h : w.Owns foreign) {i address : Nat}
    (ha : addressAt w.node.extents.inUse i = some address) : address < w.data.size := by
  have hlt := h.blocks.lt_total (addressAt_mem ha)
  rw [← h.size, Nat.div_lt_iff_lt_mul (by decide)] at hlt
  exact hlt

theorem Owns.range_le (h : w.Owns foreign) {offset address count : Nat} (hpos : 0 < count)
    (ha : ∀ i < count, addressAt w.node.extents.inUse (offset + i) = some (address + i)) :
    address + count ≤ w.data.size := by
  have := h.address_lt (ha (count - 1) (by omega))
  omega

/-- Bytes written to mapped addresses do not lie in a foreign block. -/
theorem Owns.setBytes_foreign (h : w.Owns foreign) {offset address : Nat} {bytes : List UInt8}
    (ha : ∀ i < bytes.length, addressAt w.node.extents.inUse (offset + i) = some (address + i))
    (hb : foreign b) :
    (BlockCache.setBytes w.data.cells address bytes)[b]? = w.data.cells[b]? := by
  apply BlockCache.getElem?_setBytes
  rintro i hi rfl
  exact h.blocks.apart _ (addressAt_mem (ha i hi)) hb

theorem Owns.keeps_refl (h : w.Owns foreign) : Keeps foreign w w :=
  ⟨h, ⟨rfl, rfl⟩, rfl, rfl, rfl, fun _ _ => rfl, fun _ => .inl rfl, fun _ hb => .inl hb⟩

theorem Keeps.trans (h : Keeps foreign w w') (h' : Keeps foreign w' w'') :
    Keeps foreign w w'' := by
  refine ⟨h'.owns, ⟨h'.identity.1.trans h.identity.1, h'.identity.2.trans h.identity.2⟩,
    h'.total.trans h.total,
    h'.bitmapStart.trans h.bitmapStart, h'.dataStart.trans h.dataStart,
    fun b hb => (h'.foreign b hb).trans (h.foreign b hb), fun b => ?_, fun b hb => ?_⟩
  · obtain hb | hb := h'.changed b
    · obtain hb' | ⟨c, hc⟩ := h.changed b
      · exact .inl (hb.trans hb')
      · exact .inr ⟨c, hb.trans hc⟩
    · exact .inr hb
  · obtain hb | hb := h'.gained b hb
    · obtain hb | ⟨c, hc⟩ := h.gained b hb
      · exact .inl hb
      · obtain hb' | hb' := h'.changed b
        · exact .inr ⟨c, hb'.trans hc⟩
        · exact .inr hb'
    · exact .inr hb

theorem Owns.zeroBlocks_used (h : w.Owns foreign) {count : UInt32} {e : Extent} {node : Inode}
    {blocks : Bitmap} (ha : Inode.allocateExtent count (w.node, w.blocks) = .ok e (node, blocks))
    (hb : w.blocks.used b = true) :
    (BlockCache.zeroBlocks w.data.cells e.start.toNat e.count.toNat)[b]? = w.data.cells[b]? := by
  rw [BlockCache.getElem?_zeroBlocks, if_neg]
  intro hin
  rw [(h.blocks.grown ha).1.clear b hin.1 hin.2] at hb
  cases hb

theorem Step.keeps (hstep : Step w w') (h : w.Owns foreign) : Keeps foreign w w' := by
  cases hstep with
  | @grow count e node blocks ha =>
    obtain ⟨hgrown, howns⟩ := h.blocks.grown ha
    have hrun : ∀ b, e.start.toNat ≤ b ∧ b < e.start.toNat + e.count.toNat →
        b < w.data.cells.size := by
      intro b hb
      have := hgrown.inside
      rw [h.size]
      simp only [Extent.endBlock] at this
      omega
    refine ⟨⟨howns, ?_⟩, ?_, hgrown.marked.total, hgrown.marked.start, rfl, ?_, ?_, ?_⟩
    · rw [BlockCache.size_zeroBlocks, h.size, hgrown.marked.total]
    · rw [hgrown.record]
      exact ⟨rfl, rfl⟩
    · intro b hb
      exact h.zeroBlocks_used ha ((h.blocks.used_iff b).2 (.inr hb))
    · intro b
      by_cases hin : e.start.toNat ≤ b ∧ b < e.start.toNat + e.count.toNat
      · exact .inr ((BlockCache.dirty_zeroBlocks (hrun b)).2 (.inr hin))
      · left
        rw [BlockCache.getElem?_zeroBlocks, if_neg hin]
    · intro b hb
      rw [(Inode.Pushed.blockNumbers_perm hgrown.pushed).mem_iff, List.mem_append,
        List.mem_range'_1] at hb
      obtain hin | hb := hb
      · exact .inr ((BlockCache.dirty_zeroBlocks (hrun b)).2 (.inr hin))
      · exact .inl hb
  | put hpos ha =>
    refine ⟨⟨⟨h.blocks.exact, h.blocks.reserved, h.blocks.counted, h.blocks.held, h.blocks.nodup,
      h.blocks.apart, h.blocks.used_iff⟩, ?_⟩, ⟨rfl, rfl⟩, rfl, rfl, rfl,
      fun b hb => h.setBytes_foreign ha hb, BlockCache.setBytes_or_dirty _ _ _,
      fun b hb => .inl hb⟩
    rw [BlockCache.size_setBytes, h.size]
  | wipe hpos ha =>
    refine ⟨⟨h.blocks, ?_⟩, ⟨rfl, rfl⟩, rfl, rfl, rfl,
      fun b hb => h.setBytes_foreign (by simpa using ha) hb, BlockCache.setBytes_or_dirty _ _ _,
      fun b hb => .inl hb⟩
    rw [BlockCache.size_setBytes, h.size]
  | touch =>
    exact ⟨⟨⟨h.blocks.exact, h.blocks.reserved, h.blocks.counted, h.blocks.held, h.blocks.nodup,
      h.blocks.apart, h.blocks.used_iff⟩, h.size⟩, ⟨rfl, rfl⟩, rfl, rfl, rfl,
      fun _ _ => rfl, fun _ => .inl rfl, fun b hb => .inl hb⟩

theorem Steps.keeps (hsteps : Steps w w') (h : w.Owns foreign) : Keeps foreign w w' := by
  induction hsteps with
  | refl => exact h.keeps_refl
  | tail _ hstep ih => exact ih.trans (hstep.keeps ih.owns)

/-- A new extent is behind the end and reads as zeros, as what is not mapped does. -/
theorem Owns.byteIn_grow (h : w.Owns foreign) (hw : w.node.extents.Packed) {count : UInt32}
    {e : Extent} {node : Inode} {blocks : Bitmap}
    (ha : Inode.allocateExtent count (w.node, w.blocks) = .ok e (node, blocks)) (i : Nat) :
    byteIn ⟨BlockCache.zeroBlocks w.data.cells e.start.toNat e.count.toNat, w.data.start⟩
        node.extents.inUse i =
      byteIn w.data w.node.extents.inUse i := by
  obtain ⟨hgrown, -⟩ := h.blocks.grown ha
  obtain ⟨hinUse, -⟩ := hgrown.pushed.packed hw
  rw [hinUse]
  by_cases hold : i < (blockNumbers w.node.extents.inUse).length * blockSize
  · obtain ⟨address, hi⟩ := exists_addressAt hold
    rw [byteIn_of_some hi, byteIn_of_some (addressAt_append hi [e])]
    apply BlockCache.byteAt_congr
    apply BlockCache.block?_congr
    exact h.zeroBlocks_used ha ((h.blocks.used_iff _).2 (.inl (addressAt_mem hi)))
  · rw [byteIn_of_none (addressAt_eq_none (Nat.le_of_not_lt hold)), byteIn,
      addressAt_append_right (Nat.le_of_not_lt hold)]
    cases hi : addressAt [e] (i - (blockNumbers w.node.extents.inUse).length * blockSize) with
    | none => rfl
    | some address =>
      have hmem := addressAt_mem hi
      rw [blockNumbers_cons, blockNumbers_nil, List.append_nil, List.mem_range'_1] at hmem
      exact BlockCache.byteAt_zeroBlocks _ _ hmem

theorem Owns.byteIn_setBytes (h : w.Owns foreign) {offset address : Nat} {bytes : List UInt8}
    (hpos : 0 < bytes.length)
    (ha : ∀ i < bytes.length, addressAt w.node.extents.inUse (offset + i) = some (address + i))
    (i : Nat) :
    byteIn ⟨BlockCache.setBytes w.data.cells address bytes, w.data.start⟩
        w.node.extents.inUse i =
      if offset ≤ i ∧ i < offset + bytes.length then bytes[i - offset]?.getD 0
      else byteIn w.data w.node.extents.inUse i := by
  have hplace : ∀ j, j < bytes.length → ∀ x, addressAt w.node.extents.inUse i = some x →
      (i = offset + j ↔ x = address + j) := by
    intro j hj x hx
    constructor
    · rintro rfl
      exact Option.some.inj (hx.symm.trans (ha j hj))
    · rintro rfl
      exact addressAt_inj h.blocks.nodup hx (ha j hj)
  cases hi : addressAt w.node.extents.inUse i with
  | none =>
    rw [byteIn_of_none hi, byteIn_of_none hi, if_neg]
    intro hin
    have hmap := ha (i - offset) (by omega)
    rw [Nat.add_sub_cancel' hin.1, hi] at hmap
    cases hmap
  | some x =>
    rw [byteIn_of_some hi, byteIn_of_some hi, BlockCache.byteAt_setBytes _ (h.range_le hpos ha)]
    by_cases hin : offset ≤ i ∧ i < offset + bytes.length
    · have hx := (hplace (i - offset) (by omega) x hi).1 (by omega)
      have hsub : x - address = i - offset := by omega
      rw [if_pos hin, if_pos (by omega), hsub]
    · rw [if_neg hin, if_neg]
      intro hout
      have := (hplace (x - address) (by omega) x hi).2 (by omega)
      omega

theorem Step.sound (hstep : Step w w') (h : w.Owns foreign) (hw : w.Sound) : w'.Sound := by
  cases hstep with
  | @grow count e node blocks ha =>
    obtain ⟨hgrown, -⟩ := h.blocks.grown ha
    obtain ⟨hinUse, hpacked⟩ := hgrown.pushed.packed hw.packed
    have hsize : node.size = w.node.size := by rw [hgrown.record]
    refine ⟨hpacked, ?_, ?_⟩
    · simp only [hsize, ExtentMap.blockNumbers, hinUse, blockNumbers_append, List.length_append]
      exact Nat.le_trans hw.mapped (Nat.mul_le_mul_right _ (Nat.le_add_right _ _))
    · intro i hle
      simp only [hsize] at hle
      rw [h.byteIn_grow hw.packed ha]
      exact hw.tail i hle
  | @put offset address bytes hpos ha =>
    have hend : offset + bytes.length ≤ w.node.extents.blockNumbers.length * blockSize := by
      have := addressAt_lt (ha (bytes.length - 1) (by omega))
      simp only [ExtentMap.blockNumbers]
      omega
    have hsize : (UInt64.ofNat (max w.node.size.toNat (offset + bytes.length))).toNat =
        max w.node.size.toNat (offset + bytes.length) := by
      have hlt := h.capacity_lt
      have hmapped := hw.mapped
      apply UInt64.toNat_ofNat_of_lt'
      simp only [UInt64.size]
      omega
    refine ⟨hw.packed, ?_, ?_⟩
    · have := hw.mapped
      simp only [hsize]
      omega
    · intro i hle
      simp only [hsize] at hle
      rw [h.byteIn_setBytes hpos ha, if_neg (by omega)]
      exact hw.tail i (by omega)
  | @wipe offset address count hpos ha =>
    refine ⟨hw.packed, hw.mapped, ?_⟩
    intro i hle
    rw [h.byteIn_setBytes (by simpa using hpos) (by simpa using ha)]
    split
    · rw [List.getElem?_replicate]
      split <;> rfl
    · exact hw.tail i hle
  | touch => exact ⟨hw.packed, hw.mapped, hw.tail⟩

theorem Steps.sound (hsteps : Steps w w') (h : w.Owns foreign) (hw : w.Sound) : w'.Sound := by
  induction hsteps with
  | refl => exact hw
  | tail hsteps hstep ih => exact hstep.sound (Steps.keeps hsteps h).owns ih

theorem addExtent_ensures (h : w.Owns foreign) (count : UInt32) :
    Action.Ensures (addExtent count) w
      (fun e w' => ∃ node blocks,
        Inode.allocateExtent count (w.node, w.blocks) = .ok e (node, blocks) ∧
        w' = ⟨node, blocks,
          ⟨BlockCache.zeroBlocks w.data.cells e.start.toNat e.count.toNat, w.data.start⟩⟩)
      (fun e w' => w' = w ∧
        Inode.allocateExtent count (w.node, w.blocks) = .error (.failure e) (w.node, w.blocks))
      False := by
  simp only [addExtent, Action.ensures_bind, Action.ensures_within, Action.ensures_get,
    Action.ensures_lift]
  apply (h.blocks.allocateExtent count).run.mono
  · rintro e ⟨node, blocks⟩ ⟨ha, hgrown, -⟩
    have hinside : e.endBlock ≤ w.data.cells.size := by
      rw [h.size]
      exact hgrown.inside
    simp only [BlockCache.zeroExtent_ok h.size_lt hinside, Fallible.ensures_ok,
      Action.ensures_modify, Action.ensures_pure]
    exact ⟨node, blocks, ha, rfl⟩
  · rintro e _ ⟨ha, rfl, -⟩
    exact ⟨rfl, ha⟩
  · exact id

theorem addExtent_steps (h : w.Owns foreign) (count : UInt32) :
    Action.Ensures (addExtent count) w (fun _ => Step w) (fun _ w' => w' = w) False := by
  refine (addExtent_ensures h count).mono ?_ (fun _ _ h => h.1) id
  rintro e w' ⟨node, blocks, ha, rfl⟩
  exact .grow ha

theorem Step.links (hstep : Step w w') (h : w.Owns foreign) : w'.node.links = w.node.links := by
  cases hstep with
  | grow ha => rw [(h.blocks.grown ha).1.record]
  | put => rfl
  | wipe => rfl
  | touch => rfl

theorem Steps.links (hsteps : Steps w w') (h : w.Owns foreign) :
    w'.node.links = w.node.links := by
  induction hsteps with
  | refl => rfl
  | tail hsteps hstep ih => exact (hstep.links (Steps.keeps hsteps h).owns).trans ih

theorem Step.blocks (hstep : Step w w') (h : w.Owns foreign) :
    w.node.extents.blockNumbers ⊆ w'.node.extents.blockNumbers := by
  cases hstep with
  | grow ha =>
    intro b hb
    rw [(Inode.Pushed.blockNumbers_perm (h.blocks.grown ha).1.pushed).mem_iff]
    exact List.mem_append_right _ hb
  | put => exact List.Subset.refl _
  | wipe => exact List.Subset.refl _
  | touch => exact List.Subset.refl _

theorem Steps.blocks (hsteps : Steps w w') (h : w.Owns foreign) :
    w.node.extents.blockNumbers ⊆ w'.node.extents.blockNumbers := by
  induction hsteps with
  | refl => exact List.Subset.refl _
  | tail hsteps hstep ih => exact List.Subset.trans ih (hstep.blocks (Steps.keeps hsteps h).owns)

end OpenInode

end ExtentVolume
