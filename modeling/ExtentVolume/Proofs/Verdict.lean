import Mathlib.Data.List.FinRange
import ExtentVolume.Proofs.Format

namespace ExtentVolume

namespace Consistency

namespace Survey

variable {v : Volume}

/-- The step comes to an end in every survey with an owner for each block, and leaves such a one. -/
def Ends (v : Volume) (step : Survey → Checked Survey) : Prop :=
  ∀ s, s.owners.size = v.space.blocks.total.toNat →
    ∃ s', step s = .ok s' ∧ s'.owners.size = v.space.blocks.total.toNat

theorem owners_noteIf (s : Survey) (c : Prop) [Decidable c] (p : Problem) :
    (s.noteIf c p).owners = s.owners := by
  unfold Survey.noteIf
  split <;> rfl

theorem Ends.ok {f : Survey → Survey} (h : ∀ s, (f s).owners = s.owners) :
    Ends v (fun s => .ok (f s)) := by
  intro s hs
  exact ⟨f s, rfl, by rw [h, hs]⟩

theorem Ends.bind {f g : Survey → Checked Survey} (hf : Ends v f) (hg : Ends v g) :
    Ends v (fun s => f s >>= g) := by
  intro s hs
  obtain ⟨s', hs', hsize⟩ := hf s hs
  simp only [hs']
  exact hg s' hsize

theorem Ends.foldlM {α : Type} {step : Survey → α → Checked Survey} (l : List α)
    (h : ∀ a ∈ l, Ends v fun s => step s a) : Ends v fun s => l.foldlM step s := by
  induction l with
  | nil => exact .ok fun _ => rfl
  | cons a l ih =>
    exact (h a (by simp)).bind (ih fun a ha => h a (List.mem_cons_of_mem _ ha))

theorem Ends.own (inode : UInt32) {block : UInt32}
    (hblock : block.toNat < v.space.blocks.total.toNat) : Ends v (own inode block) := by
  intro s hs
  have howner := Array.getElem?_eq_getElem (hs.symm ▸ hblock : block.toNat < s.owners.size)
  unfold Survey.own
  rw [howner]
  split
  · rename_i hnone
    cases hnone
  · exact ⟨_, rfl, by rw [Array.size_setIfInBounds, hs]⟩
  · exact ⟨_, rfl, hs⟩

theorem ends_claim (inode : UInt32) {block : UInt32}
    (hblock : block.toNat < v.space.blocks.total.toNat) :
    Ends v fun s => claim v inode s block := by
  simp only [claim_eq inode hblock]
  intro s hs
  exact Ends.own inode hblock _ (by rw [owners_noteIf, hs])

theorem ends_claimRun (inode : UInt32) (start count : Nat)
    (hend : start + count ≤ v.space.blocks.total.toNat) :
    Ends v fun s => claimRun v inode s start count := by
  induction count with
  | zero => exact .ok fun _ => rfl
  | succ count ih =>
    have hnat : (UInt32.ofNat (start + count)).toNat = start + count :=
      Bitmap.toNat_ofNat_of_le v.space.blocks.total (by omega)
    exact (ih (by omega)).bind (ends_claim inode (by omega))

theorem ends_surveyExtent (inode : UInt32) (e : Extent) :
    Ends v fun s => surveyExtent v inode s e := by
  unfold surveyExtent
  by_cases hout : v.space.blocks.total.toNat < e.endBlock
  · simp only [hout, if_true]
    exact .ok fun _ => rfl
  · simp only [hout, if_false]
    exact ends_claimRun inode _ _ (Nat.le_of_not_lt hout)

theorem ends_surveyRecord (inode : UInt32) (node : Inode) :
    Ends v fun s => surveyRecord v s inode node := by
  intro s hs
  exact Ends.foldlM node.extents.inUse (fun e _ => ends_surveyExtent inode e) _
    (by simp only [owners_noteIf, hs])

theorem ends_surveyInode {n : UInt32} (hn : n ∈ v.inodeNumbers) :
    Ends v fun s => surveyInode v s n.toNat := by
  simp only [surveyInode_eq hn]
  cases v.space.inodes.used n.toNat with
  | false => exact .ok fun _ => rfl
  | true =>
    cases v.table.get? n with
    | none => exact .ok fun _ => rfl
    | some node => exact ends_surveyRecord n node

theorem ends_surveyCounter {b : Bitmap} (hb : b.free.toNat + b.popcount < 2 ^ 32)
    (p : UInt32 → Problem) : Ends v (surveyCounter b p) := by
  have hused : b.usedCount = .ok (.ofNat b.popcount) := word32_ok (by omega)
  have hnat : (UInt32.ofNat b.popcount).toNat = b.popcount :=
    UInt32.toNat_ofNat_of_lt' (by simp only [UInt32.size]; omega)
  have hsum : word32 (b.free.toNat + b.popcount) = .ok (.ofNat (b.free.toNat + b.popcount)) :=
    word32_ok hb
  unfold surveyCounter
  simp only [hused, hnat, hsum, bind, Except.bind]
  exact .ok fun s => owners_noteIf s _ _

theorem ends_surveyBlock {b : Nat} (hb : b < v.space.blocks.total.toNat) :
    Ends v fun s => surveyBlock v s b := by
  simp only [surveyBlock_eq _ hb]
  exact .ok fun s => owners_noteIf s _ _

section Counts

variable {f g : Survey → Checked Survey} {j k : Nat}

def unowned (s : Survey) : Nat := s.owners.toList.count 0

/-- The step counts at most `k` inodes, and a block as owned only if it finds it an owner. -/
def Counts (k : Nat) (step : Survey → Checked Survey) : Prop :=
  ∀ s s', step s = .ok s' →
    s'.inodes ≤ s.inodes + k ∧ s'.owned + s'.unowned ≤ s.owned + s.unowned

theorem Counts.ok {f : Survey → Survey}
    (h : ∀ s, (f s).inodes ≤ s.inodes + k ∧ (f s).owned = s.owned ∧ (f s).owners = s.owners) :
    Counts k fun s => .ok (f s) := by
  intro s s' hs
  obtain rfl := Except.ok.inj hs
  obtain ⟨hinodes, howned, howners⟩ := h s
  rw [unowned, howners, howned]
  exact ⟨hinodes, Nat.le_refl _⟩

theorem Counts.bind (hf : Counts j f) (hg : Counts k g) : Counts (j + k) fun s => f s >>= g := by
  intro s s' hs
  dsimp only at hs
  cases hfs : f s with
  | error t =>
    rw [hfs] at hs
    cases hs
  | ok s₁ =>
    rw [hfs] at hs
    obtain ⟨hinodes₁, howned₁⟩ := hf s s₁ hfs
    obtain ⟨hinodes, howned⟩ := hg s₁ s' hs
    omega

theorem Counts.foldlM {α : Type} {step : Survey → α → Checked Survey} (l : List α)
    (h : ∀ a ∈ l, Counts k fun s => step s a) : Counts (l.length * k) fun s => l.foldlM step s := by
  induction l with
  | nil => exact .ok fun s => ⟨Nat.le_add_right _ _, rfl, rfl⟩
  | cons a l ih =>
    have hrest := ih fun b hb => h b (List.mem_cons_of_mem _ hb)
    rw [List.length_cons, Nat.succ_mul, Nat.add_comm]
    exact (h a List.mem_cons_self).bind hrest

theorem noteIf_same (s : Survey) (c : Prop) [Decidable c] (p : Problem) :
    (s.noteIf c p).inodes = s.inodes ∧ (s.noteIf c p).owned = s.owned ∧
      (s.noteIf c p).owners = s.owners := by
  unfold noteIf
  split <;> exact ⟨rfl, rfl, rfl⟩

theorem counts_noteIf (c : Survey → Prop) [∀ s, Decidable (c s)] (p : Problem) :
    Counts 0 fun s => .ok (s.noteIf (c s) p) :=
  .ok fun s => ⟨Nat.le_of_eq (noteIf_same s (c s) p).1, (noteIf_same s (c s) p).2⟩

theorem counts_own {inode block : UInt32} (hinode : inode ≠ 0) : Counts 0 (own inode block) := by
  intro s s' hs
  unfold own at hs
  split at hs
  · cases hs
  · rename_i hfree
    obtain rfl := Except.ok.inj hs
    obtain ⟨hlt, hzero⟩ := Array.getElem?_eq_some_iff.1 hfree
    have hget : s.owners.toList[block.toNat] = 0 := hzero
    have hset : (s.owners.setIfInBounds block.toNat inode).toList.count 0 + 1 =
        s.owners.toList.count 0 := by
      have hpos : 0 < s.owners.toList.count 0 := by
        rw [List.count_pos_iff, ← hget]
        exact List.getElem_mem _
      rw [Array.toList_setIfInBounds, List.count_set hlt, hget]
      simp only [beq_self_eq_true, if_true, beq_iff_eq, hinode, if_false]
      omega
    refine ⟨Nat.le_refl _, ?_⟩
    simp only [unowned]
    omega
  · obtain rfl := Except.ok.inj hs
    exact ⟨Nat.le_refl _, Nat.le_refl _⟩

theorem counts_claim {inode block : UInt32} (hinode : inode ≠ 0)
    (hblock : block.toNat < v.space.blocks.total.toNat) :
    Counts 0 fun s => claim v inode s block := by
  simp only [claim_eq inode hblock]
  exact (counts_noteIf (fun _ => _) (.unmarked inode block)).bind (counts_own hinode)

theorem counts_claimRun {inode : UInt32} (hinode : inode ≠ 0) (start count : Nat)
    (hend : start + count ≤ v.space.blocks.total.toNat) :
    Counts 0 fun s => claimRun v inode s start count := by
  induction count with
  | zero => exact .ok fun s => ⟨Nat.le_refl _, rfl, rfl⟩
  | succ count ih =>
    have hnat : (UInt32.ofNat (start + count)).toNat = start + count :=
      Bitmap.toNat_ofNat_of_le v.space.blocks.total (by omega)
    exact (ih (by omega)).bind (counts_claim hinode (by omega))

theorem counts_surveyExtent {inode : UInt32} (hinode : inode ≠ 0) (e : Extent) :
    Counts 0 fun s => surveyExtent v inode s e := by
  unfold surveyExtent
  by_cases hout : v.space.blocks.total.toNat < e.endBlock
  · simp only [hout, if_true]
    exact .ok fun s => ⟨Nat.le_refl _, rfl, rfl⟩
  · simp only [hout, if_false]
    exact counts_claimRun hinode _ _ (Nat.le_of_not_lt hout)

theorem counts_surveyRecord {inode : UInt32} (hinode : inode ≠ 0) (node : Inode) :
    Counts 1 fun s => surveyRecord v s inode node := by
  have hextents := Counts.foldlM node.extents.inUse
    fun e _ => counts_surveyExtent (v := v) hinode e
  have hnumber : Counts 1 fun s => .ok { s with inodes := s.inodes + 1 } :=
    .ok fun s => ⟨Nat.le_refl _, rfl, rfl⟩
  rw [Nat.mul_zero] at hextents
  exact hnumber.bind ((counts_noteIf (fun _ => _) _).bind
    ((counts_noteIf (fun _ => _) _).bind hextents))

theorem counts_surveyInode {n : UInt32} (hn : n ∈ v.inodeNumbers) :
    Counts 1 fun s => surveyInode v s n.toNat := by
  have hne : n ≠ 0 := UInt32.pos_iff_ne_zero.1 (Volume.mem_inodeNumbers.1 hn).1
  have hnone : Counts 1 fun s : Survey => .ok s := .ok fun s => ⟨Nat.le_add_right _ _, rfl, rfl⟩
  simp only [surveyInode_eq hn]
  cases v.space.inodes.used n.toNat with
  | false => exact hnone
  | true =>
    cases v.table.get? n with
    | none => exact .ok fun s => ⟨Nat.le_add_right _ _, rfl, rfl⟩
    | some node => exact counts_surveyRecord hne node

theorem counts_surveyCounter (b : Bitmap) (p : UInt32 → Problem) :
    Counts 0 (surveyCounter b p) := by
  unfold surveyCounter
  cases b.usedCount with
  | error t =>
    intro s s' hs
    cases hs
  | ok used =>
    dsimp only [bind, Except.bind]
    cases word32 (b.free.toNat + used.toNat) with
    | error t =>
      intro s s' hs
      cases hs
    | ok accounted => exact counts_noteIf (fun _ => _) _

theorem counts_surveyBlock {b : Nat} (hb : b < v.space.blocks.total.toNat) :
    Counts 0 fun s => surveyBlock v s b := by
  simp only [surveyBlock_eq _ hb]
  exact counts_noteIf _ _

end Counts

end Survey

theorem exists_report {v : Volume}
    (hblocks : v.space.blocks.free.toNat + v.space.blocks.popcount < 2 ^ 32)
    (hinodes : v.space.inodes.free.toNat + v.space.inodes.popcount < 2 ^ 32) :
    ∃ r, check v = .ok r := by
  have hvisit : Survey.Ends v fun s => (List.range' 1
      (v.space.inodes.total.toNat - 1)).foldlM (Survey.surveyInode v) s := by
    simp only [surveyInodes_eq]
    exact .foldlM _ fun n hn => Survey.ends_surveyInode hn
  have hscan : Survey.Ends v fun s =>
      (List.range v.space.blocks.total.toNat).foldlM (Survey.surveyBlock v) s :=
    .foldlM _ fun b hb => Survey.ends_surveyBlock (List.mem_range.1 hb)
  have hall : Survey.Ends v fun s => survey v s >>= fun s =>
      (List.range v.space.blocks.total.toNat).foldlM (Survey.surveyBlock v) s :=
    ((Survey.ends_surveyCounter hblocks _).bind
      ((Survey.ends_surveyCounter hinodes _).bind hvisit)).bind hscan
  obtain ⟨s, hs, -⟩ := hall ⟨0, 0, #[], Array.replicate v.space.blocks.total.toNat 0⟩
    Array.size_replicate
  refine ⟨⟨s.inodes, s.owned, s.problems.toList⟩, ?_⟩
  dsimp only at hs
  rw [check_eq, ← bind_assoc, hs]
  rfl

theorem numbers_of_check {v : Volume} {r : Report} (h : check v = .ok r) :
    r.inodes ≤ v.space.inodes.total.toNat ∧ r.owned ≤ v.space.blocks.total.toNat := by
  have hinodes := Survey.Counts.foldlM v.inodeNumbers
    fun n hn => Survey.counts_surveyInode (v := v) hn
  have hblocks := Survey.Counts.foldlM (List.range v.space.blocks.total.toNat)
    fun b hb => Survey.counts_surveyBlock (v := v) (List.mem_range.1 hb)
  simp only [← surveyInodes_eq] at hinodes
  have hsurvey : Survey.Counts _ (survey v) := (Survey.counts_surveyCounter v.space.blocks
    (.freeBlocks v.space.blocks.free · v.space.blocks.total)).bind
    ((Survey.counts_surveyCounter v.space.inodes
      (.freeInodes v.space.inodes.free · v.space.inodes.total)).bind hinodes)
  have hnumbers := hsurvey.bind hblocks
  rw [check_eq, ← bind_assoc] at h
  cases hs : survey v ⟨0, 0, #[], Array.replicate v.space.blocks.total.toNat 0⟩ >>= fun s =>
      (List.range v.space.blocks.total.toNat).foldlM (Survey.surveyBlock v) s with
  | error t =>
    rw [hs] at h
    cases h
  | ok s =>
    rw [hs] at h
    obtain rfl := Except.ok.inj h
    obtain ⟨hinodes, howned⟩ := hnumbers _ s hs
    have hlength : v.inodeNumbers.length ≤ v.space.inodes.total.toNat := by
      rw [Volume.inodeNumbers, List.length_map, List.length_range']
      exact Nat.sub_le _ _
    have howners : Survey.unowned ⟨0, 0, #[], Array.replicate v.space.blocks.total.toNat 0⟩ ≤
        v.space.blocks.total.toNat := by
      apply Nat.le_trans List.count_le_length
      rw [Array.length_toList, Array.size_replicate]
    dsimp only at hinodes howned ⊢
    omega

end Consistency

namespace ExtentMap

def slotBlocks (m : ExtentMap) (i : Fin 4) : List Nat :=
  List.range' (m.slots.get i).start.toNat (m.slots.get i).count.toNat

theorem mem_slotBlocks {m : ExtentMap} {i : Fin 4} {b : Nat} :
    b ∈ m.slotBlocks i ↔ (m.slots.get i).start.toNat ≤ b ∧ b < (m.slots.get i).endBlock := by
  rw [slotBlocks, List.mem_range'_1, Extent.endBlock]

theorem blockNumbers_filter (extents : List Extent) :
    ExtentVolume.blockNumbers (extents.filter (!·.isEmpty)) =
      ExtentVolume.blockNumbers extents := by
  induction extents with
  | nil => rfl
  | cons e rest ih =>
    by_cases he : e.isEmpty = true
    · have hcount : e.count = 0 := by simpa [Extent.isEmpty] using he
      simp [he, hcount, ih]
    · simp [he, ih]

theorem blockNumbers_eq (m : ExtentMap) :
    m.blockNumbers = (List.finRange 4).flatMap m.slotBlocks := by
  have hslots : m.slots.toList = (List.finRange 4).map m.slots.get := by
    apply List.ext_getElem
    · simp
    · intro i h₁ h₂
      simp [Vector.get]
  rw [blockNumbers, inUse, blockNumbers_filter, hslots, ExtentVolume.blockNumbers, List.flatMap_map]
  rfl

end ExtentMap

namespace Volume

/-- The block lies in the extent that a slot of an allocated inode holds. -/
def Holds (v : Volume) (n : UInt32) (i : Fin 4) (b : Nat) : Prop :=
  n < v.space.inodes.total ∧
    ∃ node, v.live? n = some node ∧
      (node.extents.slots.get i).start.toNat ≤ b ∧ b < (node.extents.slots.get i).endBlock

/-- The counters of a record are those of its extents, which lie in the data area and have their
blocks in use. -/
structure Describes (v : Volume) (node : Inode) : Prop where
  extents : node.extents.stated.toNat = node.extents.inUse.length
  blocks : node.blocks.toNat = blockTotal node.extents.inUse
  inside : ∀ e ∈ node.extents.inUse, e.endBlock ≤ v.space.blocks.total.toNat
  marked : ∀ e ∈ node.extents.inUse, ∀ b, e.start.toNat ≤ b → b < e.endBlock →
    v.space.blocks.used b = true

/-- The counters, the records of the allocated inodes, and the bits of the blocks are accurate. -/
structure Accurate (v : Volume) : Prop where
  freeBlocks : v.space.blocks.free.toNat + v.space.blocks.popcount = v.space.blocks.total.toNat
  freeInodes : v.space.inodes.free.toNat + v.space.inodes.popcount = v.space.inodes.total.toNat
  described : ∀ n, 0 < n → n < v.space.inodes.total → v.space.inodes.used n.toNat = true →
    ∃ node, v.table.get? n = some node ∧ v.Describes node
  unshared : ∀ n m i j b, v.Holds n i b → v.Holds m j b → n = m ∧ i = j
  owned : ∀ b < v.space.blocks.total.toNat, v.space.blocks.used b = true → ∃ n i, v.Holds n i b

variable {v : Volume}

theorem mem_blocksOf_iff {n : UInt32} {b : Nat} (hlt : n < v.space.inodes.total) :
    b ∈ v.blocksOf n ↔ ∃ i, v.Holds n i b := by
  rw [mem_blocksOf]
  simp only [Holds, hlt, true_and]
  rw [exists_comm]
  apply exists_congr
  intro node
  rw [ExtentMap.blockNumbers_eq, List.mem_flatMap, exists_and_left]
  apply and_congr_right'
  apply exists_congr
  intro i
  rw [ExtentMap.mem_slotBlocks]
  exact and_iff_right (List.mem_finRange i)

theorem nodup_blocksOf_iff {n : UInt32} (hlt : n < v.space.inodes.total) :
    (v.blocksOf n).Nodup ↔ ∀ i j b, v.Holds n i b → v.Holds n j b → i = j := by
  cases hn : v.live? n with
  | none => simp [blocksOf, Holds, hn]
  | some node =>
    have hholds : ∀ i b, v.Holds n i b ↔ b ∈ node.extents.slotBlocks i := by
      intro i b
      simp [Holds, hlt, hn, ExtentMap.mem_slotBlocks]
    have hslots : ∀ i, (node.extents.slotBlocks i).Nodup := fun i => List.nodup_range'
    rw [blocksOf_live hn, ExtentMap.blockNumbers_eq, nodup_flatMap_iff (List.nodup_finRange 4)]
    simp [hholds, hslots]

theorem Holds.mem_inodeNumbers {n : UInt32} {i : Fin 4} {b : Nat} (h : v.Holds n i b) :
    n ∈ v.inodeNumbers := by
  obtain ⟨hlt, node, hlive, -⟩ := h
  refine Volume.mem_inodeNumbers.2 ⟨UInt32.pos_iff_ne_zero.2 ?_, hlt⟩
  rintro rfl
  have hget := (live?_eq_some.1 hlive).2
  simp [InodeTable.get?] at hget

theorem nodup_allBlocks_iff :
    (Consistency.allBlocks v).Nodup ↔
      ∀ n m i j b, v.Holds n i b → v.Holds m j b → n = m ∧ i = j := by
  rw [Consistency.allBlocks, nodup_flatMap_iff v.nodup_inodeNumbers]
  constructor
  · rintro ⟨hnodup, hunshared⟩ n m i j b hn hm
    have hne := hunshared n hn.mem_inodeNumbers m hm.mem_inodeNumbers b
      ((mem_blocksOf_iff hn.1).2 ⟨i, hn⟩) ((mem_blocksOf_iff hm.1).2 ⟨j, hm⟩)
    subst hne
    exact ⟨rfl, (nodup_blocksOf_iff hn.1).1 (hnodup n hn.mem_inodeNumbers) i j b hn hm⟩
  · intro h
    refine ⟨fun n hn => ?_, fun n hn m hm b hbn hbm => ?_⟩
    · exact (nodup_blocksOf_iff (mem_inodeNumbers.1 hn).2).2 fun i j b hi hj =>
        (h n n i j b hi hj).2
    · obtain ⟨i, hi⟩ := (mem_blocksOf_iff (mem_inodeNumbers.1 hn).2).1 hbn
      obtain ⟨j, hj⟩ := (mem_blocksOf_iff (mem_inodeNumbers.1 hm).2).1 hbm
      exact (h n m i j b hi hj).1

theorem mem_allBlocks_iff {b : Nat} : b ∈ Consistency.allBlocks v ↔ ∃ n i, v.Holds n i b := by
  rw [Consistency.allBlocks, List.mem_flatMap]
  constructor
  · rintro ⟨n, hn, hb⟩
    exact ⟨n, (mem_blocksOf_iff (mem_inodeNumbers.1 hn).2).1 hb⟩
  · rintro ⟨n, i, h⟩
    exact ⟨n, h.mem_inodeNumbers, (mem_blocksOf_iff h.1).2 ⟨i, h⟩⟩

theorem describes_iff_fine {node : Inode} (hnodup : node.extents.blockNumbers.Nodup) :
    v.Describes node ↔ Consistency.Survey.Fine v node := by
  have htotal := v.space.blocks.total.toNat_lt
  have hsum := ExtentMap.toNat_totalBlocks node.extents
  have hlength : node.extents.blockNumbers.length = blockTotal node.extents.inUse :=
    length_blockNumbers _
  constructor
  · intro h
    refine ⟨h.extents, ?_, fun b hb => ?_⟩
    · have hlt := node.blocks.toNat_lt
      apply UInt32.toNat_inj.1
      rw [hsum, hlength, h.blocks]
      have := h.blocks
      omega
    · obtain ⟨e, he, hfrom, hto⟩ := mem_blockNumbers.1 hb
      exact ⟨Nat.lt_of_lt_of_le hto (h.inside e he), h.marked e he b hfrom hto⟩
  · rintro ⟨hcounted, hblocks, hin⟩
    refine ⟨hcounted, ?_, fun e he => ?_, fun e he b hfrom hto => ?_⟩
    · have hle := Inode.length_le_of_nodup hnodup fun b hb => (hin b hb).1
      rw [hblocks, hsum, ← hlength]
      omega
    · have hpos := ExtentMap.blockNumbers_pos_of_mem he
      have hlast := hin (e.endBlock - 1) (mem_blockNumbers.2 ⟨e, he, by
        simp only [Extent.endBlock]
        omega, by
        simp only [Extent.endBlock]
        omega⟩)
      omega
    · exact (hin b (mem_blockNumbers.2 ⟨e, he, hfrom, hto⟩)).2

theorem accurate_iff :
    v.Accurate ↔ Consistency.Accounted v ∧ (Consistency.allBlocks v).Nodup ∧
      ∀ b < v.space.blocks.total.toNat, v.space.blocks.used b = true →
        b ∈ Consistency.allBlocks v := by
  have hdescribes : (Consistency.allBlocks v).Nodup → ∀ n ∈ v.inodeNumbers, ∀ node,
      v.live? n = some node → (v.Describes node ↔ Consistency.Survey.Fine v node) := by
    intro hnodup n hn node hlive
    rw [Consistency.allBlocks, nodup_flatMap_iff v.nodup_inodeNumbers] at hnodup
    exact describes_iff_fine (blocksOf_live hlive ▸ hnodup.1 n hn)
  simp only [mem_allBlocks_iff]
  constructor
  · intro h
    have hnodup := nodup_allBlocks_iff.2 h.unshared
    refine ⟨⟨h.freeBlocks, h.freeInodes, fun n hn hused => ?_⟩, hnodup, h.owned⟩
    obtain ⟨hpos, hlt⟩ := mem_inodeNumbers.1 hn
    obtain ⟨node, hget, hnode⟩ := h.described n hpos hlt hused
    exact ⟨node, hget, (hdescribes hnodup n hn node (live?_eq_some.2 ⟨hused, hget⟩)).1 hnode⟩
  · rintro ⟨haccounted, hnodup, howned⟩
    refine ⟨haccounted.freeBlocks, haccounted.freeInodes, fun n hpos hlt hused => ?_,
      nodup_allBlocks_iff.1 hnodup, howned⟩
    have hn := mem_inodeNumbers.2 ⟨hpos, hlt⟩
    obtain ⟨node, hget, hnode⟩ := haccounted.fine n hn hused
    exact ⟨node, hget, (hdescribes hnodup n hn node (live?_eq_some.2 ⟨hused, hget⟩)).2 hnode⟩

theorem accurate_iff_consistent (hv : v.Sized) : v.Accurate ↔ v.Consistent :=
  accurate_iff.trans (Consistency.clean_iff_survey.symm.trans (clean_iff_consistent hv))

theorem length_allBlocks (h : v.Accurate) :
    (Consistency.allBlocks v).length =
      (List.range v.space.blocks.total.toNat).countP v.space.blocks.used := by
  obtain ⟨haccounted, hnodup, howned⟩ := accurate_iff.1 h
  rw [List.countP_eq_length_filter]
  apply List.Perm.length_eq
  rw [List.perm_ext_iff_of_nodup hnodup (List.nodup_range.filter _)]
  intro b
  rw [List.mem_filter, List.mem_range]
  constructor
  · intro hb
    obtain ⟨n, hn, hb⟩ := List.mem_flatMap.1 hb
    obtain ⟨node, hlive, hb⟩ := mem_blocksOf.1 hb
    obtain ⟨hused, hget⟩ := live?_eq_some.1 hlive
    obtain ⟨node', hget', hfine⟩ := haccounted.fine n hn hused
    obtain rfl := Option.some.inj (hget.symm.trans hget')
    exact hfine.2.2 b hb
  · rintro ⟨hlt, hused⟩
    exact howned b hlt hused

/-- Whatever the state of the volume, a check whose counters do not overflow comes to an end. Its
report is clean exactly if the volume is accurate, and then it has counted the blocks in use. -/
theorem check_is_exact (v : Volume)
    (hblocks : v.space.blocks.free.toNat + v.space.blocks.popcount < 2 ^ 32)
    (hinodes : v.space.inodes.free.toNat + v.space.inodes.popcount < 2 ^ 32) :
    ∃ r, Consistency.check v = .ok r ∧ (r.isClean = true ↔ v.Accurate) ∧
      (r.isClean = true →
        r.owned = (List.range v.space.blocks.total.toNat).countP v.space.blocks.used) := by
  obtain ⟨r, hr⟩ := Consistency.exists_report hblocks hinodes
  have hclean : r.isClean = true ↔ v.Accurate := by
    rw [accurate_iff, ← Consistency.clean_iff_survey]
    constructor
    · intro h
      exact ⟨r, hr, h⟩
    · rintro ⟨r', hr', h⟩
      exact Except.ok.inj (hr'.symm.trans hr) ▸ h
  refine ⟨r, hr, hclean, fun h => ?_⟩
  rw [(Consistency.of_clean hr h).2, length_allBlocks (hclean.1 h)]

/-- The record with the first block of the data area in two slots. -/
def firstBlockTwice (node : Inode) : Inode :=
  { node with blocks := 2, extents := ⟨#v[⟨0, 1⟩, ⟨0, 1⟩, .empty, .empty], 2⟩ }

/-- A new volume, where the root has one block, passes. It does not pass with a record of the root
that has this block in two slots. -/
theorem check_finds_block_owned_twice : ∃ (v : Volume) (d' : MemoryDisk) (root : Inode),
    format ⟨4, 4⟩ ⟨.replicate 16 0⟩ 0 (MemoryDisk.blank 8) = .ok v d' ∧ v.live? 1 = some root ∧
      root.extents = ⟨#v[⟨0, 1⟩, .empty, .empty, .empty], 1⟩ ∧
      (∃ r, Consistency.check v = .ok r ∧ r.isClean = true ∧ r.owned = 1) ∧
      ∃ r, Consistency.check { v with table := v.table.set 1 (firstBlockTwice root) } = .ok r ∧
        r.isClean = false := by
  have hmade : Action.any (format ⟨4, 4⟩ ⟨.replicate 16 0⟩ 0) (MemoryDisk.blank 8)
      (fun v _ => (v.live? 1).any fun root =>
        root.extents == ⟨#v[⟨0, 1⟩, .empty, .empty, .empty], 1⟩) = true := by
    decide +kernel
  obtain ⟨v, d', hformat, hmade⟩ := Action.any_eq_true.1 hmade
  obtain ⟨root, hroot, hextents⟩ := (Option.any_eq_true _ _).1 hmade
  have hformatted := formatted_of_format hformat
  have hwhole := hformatted.sound.whole
  obtain ⟨hblockTotal, hinodeTotal⟩ := Geometry.mk.inj hformatted.geometry
  have hblocks := hwhole.exactBlocks.accounted
  have hinodes := hwhole.exactInodes.accounted
  have hfree : v.space.blocks.free.toNat + 1 = 4 := hformatted.free
  rw [hblockTotal, show (4 : UInt32).toNat = 4 from rfl] at hblocks
  rw [hinodeTotal, show (4 : UInt32).toNat = 4 from rfl] at hinodes
  refine ⟨v, d', root, hformat, hroot, beq_iff_eq.1 hextents, ?_, ?_⟩
  · obtain ⟨r, hr, hclean, howned⟩ := check_is_exact v (by omega) (by omega)
    have hpass := hclean.2 ((accurate_iff_consistent hwhole.sized).2 hwhole.consistent)
    refine ⟨r, hr, hpass, ?_⟩
    rw [howned hpass, ← Bitmap.popcount_eq hwhole.exactBlocks.padding]
    omega
  · obtain ⟨r, hr, hclean, -⟩ := check_is_exact
      { v with table := v.table.set 1 (firstBlockTwice root) } (hblocks.trans_lt (by decide))
      (hinodes.trans_lt (by decide))
    refine ⟨r, hr, Bool.eq_false_iff.2 fun hpass => ?_⟩
    have hlt : 1 < v.space.inodes.total := hinodeTotal ▸ (by decide)
    have hlive := live?_set hroot (firstBlockTwice root)
    have hinside : (⟨0, 1⟩ : Extent).start.toNat ≤ 0 ∧ 0 < (⟨0, 1⟩ : Extent).endBlock := by decide
    have hsame := (hclean.1 hpass).unshared 1 1 0 1 0 ⟨hlt, _, hlive, hinside⟩
      ⟨hlt, _, hlive, hinside⟩
    exact absurd hsame.2 (by decide)

end Volume

end ExtentVolume
