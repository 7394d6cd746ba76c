import ExtentVolume.Proofs.Consistency
import ExtentVolume.Proofs.OpenInode

namespace ExtentVolume.Volume

/-- The inode owns a block besides the one with this number. -/
def foreign (v : Volume) (n : UInt32) (b : Nat) : Prop := ∃ m, m ≠ n ∧ b ∈ v.blocksOf m

def opened (v : Volume) (node : Inode) : OpenInode := ⟨node, v.space.blocks, v.data⟩

def putBack (v : Volume) (n : UInt32) (w : OpenInode) : Volume :=
  { v with
    space := { v.space with blocks := w.blocks }
    table := v.table.set n w.node
    data := w.data }

/-- The volume after an inode was taken into use. -/
def taken (v : Volume) (n : UInt32) (inodes : Bitmap) (node : Inode) : Volume :=
  { v with
    space := { v.space with inodes }
    table := v.table.set n node }

inductive Step (n : UInt32) : Volume → Volume → Prop where
  | edit {v : Volume} {node : Inode} {w : OpenInode} (hlive : v.live? n = some node)
      (h : OpenInode.Step (v.opened node) w) : Step n v (v.putBack n w)
  | relink {v : Volume} {node : Inode} {links : UInt16} {accessed modified changed : Int64}
      (hlive : v.live? n = some node) :
      Step n v { v with
        table := v.table.set n { node with links, accessed, modified, changed } }
  | take {v : Volume} {node : Inode} {inodes : Bitmap}
      (h : v.space.inodes.take = .ok (some (n, inodes)))
      (hnumber : node.number = n) (hempty : node.extents = .empty ∧ node.blocks = 0 ∧ node.size = 0) :
      Step n v (v.taken n inodes node)
  | release {v : Volume} {node node' : Inode} {extents : List Extent} {inodes blocks : Bitmap}
      (hlive : v.live? n = some node) (hinodes : v.space.inodes.release n = .ok inodes)
      (hblocks : node.releaseExtents v.space.blocks = .ok (extents, node', blocks)) :
      Step n v { v with space := ⟨inodes, blocks⟩, table := v.table.set n .blank }

abbrev Steps (S : UInt32 → Prop) := Relation.ReflTransGen fun v v' => ∃ n, S n ∧ Step n v v'

/-- The volume is consistent, and its parts fit together. -/
structure Whole (v : Volume) : Prop where
  sized : v.Sized
  consistent : v.Consistent
  inodePadding : v.space.inodes.PaddingClear
  blockPadding : v.space.blocks.PaddingClear

/-- The parts are as large and lie where they did. -/
structure SameShape (v v' : Volume) : Prop where
  superBlock : v'.superBlock = v.superBlock
  tableTotal : v'.table.total = v.table.total
  tableStart : v'.table.start = v.table.start
  records : v'.table.records.size = v.table.records.size
  inodes : v'.space.inodes.reserved = v.space.inodes.reserved ∧
    v'.space.inodes.total = v.space.inodes.total ∧ v'.space.inodes.start = v.space.inodes.start
  blocks : v'.space.blocks.reserved = v.space.blocks.reserved ∧
    v'.space.blocks.total = v.space.blocks.total ∧ v'.space.blocks.start = v.space.blocks.start
  cells : v'.data.cells.size = v.data.cells.size
  dataStart : v'.data.start = v.data.start

/-- The inodes other than `n` have the records they had and are in use if they were. -/
structure Others (n : UInt32) (v v' : Volume) : Prop where
  get : ∀ m, m ≠ n → v'.table.get? m = v.table.get? m
  used : ∀ m : UInt32, m ≠ n → v'.space.inodes.used m.toNat = v.space.inodes.used m.toNat

/-- What is the same after a step at an inode, and which blocks are dirty. -/
structure Touches (n : UInt32) (v v' : Volume) : Prop where
  shape : SameShape v v'
  others : Others n v v'
  foreign : ∀ b, v.foreign n b → v'.data.cells[b]? = v.data.cells[b]?
  changed : ∀ b, v'.data.cells[b]? = v.data.cells[b]? ∨ BlockCache.Dirty v'.data.cells b
  gained : ∀ b ∈ v'.blocksOf n, b ∈ v.blocksOf n ∨ BlockCache.Dirty v'.data.cells b

variable {v v' v'' : Volume} {n m : UInt32} {node : Inode} {b : Nat}

theorem Whole.exactInodes (h : v.Whole) : v.space.inodes.Exact :=
  ⟨h.consistent.freeInodes, h.inodePadding⟩

theorem Whole.exactBlocks (h : v.Whole) : v.space.blocks.Exact :=
  ⟨h.consistent.freeBlocks, h.blockPadding⟩

theorem Whole.used_iff (h : v.Whole) (b : Nat) :
    v.space.blocks.used b = true ↔ ∃ n, b ∈ v.blocksOf n := by
  constructor
  · intro hb
    exact (h.consistent.used_iff b (Bitmap.lt_of_used h.blockPadding hb)).1 hb
  · rintro ⟨n, hb⟩
    exact (h.consistent.used_iff b (h.consistent.inside n b hb)).2 ⟨n, hb⟩

theorem owned_iff (n : UInt32) : (∃ m, b ∈ v.blocksOf m) ↔ b ∈ v.blocksOf n ∨ v.foreign n b := by
  constructor
  · rintro ⟨m, hb⟩
    by_cases hm : m = n
    · exact .inl (hm ▸ hb)
    · exact .inr ⟨m, hm, hb⟩
  · rintro (hb | ⟨m, -, hb⟩)
    · exact ⟨n, hb⟩
    · exact ⟨m, hb⟩

theorem Whole.not_foreign (h : v.Whole) (hb : b ∈ v.blocksOf n) : ¬v.foreign n b := by
  rintro ⟨m, hm, hb'⟩
  exact hm (h.consistent.unshared m n b hb' hb)

theorem Whole.owns (h : v.Whole) (hlive : v.live? n = some node) :
    (v.opened node).Owns (v.foreign n) := by
  have hblocks := blocksOf_live hlive
  refine ⟨⟨h.exactBlocks, h.sized.blockReserved, h.consistent.counted n node hlive,
    h.consistent.held n node hlive, ?_, fun b hb => ?_, fun b => ?_⟩, h.sized.cells⟩
  · exact hblocks ▸ h.consistent.nodup n
  · exact h.not_foreign (hblocks ▸ hb)
  · change _ ↔ b ∈ node.extents.blockNumbers ∨ _
    rw [← hblocks]
    exact (h.used_iff b).trans (owned_iff n)

theorem SameShape.refl (v : Volume) : SameShape v v :=
  ⟨rfl, rfl, rfl, rfl, ⟨rfl, rfl, rfl⟩, ⟨rfl, rfl, rfl⟩, rfl, rfl⟩

theorem SameShape.trans (h : SameShape v v') (h' : SameShape v' v'') : SameShape v v'' :=
  ⟨h'.superBlock.trans h.superBlock, h'.tableTotal.trans h.tableTotal,
    h'.tableStart.trans h.tableStart, h'.records.trans h.records,
    ⟨h'.inodes.1.trans h.inodes.1, h'.inodes.2.1.trans h.inodes.2.1,
      h'.inodes.2.2.trans h.inodes.2.2⟩,
    ⟨h'.blocks.1.trans h.blocks.1, h'.blocks.2.1.trans h.blocks.2.1,
      h'.blocks.2.2.trans h.blocks.2.2⟩,
    h'.cells.trans h.cells, h'.dataStart.trans h.dataStart⟩

theorem SameShape.sized (h : SameShape v v') (hv : v.Sized) : v'.Sized :=
  ⟨h.tableTotal.trans (hv.table.trans h.inodes.2.1.symm), by rw [h.records, hv.records, h.inodes.2.1],
    by rw [h.cells, hv.cells, h.blocks.2.1], h.inodes.1.trans hv.inodeReserved,
    h.blocks.1.trans hv.blockReserved⟩

theorem Others.live (h : Others n v v') (hm : m ≠ n) : v'.live? m = v.live? m := by
  rw [live?, live?, h.get m hm, h.used m hm]

theorem Others.blocksOf (h : Others n v v') (hm : m ≠ n) : v'.blocksOf m = v.blocksOf m := by
  rw [Volume.blocksOf, Volume.blocksOf, h.live hm]

theorem Others.foreign (h : Others n v v') : v'.foreign n b ↔ v.foreign n b := by
  constructor
  · rintro ⟨m, hm, hb⟩
    exact ⟨m, hm, h.blocksOf hm ▸ hb⟩
  · rintro ⟨m, hm, hb⟩
    exact ⟨m, hm, (h.blocksOf hm).symm ▸ hb⟩

/-- A volume stays whole when one inode is replaced by another that is apart from the rest. -/
theorem Whole.replace (h : v.Whole) (hothers : Others n v v') (hsized : v'.Sized)
    (hinodes : v'.space.inodes.Exact) (hblocks : v'.space.blocks.Exact)
    (hrecord : ∀ node, v'.live? n = some node →
      node.extents.Counted ∧ node.blocks.toNat = node.extents.blockNumbers.length)
    (hnodup : (v'.blocksOf n).Nodup) (hapart : ∀ b ∈ v'.blocksOf n, ¬v.foreign n b)
    (hused : ∀ b, v'.space.blocks.used b = true ↔ b ∈ v'.blocksOf n ∨ v.foreign n b) : v'.Whole := by
  have howned : ∀ b, v'.space.blocks.used b = true ↔ ∃ n, b ∈ v'.blocksOf n := by
    intro b
    rw [hused, owned_iff n, hothers.foreign]
  have hfiled : ∀ k node, v'.live? k = some node →
      node.extents.Counted ∧ node.blocks.toNat = node.extents.blockNumbers.length := by
    intro k node hk
    by_cases hkn : k = n
    · exact hrecord node (hkn ▸ hk)
    · rw [hothers.live hkn] at hk
      exact ⟨h.consistent.counted k node hk, h.consistent.held k node hk⟩
  refine ⟨hsized, ⟨hinodes.accounted, hblocks.accounted, fun k node hk => (hfiled k node hk).1,
    fun k node hk => (hfiled k node hk).2, fun k b hb => ?_, fun k => ?_, fun k l b hk hl => ?_,
    fun b _ => howned b⟩, hinodes.padding, hblocks.padding⟩
  · exact Bitmap.lt_of_used hblocks.padding ((howned b).2 ⟨k, hb⟩)
  · by_cases hkn : k = n
    · exact hkn ▸ hnodup
    · rw [hothers.blocksOf hkn]
      exact h.consistent.nodup k
  · by_cases hkn : k = n
    · subst hkn
      by_contra hne
      exact hapart b hk ⟨l, Ne.symm hne, hothers.blocksOf (Ne.symm hne) ▸ hl⟩
    · rw [hothers.blocksOf hkn] at hk
      by_cases hln : l = n
      · subst hln
        exact absurd ⟨k, hkn, hk⟩ (hapart b hl)
      · rw [hothers.blocksOf hln] at hl
        exact h.consistent.unshared k l b hk hl

theorem get?_set_ne {t : InodeTable} (hm : m ≠ n) : (t.set n node).get? m = t.get? m := by
  have hne : n.toNat ≠ m.toNat := fun h => hm (UInt32.toNat_inj.1 h).symm
  simp only [InodeTable.get?, InodeTable.set, Array.getElem?_setIfInBounds_ne hne]

theorem get?_set_self {t : InodeTable} {old : Inode} (h : t.get? n = some old) :
    (t.set n node).get? n = some node := by
  unfold InodeTable.get? at h
  split at h
  · cases h
  · rename_i hin
    have hlt := (Array.getElem?_eq_some_iff.1 h).1
    change (if n = 0 ∨ t.total ≤ n then none
      else (t.records.setIfInBounds n.toNat node)[n.toNat]?) = some node
    rw [if_neg hin, Array.getElem?_setIfInBounds_self_of_lt hlt]

theorem live?_putBack {w : OpenInode} (hlive : v.live? n = some node) :
    (v.putBack n w).live? n = some w.node := by
  obtain ⟨hused, hget⟩ := live?_eq_some.1 hlive
  exact live?_eq_some.2 ⟨hused, get?_set_self hget⟩

theorem others_set {v v' : Volume} (hinodes : ∀ m : UInt32, m ≠ n →
      v'.space.inodes.used m.toNat = v.space.inodes.used m.toNat)
    (htable : v'.table = v.table.set n node) : Others n v v' :=
  ⟨fun m hm => by rw [htable, get?_set_ne hm], hinodes⟩

theorem Whole.putBack (h : v.Whole) (hlive : v.live? n = some node) {w : OpenInode}
    (hkeeps : OpenInode.Keeps (v.foreign n) (v.opened node) w) :
    Touches n v (v.putBack n w) ∧ (v.putBack n w).Whole := by
  have howns := hkeeps.owns.blocks
  have hblocks : (v.putBack n w).blocksOf n = w.node.extents.blockNumbers :=
    blocksOf_live (live?_putBack hlive)
  have hshape : SameShape v (v.putBack n w) := by
    refine ⟨rfl, rfl, rfl, Array.size_setIfInBounds, ⟨rfl, rfl, rfl⟩, ?_, ?_, hkeeps.dataStart⟩
    · exact ⟨howns.reserved.trans h.sized.blockReserved.symm, hkeeps.total, hkeeps.bitmapStart⟩
    · change w.data.cells.size = v.data.cells.size
      rw [hkeeps.owns.size, hkeeps.total, h.sized.cells]
      rfl
  have hothers : Others n v (v.putBack n w) := others_set (fun _ _ => rfl) rfl
  refine ⟨⟨hshape, hothers, hkeeps.foreign, hkeeps.changed, fun b hb => ?_⟩,
    h.replace hothers (hshape.sized h.sized) h.exactInodes howns.exact (fun node' hnode' => ?_)
      (hblocks ▸ howns.nodup) (fun b hb => ?_) (fun b => ?_)⟩
  · rw [hblocks] at hb
    rw [blocksOf_live hlive]
    exact hkeeps.gained b hb
  · obtain rfl := Option.some.inj ((live?_putBack hlive).symm.trans hnode')
    exact ⟨howns.counted, howns.held⟩
  · exact howns.apart b (hblocks ▸ hb)
  · rw [hblocks]
    exact howns.used_iff b

theorem relink_keeps {foreign : Nat → Prop} {w : OpenInode} (h : w.Owns foreign) {links : UInt16}
    {accessed modified changed : Int64} :
    OpenInode.Keeps foreign w
      { w with node := { w.node with links, accessed, modified, changed } } :=
  ⟨⟨⟨h.blocks.exact, h.blocks.reserved, h.blocks.counted, h.blocks.held, h.blocks.nodup,
      h.blocks.apart, h.blocks.used_iff⟩, h.size⟩,
    ⟨rfl, rfl⟩, rfl, rfl, rfl, fun _ _ => rfl, fun _ => .inl rfl, fun _ hb => .inl hb⟩

theorem Whole.take (h : v.Whole) {inodes : Bitmap}
    (htake : v.space.inodes.take = .ok (some (n, inodes))) :
    (∃ old, v.table.get? n = some old) ∧ v.space.inodes.used n.toNat = false ∧
      v.space.inodes.Becomes (fun k => v.space.inodes.used k = true ∨ k = n.toNat) inodes := by
  obtain ⟨hnone, -⟩ | ⟨k, b', hk, hres, hlt, hclear, hbecomes, -⟩ := h.exactInodes.take
  · rw [hnone] at htake
    cases htake
  · rw [hk] at htake
    obtain ⟨rfl, rfl⟩ := Prod.mk.inj (Option.some.inj (Except.ok.inj htake))
    refine ⟨exists_get? h.sized ?_ (UInt32.lt_iff_toNat_lt.1 hlt), hclear, hbecomes⟩
    rintro rfl
    rw [h.sized.inodeReserved] at hres
    simp at hres

theorem Whole.dead_of_take (h : v.Whole) {inodes : Bitmap}
    (htake : v.space.inodes.take = .ok (some (n, inodes))) : v.live? n = none := by
  rw [live?, (h.take htake).2.1]
  rfl

theorem Whole.live?_taken (h : v.Whole) {inodes : Bitmap}
    (htake : v.space.inodes.take = .ok (some (n, inodes))) (node : Inode) :
    (v.taken n inodes node).live? n = some node := by
  obtain ⟨⟨old, hold⟩, -, hbecomes⟩ := h.take htake
  exact live?_eq_some.2 ⟨(hbecomes.used_iff _).2 (.inr rfl), get?_set_self hold⟩

theorem Whole.release (h : v.Whole) (hlive : v.live? n = some node) :
    ∃ inodes blocks, v.space.inodes.release n = .ok inodes ∧
      node.releaseExtents v.space.blocks = .ok (node.extents.inUse,
        { node with extents := .empty, blocks := 0 }, blocks) ∧
      v.space.inodes.Becomes (fun k => v.space.inodes.used k = true ∧ k ≠ n.toNat) inodes ∧
      v.space.blocks.Becomes (v.foreign n) blocks := by
  obtain ⟨hused, hget⟩ := live?_eq_some.1 hlive
  have hres : v.space.inodes.reserved ≤ n.toNat := by
    rw [h.sized.inodeReserved]
    exact UInt32.lt_iff_toNat_lt.1 (mem_inodeNumbers.1 (mem_inodeNumbers_of_live h.sized hlive)).1
  obtain ⟨inodes, hinodes, hbecomes⟩ := h.exactInodes.release hres hused
  obtain ⟨blocks, hblocks, hforeign⟩ := (h.owns hlive).blocks.releaseExtents
  exact ⟨inodes, blocks, hinodes, hblocks, hbecomes, hforeign⟩

theorem Whole.emptied (h : v.Whole) (hshape : SameShape v v') (hothers : Others n v v')
    (hdata : v'.data = v.data) (hinodes : v'.space.inodes.Exact)
    (hblocks : v.space.blocks.Becomes (v.foreign n) v'.space.blocks)
    (hempty : ∀ node, v'.live? n = some node → node.extents = .empty ∧ node.blocks = 0) :
    Touches n v v' ∧ v'.Whole := by
  have hnone : v'.blocksOf n = [] := by
    cases hn : v'.live? n with
    | none => rw [blocksOf, hn]
    | some node =>
      rw [blocksOf_live hn, (hempty node hn).1]
      rfl
  refine ⟨⟨hshape, hothers, fun b _ => by rw [hdata], fun b => .inl (by rw [hdata]), ?_⟩,
    h.replace hothers (hshape.sized h.sized) hinodes hblocks.exact (fun node hn => ?_) ?_ ?_ ?_⟩
  · simp [hnone]
  · rw [(hempty node hn).1, (hempty node hn).2]
    exact ⟨ExtentMap.counted_empty, rfl⟩
  · rw [hnone]
    exact List.nodup_nil
  · simp [hnone]
  · simpa [hnone] using hblocks.used_iff

theorem Step.touches_whole (hstep : Step n v v') (h : v.Whole) : Touches n v v' ∧ v'.Whole := by
  cases hstep with
  | edit hlive hedit => exact h.putBack hlive (hedit.keeps (h.owns hlive))
  | relink hlive => exact h.putBack hlive (relink_keeps (h.owns hlive))
  | @take node inodes htake hnumber hempty =>
    obtain ⟨-, -, hbecomes⟩ := h.take htake
    have hdead : v.blocksOf n = [] := by rw [blocksOf, h.dead_of_take htake]
    refine h.emptied ⟨rfl, rfl, rfl, Array.size_setIfInBounds,
        ⟨hbecomes.reserved, hbecomes.total, hbecomes.start⟩, ⟨rfl, rfl, rfl⟩, rfl, rfl⟩
      (others_set (fun m hm => ?_) rfl) rfl hbecomes.exact
      (h.exactBlocks.becomes_self.congr fun b => ?_) (fun node' hnode' => ?_)
    · change inodes.used m.toNat = _
      rw [Bool.eq_iff_iff, hbecomes.used_iff]
      simp [UInt32.toNat_inj, hm]
    · rw [h.used_iff, owned_iff n, hdead]
      simp
    · obtain rfl := Option.some.inj ((h.live?_taken htake node).symm.trans hnode')
      exact ⟨hempty.1, hempty.2.1⟩
  | @release node node' extents inodes blocks hlive hinodes hblocks =>
    obtain ⟨inodes', blocks', hinodes', hblocks', hbecomes, hforeign⟩ := h.release hlive
    obtain rfl := Except.ok.inj (hinodes'.symm.trans hinodes)
    obtain ⟨-, -, rfl⟩ : _ ∧ _ ∧ blocks' = blocks := by
      simpa using hblocks'.symm.trans hblocks
    refine h.emptied ⟨rfl, rfl, rfl, Array.size_setIfInBounds,
        ⟨hbecomes.reserved, hbecomes.total, hbecomes.start⟩,
        ⟨hforeign.reserved, hforeign.total, hforeign.start⟩, rfl, rfl⟩
      (others_set (fun m hm => ?_) rfl) rfl hbecomes.exact hforeign (fun node hnode => ?_)
    · rw [Bool.eq_iff_iff, hbecomes.used_iff]
      simp [UInt32.toNat_inj, hm]
    · have hused := (live?_eq_some.1 hnode).1
      exact absurd rfl ((hbecomes.used_iff _).1 hused).2

theorem Steps.whole {S : UInt32 → Prop} (hsteps : Steps S v v') (h : v.Whole) : v'.Whole := by
  induction hsteps with
  | refl => exact h
  | tail _ hstep ih =>
    obtain ⟨n, -, hstep⟩ := hstep
    exact (hstep.touches_whole ih).2

theorem Steps.shape {S : UInt32 → Prop} (hsteps : Steps S v v') (h : v.Whole) :
    SameShape v v' := by
  induction hsteps with
  | refl => exact .refl v
  | tail hsteps hstep ih =>
    obtain ⟨n, -, hstep⟩ := hstep
    exact ih.trans (hstep.touches_whole (Steps.whole hsteps h)).1.shape

theorem Steps.untouched {S : UInt32 → Prop} (hsteps : Steps S v v') (h : v.Whole) (hm : ¬S m) :
    v'.table.get? m = v.table.get? m ∧
      v'.space.inodes.used m.toNat = v.space.inodes.used m.toNat ∧
      ∀ b ∈ v.blocksOf m, v'.data.cells[b]? = v.data.cells[b]? := by
  induction hsteps with
  | refl => exact ⟨rfl, rfl, fun _ _ => rfl⟩
  | @tail v₁ v₂ hsteps hstep ih =>
    obtain ⟨n, hn, hstep⟩ := hstep
    have hne : m ≠ n := fun he => hm (he ▸ hn)
    obtain ⟨hget, hused, hcells⟩ := ih
    have htouches := (hstep.touches_whole (Steps.whole hsteps h)).1
    refine ⟨(htouches.others.get m hne).trans hget, (htouches.others.used m hne).trans hused,
      fun b hb => ?_⟩
    have hsame : v₁.blocksOf m = v.blocksOf m := by
      rw [blocksOf, blocksOf, live?, live?, hget, hused]
    exact (htouches.foreign b ⟨m, hne, hsame ▸ hb⟩).trans (hcells b hb)

theorem Steps.live {S : UInt32 → Prop} (hsteps : Steps S v v') (h : v.Whole) (hm : ¬S m) :
    v'.live? m = v.live? m := by
  obtain ⟨hget, hused, -⟩ := hsteps.untouched h hm
  rw [live?, live?, hget, hused]

theorem Steps.blocksOf {S : UInt32 → Prop} (hsteps : Steps S v v') (h : v.Whole) (hm : ¬S m) :
    v'.blocksOf m = v.blocksOf m := by
  rw [Volume.blocksOf, Volume.blocksOf, hsteps.live h hm]

theorem Steps.dirty {S : UInt32 → Prop} (hsteps : Steps S v v') (h : v.Whole) :
    (∀ b, v'.data.cells[b]? = v.data.cells[b]? ∨ BlockCache.Dirty v'.data.cells b) ∧
      ∀ n, ∀ b ∈ v'.blocksOf n, (∃ m, b ∈ v.blocksOf m) ∨ BlockCache.Dirty v'.data.cells b := by
  induction hsteps with
  | refl => exact ⟨fun _ => .inl rfl, fun n b hb => .inl ⟨n, hb⟩⟩
  | @tail v₁ v₂ hsteps hstep ih =>
    obtain ⟨k, -, hstep⟩ := hstep
    have htouches := (hstep.touches_whole (Steps.whole hsteps h)).1
    have hkept : ∀ b, BlockCache.Dirty v₁.data.cells b → BlockCache.Dirty v₂.data.cells b := by
      rintro b ⟨content, hc⟩
      obtain hb | hb := htouches.changed b
      · exact ⟨content, hb.trans hc⟩
      · exact hb
    refine ⟨fun b => ?_, fun n b hb => ?_⟩
    · obtain hb | hb := htouches.changed b
      · exact (ih.1 b).imp hb.trans (hkept b)
      · exact .inr hb
    · have hold : (∃ m, b ∈ v₁.blocksOf m) ∨ BlockCache.Dirty v₂.data.cells b := by
        by_cases hn : n = k
        · subst hn
          exact (htouches.gained b hb).imp (fun hb => ⟨n, hb⟩) id
        · exact .inl ⟨n, htouches.others.blocksOf hn ▸ hb⟩
      obtain ⟨m, hm⟩ | hd := hold
      · exact (ih.2 m b hm).imp id (hkept b)
      · exact .inr hd

/-- Every record in use states its own number, and what it maps behind its end is zero. -/
structure Sound (v : Volume) : Prop where
  whole : v.Whole
  number : ∀ n node, v.live? n = some node → node.number = n
  content : ∀ n node, v.live? n = some node → (v.opened node).Sound

theorem sound_congr {w w' : OpenInode} (h : w.Sound) (hext : w'.node.extents = w.node.extents)
    (hsize : w'.node.size = w.node.size)
    (hdata : ∀ b ∈ w.node.extents.blockNumbers, w'.data.block? b = w.data.block? b) : w'.Sound := by
  refine ⟨hext ▸ h.packed, by rw [hsize, hext]; exact h.mapped, fun i hi => ?_⟩
  rw [hsize] at hi
  rw [hext, byteIn_congr hdata]
  exact h.tail i hi

theorem Step.sound_self (hstep : Step n v v') (h : v.Sound) (hlive : v'.live? n = some node) :
    node.number = n ∧ (v'.opened node).Sound := by
  cases hstep with
  | edit hold hedit =>
    obtain rfl := Option.some.inj ((live?_putBack hold).symm.trans hlive)
    have howns := h.whole.owns hold
    exact ⟨(hedit.keeps howns).identity.1.trans (h.number n _ hold),
      hedit.sound howns (h.content n _ hold)⟩
  | relink hold =>
    obtain rfl := Option.some.inj
      ((get?_set_self (live?_eq_some.1 hold).2).symm.trans (live?_eq_some.1 hlive).2)
    have hnumber := h.number n _ hold
    exact ⟨hnumber, sound_congr (h.content n _ hold) rfl rfl fun _ _ => rfl⟩
  | take htake hnumber hempty =>
    obtain rfl := Option.some.inj ((h.whole.live?_taken htake _).symm.trans hlive)
    obtain ⟨hext, -, hsize⟩ := hempty
    refine ⟨hnumber, ?_, ?_, fun i _ => ?_⟩
    · exact hext ▸ ExtentMap.packed_empty
    · simp only [opened, hsize, UInt64.toNat_zero]
      exact Nat.zero_le _
    · simp only [opened, hext]
      exact byteIn_of_none rfl
  | release hold hinodes hblocks =>
    obtain ⟨inodes', -, hinodes', -, hbecomes, -⟩ := h.whole.release hold
    obtain rfl := Except.ok.inj (hinodes'.symm.trans hinodes)
    exact absurd rfl ((hbecomes.used_iff _).1 (live?_eq_some.1 hlive).1).2

theorem Step.sound (hstep : Step n v v') (h : v.Sound) : v'.Sound := by
  obtain ⟨htouches, hwhole⟩ := hstep.touches_whole h.whole
  have hall : ∀ m node, v'.live? m = some node → node.number = m ∧ (v'.opened node).Sound := by
    intro m node hm
    by_cases hne : m = n
    · subst hne
      exact hstep.sound_self h hm
    · have hold := htouches.others.live hne ▸ hm
      refine ⟨h.number m node hold, sound_congr (h.content m node hold) rfl rfl fun b hb => ?_⟩
      exact BlockCache.block?_congr (htouches.foreign b ⟨m, hne, blocksOf_live hold ▸ hb⟩)
  exact ⟨hwhole, fun m node hm => (hall m node hm).1, fun m node hm => (hall m node hm).2⟩

theorem Steps.sound {S : UInt32 → Prop} (hsteps : Steps S v v') (h : v.Sound) : v'.Sound := by
  induction hsteps with
  | refl => exact h
  | tail _ hstep ih =>
    obtain ⟨n, -, hstep⟩ := hstep
    exact hstep.sound ih

end ExtentVolume.Volume
