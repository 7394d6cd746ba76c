import Mathlib.Data.List.Perm.Subperm
import ExtentVolume.Proofs.Bitmap
import ExtentVolume.Proofs.Extent

namespace ExtentVolume

/-- The bitmap has in use exactly the blocks of the inode and, apart from them, the foreign ones. -/
structure Inode.Owns (foreign : Nat → Prop) (node : Inode) (blocks : Bitmap) : Prop where
  exact : blocks.Exact
  reserved : blocks.reserved = 0
  counted : node.extents.Counted
  held : node.blocks.toNat = node.extents.blockNumbers.length
  nodup : node.extents.blockNumbers.Nodup
  apart : ∀ b ∈ node.extents.blockNumbers, ¬foreign b
  used_iff : ∀ b, blocks.used b = true ↔ b ∈ node.extents.blockNumbers ∨ foreign b

/-- The inode and the bitmap after an extent of free blocks was added. -/
structure Inode.Grown (node : Inode) (blocks : Bitmap) (e : Extent) (node' : Inode)
    (blocks' : Bitmap) : Prop where
  pushed : node.extents.Pushed e node'.extents
  positive : 0 < e.count.toNat
  inside : e.endBlock ≤ blocks.total.toNat
  clear : ∀ b, e.start.toNat ≤ b → b < e.endBlock → blocks.used b = false
  marked : blocks.Becomes
    (fun b => blocks.used b = true ∨ (e.start.toNat ≤ b ∧ b < e.endBlock)) blocks'
  record : node' = { node with extents := node'.extents, blocks := node'.blocks }

namespace Inode

variable {foreign : Nat → Prop} {node node' : Inode} {blocks blocks' : Bitmap} {e : Extent}

theorem Owns.lt_total (h : node.Owns foreign blocks) {b : Nat}
    (hb : b ∈ node.extents.blockNumbers) : b < blocks.total.toNat :=
  Bitmap.lt_of_used h.exact.padding ((h.used_iff b).2 (.inl hb))

theorem length_le_of_nodup {l : List Nat} {n : Nat} (hnodup : l.Nodup) (hlt : ∀ b ∈ l, b < n) :
    l.length ≤ n := by
  have hsub := hnodup.subperm (fun b hb => List.mem_range.2 (hlt b hb))
  simpa using hsub.length_le

theorem Pushed.blockNumbers_perm {m m' : ExtentMap} (h : m.Pushed e m') :
    m'.blockNumbers.Perm (List.range' e.start.toNat e.count.toNat ++ m.blockNumbers) :=
  h.perm.flatMap_right _

theorem Owns.grow (h : node.Owns foreign blocks) {extents : ExtentMap}
    (hpushed : node.extents.Pushed e extents)
    (hclear : ∀ b, e.start.toNat ≤ b → b < e.endBlock → blocks.used b = false)
    (hmarked : blocks.Becomes
      (fun b => blocks.used b = true ∨ (e.start.toNat ≤ b ∧ b < e.endBlock)) blocks') :
    node.blocks.toNat + e.count.toNat < 2 ^ 32 ∧
      Owns foreign { node with extents, blocks := .ofNat (node.blocks.toNat + e.count.toNat) }
        blocks' := by
  have hperm := Pushed.blockNumbers_perm hpushed
  have hmem : ∀ b, b ∈ extents.blockNumbers ↔
      (e.start.toNat ≤ b ∧ b < e.endBlock) ∨ b ∈ node.extents.blockNumbers := by
    intro b
    rw [hperm.mem_iff, List.mem_append, List.mem_range'_1, Extent.endBlock]
  have hused : ∀ b, blocks'.used b = true ↔ b ∈ extents.blockNumbers ∨ foreign b := by
    intro b
    rw [hmarked.used_iff, h.used_iff, hmem]
    tauto
  have hfresh : ∀ b, e.start.toNat ≤ b → b < e.endBlock →
      b ∉ node.extents.blockNumbers ∧ ¬foreign b := by
    intro b h1 h2
    have hb : ¬(b ∈ node.extents.blockNumbers ∨ foreign b) := by
      rw [← h.used_iff, hclear b h1 h2]
      simp
    exact not_or.1 hb
  have hnodup : extents.blockNumbers.Nodup := by
    rw [hperm.nodup_iff, List.nodup_append]
    refine ⟨List.nodup_range', h.nodup, ?_⟩
    rintro a ha b hb rfl
    rw [List.mem_range'_1] at ha
    exact (hfresh a ha.1 ha.2).1 hb
  have hlength : extents.blockNumbers.length = node.blocks.toNat + e.count.toNat := by
    rw [hperm.length_eq, List.length_append, List.length_range', h.held, Nat.add_comm]
  -- no block occurs twice and all are below the total, so their number is a word
  have htotal : extents.blockNumbers.length ≤ blocks.total.toNat := by
    apply length_le_of_nodup hnodup
    intro b hb
    rw [← hmarked.total]
    exact Bitmap.lt_of_used hmarked.exact.padding ((hused b).2 (.inl hb))
  have hlt : node.blocks.toNat + e.count.toNat < 2 ^ 32 := by
    have := blocks.total.toNat_lt
    omega
  refine ⟨hlt, hmarked.exact, hmarked.reserved.trans h.reserved, hpushed.counted, ?_, hnodup, ?_,
    hused⟩
  · simp only
    rw [UInt32.toNat_ofNat_of_lt' hlt, hlength]
  · intro b hb
    obtain hb | hb := (hmem b).1 hb
    · exact (hfresh b hb.1 hb.2).2
    · exact h.apart b hb

/-- A run is found before a slot; where both are found nothing can trap, and where one is missing
nothing changes. -/
theorem Owns.allocateExtent (h : node.Owns foreign blocks) (count : UInt32) :
    Action.Ensures (Inode.allocateExtent count) (node, blocks)
      (fun e r => node.Grown blocks e r.1 r.2 ∧ r.1.Owns foreign r.2)
      (fun e r => r = (node, blocks) ∧ ((e = .noSpace ∧ blocks.findRun count = none) ∨
        (e = .noExtentSlots ∧ node.extents.inUse.length = 4))) False := by
  simp only [Inode.allocateExtent, Action.ensures_bind, Action.ensures_get]
  cases hf : blocks.findRun count with
  | none => exact ⟨rfl, .inl ⟨rfl, rfl⟩⟩
  | some start =>
    obtain ⟨hpos, hend, hclear⟩ := Bitmap.findRun_some hf
    have he : Extent.isEmpty ⟨start, count⟩ = false := by
      simp [Extent.isEmpty, Bitmap.findRun_length_ne_zero hf]
    obtain ⟨blocks', hmark, hmarked⟩ := h.exact.markRun hend hclear
    simp only [Action.ensures_bind, Action.ensures_checked]
    obtain ⟨hfull, hpush⟩ | ⟨i, extents, hpush, hpushed⟩ := ExtentMap.push_eq h.counted he
    · rw [hpush]
      exact ⟨rfl, .inr ⟨rfl, hfull⟩⟩
    · obtain ⟨hlt, howns⟩ := h.grow hpushed hclear hmarked
      have hword : word32 (node.blocks.toNat + count.toNat) =
          .ok (.ofNat (node.blocks.toNat + count.toNat)) := word32_ok hlt
      rw [hpush]
      simp only [Action.ensures_bind, Action.ensures_set, Action.ensures_checked, hmark, hword,
        Action.ensures_pure]
      exact ⟨⟨hpushed, hpos, hend, hclear, hmarked, rfl⟩, howns⟩

theorem Owns.grown (h : node.Owns foreign blocks) {count : UInt32}
    (ha : Inode.allocateExtent count (node, blocks) = .ok e (node', blocks')) :
    node.Grown blocks e node' blocks' ∧ node'.Owns foreign blocks' :=
  (h.allocateExtent count).of_ok ha

theorem Owns.room_of_block (h : node.Owns foreign blocks)
    (ha : Inode.allocateExtent 1 (node, blocks) = .ok e (node', blocks')) :
    blocks.free ≠ 0 ∧ node.extents.inUse.length < 4 ∧
      blocks'.free.toNat + 1 = blocks.free.toNat := by
  obtain ⟨hfind, -, hmark, -⟩ := of_allocateExtent ha
  refine ⟨fun hfree => ?_, ?_, Bitmap.free_markRun hmark⟩
  · rw [h.exact.findRun_one_eq_none_iff.2 hfree] at hfind
    cases hfind
  · have hlength := (h.grown ha).1.pushed.perm.length_eq
    have hle := node'.extents.length_inUse_le
    rw [List.length_cons] at hlength
    omega

theorem Owns.block_refused (h : node.Owns foreign blocks) {e : VolumeError} {r : Inode × Bitmap}
    (ha : Inode.allocateExtent 1 (node, blocks) = .error (.failure e) r) :
    (e = .noSpace ∧ blocks.free = 0) ∨
      (e = .noExtentSlots ∧ blocks.free ≠ 0 ∧ node.extents.inUse.length = 4) := by
  obtain ⟨-, ⟨rfl, hnone⟩ | ⟨rfl, hlength⟩⟩ := (h.allocateExtent 1).of_failure ha
  · exact .inl ⟨rfl, h.exact.findRun_one_eq_none_iff.1 hnone⟩
  · refine .inr ⟨rfl, fun hfree => ?_, hlength⟩
    change (Inode.allocateExtent 1).run (node, blocks) = _ at ha
    simp [Inode.allocateExtent, h.exact.findRun_one_eq_none_iff.2 hfree] at ha

end Inode

theorem Bitmap.Exact.releaseAll {b : Bitmap} (hb : b.Exact) (hres : b.reserved = 0)
    (extents : List Extent) (hnodup : (blockNumbers extents).Nodup)
    (hused : ∀ k ∈ blockNumbers extents, b.used k = true) :
    ∃ b', extents.foldlM (fun c e =>
        c.releaseRun e.start.toNat (min e.endBlock b.total.toNat - e.start.toNat)) b = .ok b' ∧
      b.Becomes (fun k => b.used k = true ∧ k ∉ blockNumbers extents) b' := by
  generalize htotal : b.total = total
  induction extents generalizing b with
  | nil => exact ⟨b, rfl, hb.becomes_self.congr fun k => by simp⟩
  | cons e rest ih =>
    rw [blockNumbers_cons, List.nodup_append] at hnodup
    have hin : ∀ k, e.start.toNat ≤ k → k < e.start.toNat + e.count.toNat → b.used k = true := by
      intro k h1 h2
      apply hused
      rw [blockNumbers_cons]
      exact List.mem_append_left _ (List.mem_range'_1.2 ⟨h1, h2⟩)
    have hclip : min e.endBlock total.toNat - e.start.toNat = e.count.toNat := by
      by_cases h0 : e.count.toNat = 0
      · simp only [Extent.endBlock]
        omega
      · have hlast := lt_of_used hb.padding (hin (e.start.toNat + e.count.toNat - 1)
          (by omega) (by omega))
        rw [htotal] at hlast
        simp only [Extent.endBlock]
        omega
    obtain ⟨c, hc, hbc⟩ := hb.releaseRun _ _ hres hin
    obtain ⟨d, hd, hcd⟩ := ih hbc.exact (hbc.reserved.trans hres) hnodup.2.1 (by
      intro k hk
      rw [hbc.used_iff]
      refine ⟨hused k (by rw [blockNumbers_cons]; exact List.mem_append_right _ hk), ?_⟩
      intro hk'
      exact hnodup.2.2 k (List.mem_range'_1.2 hk') k hk rfl) (hbc.total.trans htotal)
    refine ⟨d, ?_, (hbc.trans hcd).congr fun k => ?_⟩
    · rw [List.foldlM_cons, hclip, hc]
      exact hd
    · rw [hbc.used_iff, blockNumbers_cons, List.mem_append, List.mem_range'_1]
      tauto

theorem Inode.used_of_releaseExtents {node node' : Inode} {blocks blocks' : Bitmap}
    {extents : List Extent} (h : node.releaseExtents blocks = .ok (extents, node', blocks'))
    {b : Nat} (hb : blocks'.used b = true) : blocks.used b = true := by
  have hfold : ∀ (l : List Extent) (total : Nat) (c c' : Bitmap),
      l.foldlM (fun c e => c.releaseRun e.start.toNat (min e.endBlock total - e.start.toNat)) c =
        .ok c' → c'.used b = true → c.used b = true := by
    intro l total
    induction l with
    | nil =>
      intro c c' hc hb
      obtain rfl := Except.ok.inj hc
      exact hb
    | cons e rest ih =>
      intro c c' hc hb
      rw [List.foldlM_cons] at hc
      cases hrun : c.releaseRun e.start.toNat (min e.endBlock total - e.start.toNat) with
      | error t =>
        rw [hrun] at hc
        cases hc
      | ok c₁ =>
        rw [hrun] at hc
        exact Bitmap.used_of_releaseRun hrun (ih c₁ c' hc hb)
  unfold Inode.releaseExtents at h
  cases hall : node.extents.inUse.foldlM (fun c e =>
      c.releaseRun e.start.toNat (min e.endBlock blocks.total.toNat - e.start.toNat)) blocks with
  | error t =>
    simp only [hall] at h
    cases h
  | ok c =>
    simp only [hall] at h
    cases h
    exact hfold _ _ _ _ hall hb

theorem Inode.Owns.releaseExtents {foreign : Nat → Prop} {node : Inode} {blocks : Bitmap}
    (h : node.Owns foreign blocks) :
    ∃ blocks', node.releaseExtents blocks = .ok (node.extents.inUse,
        { node with extents := .empty, blocks := 0 }, blocks') ∧ blocks.Becomes foreign blocks' := by
  obtain ⟨blocks', hfold, hbecomes⟩ := h.exact.releaseAll h.reserved node.extents.inUse h.nodup
    (fun k hk => (h.used_iff k).2 (.inl hk))
  refine ⟨blocks', ?_, hbecomes.congr fun k => ?_⟩
  · simp only [Inode.releaseExtents, hfold, bind, Except.bind, pure, Except.pure]
  · rw [h.used_iff]
    constructor
    · rintro ⟨hin | hk, hout⟩
      · exact absurd hin hout
      · exact hk
    · intro hk
      exact ⟨.inr hk, fun hin => h.apart k hin hk⟩

end ExtentVolume
