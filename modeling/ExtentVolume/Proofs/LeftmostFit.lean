import Mathlib.Order.Bounds.Basic
import ExtentVolume.Proofs.Ownership

namespace ExtentVolume

namespace Bitmap

variable {b : Bitmap} {count start : UInt32} {s : Nat}

theorem findRun_eq_some_iff :
    b.findRun count = some start ↔
      count ≠ 0 ∧ IsLeast {s | b.ClearRun count.toNat s} start.toNat := by
  constructor
  · intro h
    obtain ⟨-, hrun⟩ := findRun_some h
    have hne := findRun_length_ne_zero h
    refine ⟨hne, hrun, fun s hs => ?_⟩
    obtain ⟨start', h', hle⟩ := ClearRun.findRun hs hne
    obtain rfl : start = start' := Option.some.inj (h.symm.trans h')
    exact hle
  · intro ⟨hne, hleast⟩
    obtain ⟨start', h', hle⟩ := hleast.1.findRun hne
    have hge := hleast.2 (findRun_some h').2
    obtain rfl : start = start' := UInt32.toNat_inj.1 (Nat.le_antisymm hge hle)
    exact h'

theorem findRun_eq_none_iff :
    b.findRun count = none ↔ count = 0 ∨ ∀ s, ¬b.ClearRun count.toNat s := by
  constructor
  · intro h
    by_cases h0 : count = 0
    · exact .inl h0
    · refine .inr fun s hs => ?_
      obtain ⟨start, hstart, -⟩ := hs.findRun h0
      rw [h] at hstart
      cases hstart
  · intro h
    apply Option.eq_none_iff_forall_ne_some.2
    intro start hstart
    obtain ⟨hpos, hrun⟩ := findRun_some hstart
    obtain rfl | hnone := h
    · exact Nat.lt_irrefl 0 hpos
    · exact hnone _ hrun

end Bitmap

namespace ExtentMap

variable {m : ExtentMap} {e : Extent} {slot : Fin 4}

def LowestEmpty (m : ExtentMap) (slot : Fin 4) : Prop :=
  IsLeast {i : Fin 4 | (m.slots.get i).isEmpty = true} slot

theorem freeSlot?_eq_some_iff_lowest : m.freeSlot? = some slot ↔ m.LowestEmpty slot := by
  apply freeSlot?_eq_some_iff.trans
  apply and_congr_right
  intro _
  constructor
  · intro h i hi
    by_contra hlt
    have hused := h i (Fin.not_le.1 hlt)
    exact absurd (hused.symm.trans hi) (by decide)
  · intro h i hi
    by_contra hempty
    exact Fin.not_lt.2 (h (by simpa using hempty)) hi

theorem exists_lowestEmpty (h : (m.slots.get slot).isEmpty = true) :
    ∃ lowest, m.LowestEmpty lowest := by
  cases hfree : m.freeSlot? with
  | none => exact absurd ((freeSlot?_eq_none_iff.1 hfree slot).symm.trans h) (by decide)
  | some lowest => exact ⟨lowest, freeSlot?_eq_some_iff_lowest.1 hfree⟩

end ExtentMap

namespace Inode

variable {node node' : Inode} {blocks blocks' : Bitmap} {count : UInt32} {e : Extent}

/-- The extent is the leftmost free run of its length. It is put into the lowest empty slot and
counted in the record, and its blocks come into use. -/
structure Extended (node : Inode) (blocks : Bitmap) (e : Extent) (node' : Inode)
    (blocks' : Bitmap) : Prop where
  leftmost : IsLeast {s | blocks.ClearRun e.count.toNat s} e.start.toNat
  record : ∃ slot, node.extents.LowestEmpty slot ∧ node' = { node with
    extents := ⟨node.extents.slots.set slot e slot.isLt, node.extents.stated + 1⟩
    blocks := node.blocks + e.count }
  marked : blocks.Becomes (fun b => blocks.used b = true ∨ e.Has b) blocks'
  counted : blocks'.free.toNat + e.count.toNat = blocks.free.toNat

structure HasRoom (node : Inode) (count : UInt32) : Prop where
  extents : node.extents.stated.toNat + 1 < 2 ^ 32
  blocks : node.blocks.toNat + count.toNat < 2 ^ 32

theorem allocateExtent_extended (hb : blocks.Exact) (hroom : node.HasRoom count)
    (hcount : count ≠ 0) (hrun : ∃ s, blocks.ClearRun count.toNat s)
    (hslot : ∃ slot : Fin 4, (node.extents.slots.get slot).isEmpty = true) :
    ∃ e node' blocks', Inode.allocateExtent count (node, blocks) = .ok e (node', blocks') ∧
      e.count = count ∧ node.Extended blocks e node' blocks' := by
  obtain ⟨s, hs⟩ := hrun
  obtain ⟨empty, hempty⟩ := hslot
  obtain ⟨start, hfind, -⟩ := hs.findRun hcount
  obtain ⟨-, hleftmost⟩ := Bitmap.findRun_eq_some_iff.1 hfind
  obtain ⟨slot, hlowest⟩ := ExtentMap.exists_lowestEmpty hempty
  have hpush := ExtentMap.push_free (ExtentMap.freeSlot?_eq_some_iff_lowest.2 hlowest) hroom.extents
    ⟨start, count⟩
  obtain ⟨blocks', hmark, hmarked⟩ := hb.markRun hleftmost.1.inside hleftmost.1.clear
  have hword : word32 (node.blocks.toNat + count.toNat) = .ok (node.blocks + count) := by
    rw [word32_ok hroom.blocks, UInt32.ofNat_add, UInt32.ofNat_toNat, UInt32.ofNat_toNat]
  refine ⟨⟨start, count⟩, _, blocks', ?_, rfl, hleftmost, ⟨slot, hlowest, rfl⟩, hmarked,
    Bitmap.free_markRun hmark⟩
  change (allocateExtent count).run (node, blocks) = _
  simp only [allocateExtent, EStateM.run_bind, EStateM.run_get, EStateM.run_set, hfind,
    Action.run_checked, hpush, hmark, hword]
  rfl

theorem allocateExtent_noSpace (h : count = 0 ∨ ∀ s, ¬blocks.ClearRun count.toNat s)
    (node : Inode) :
    allocateExtent count (node, blocks) = .error (.failure .noSpace) (node, blocks) := by
  change (allocateExtent count).run (node, blocks) = _
  simp [allocateExtent, Bitmap.findRun_eq_none_iff.2 h]

theorem allocateExtent_noExtentSlots (hcount : count ≠ 0)
    (hrun : ∃ s, blocks.ClearRun count.toNat s)
    (hfull : ∀ slot : Fin 4, (node.extents.slots.get slot).isEmpty = false) :
    allocateExtent count (node, blocks) = .error (.failure .noExtentSlots) (node, blocks) := by
  obtain ⟨s, hs⟩ := hrun
  obtain ⟨start, hfind, -⟩ := hs.findRun hcount
  have hpush := ExtentMap.push_full (ExtentMap.freeSlot?_eq_none_iff.2 hfull) ⟨start, count⟩
  change (allocateExtent count).run (node, blocks) = _
  simp [allocateExtent, hfind, hpush]

structure Refused (node : Inode) (blocks : Bitmap) (count : UInt32) (e : VolumeError) : Prop where
  allocate : allocateExtent count (node, blocks) = .error (.failure e) (node, blocks)
  add : ∀ data, OpenInode.addExtent count ⟨node, blocks, data⟩ =
    .error (.failure e) ⟨node, blocks, data⟩

theorem refused_of_failure {e : VolumeError}
    (h : allocateExtent count (node, blocks) = .error (.failure e) (node, blocks)) :
    node.Refused blocks count e := by
  refine ⟨h, fun data => ?_⟩
  change (OpenInode.addExtent count).run ⟨node, blocks, data⟩ = _
  simp [OpenInode.addExtent, h]

/-- Whatever the record says, an extent that is asked for is the leftmost run of free blocks and
goes into the lowest empty slot. Where there is no such run, or no slot, nothing changes. -/
theorem allocateExtent_leftmost_fit (hb : blocks.Exact) (node : Inode) (count : UInt32) :
    (count ≠ 0 → (∃ s, blocks.ClearRun count.toNat s) →
      (∃ slot : Fin 4, (node.extents.slots.get slot).isEmpty = true) → node.HasRoom count →
      ∃ e node' blocks', Inode.allocateExtent count (node, blocks) = .ok e (node', blocks') ∧
        e.count = count ∧ node.Extended blocks e node' blocks') ∧
    ((count = 0 ∨ ∀ s, ¬blocks.ClearRun count.toNat s) → node.Refused blocks count .noSpace) ∧
    (count ≠ 0 → (∃ s, blocks.ClearRun count.toNat s) →
      (∀ slot : Fin 4, (node.extents.slots.get slot).isEmpty = false) →
      node.Refused blocks count .noExtentSlots) := by
  refine ⟨?_, ?_, ?_⟩
  · intro hcount hrun hslot hroom
    exact allocateExtent_extended hb hroom hcount hrun hslot
  · intro hnone
    exact refused_of_failure (allocateExtent_noSpace hnone node)
  · intro hcount hrun hfull
    exact refused_of_failure (allocateExtent_noExtentSlots hcount hrun hfull)

/-- Of four blocks the second is in use. Two blocks are found behind it; for three there is no
room, though three are free. -/
theorem leftmost_fit_behind_used_block : ∃ blocks : Bitmap, blocks.Exact ∧ blocks.free = 3 ∧
    (∃ e node' blocks', Inode.allocateExtent 2 (blank, blocks) = .ok e (node', blocks') ∧ e = ⟨2, 2⟩ ∧
      blank.Extended blocks e node' blocks') ∧
    blank.Refused blocks 3 .noSpace := by
  have hfresh : (Bitmap.fresh 0 4 0).Exact := Bitmap.exact_fresh 0 4 0
  have hclear : ∀ n, (Bitmap.fresh 0 4 0).used n = false := by
    intro n
    simp [Bitmap.used_fresh]
  have hinside : (1 : UInt32).toNat + (1 : UInt32).toNat ≤ 4 := by decide
  obtain ⟨blocks, hmark, hmarked⟩ := hfresh.markRun hinside fun n _ _ => hclear n
  have hused : ∀ n, blocks.used n = true ↔ n = 1 := by
    intro n
    have hone : (1 : UInt32).toNat = 1 := rfl
    rw [hmarked.used_iff, hclear, hone]
    simp only [Bool.false_eq_true, false_or]
    omega
  have htotal : blocks.total.toNat = 4 := congrArg UInt32.toNat hmarked.total
  -- No run goes over the second block.
  have hbehind : ∀ count s, blocks.ClearRun count s → s ≤ 1 → s + count ≤ 1 := by
    intro count s hs hle
    by_contra hlt
    have hclear := hs.clear 1 hle (by omega)
    rw [(hused 1).2 rfl] at hclear
    cases hclear
  refine ⟨blocks, hmarked.exact, ?_, ?_, ?_⟩
  · apply UInt32.toNat_inj.1
    have hfree := Bitmap.free_markRun hmark
    exact Nat.succ.inj hfree
  · have hrun : blocks.ClearRun (2 : UInt32).toNat 2 := by
      refine ⟨by rw [htotal]; decide, fun n h1 h2 => ?_⟩
      rw [← Bool.not_eq_true, hused]
      omega
    obtain ⟨⟨start, count⟩, node', blocks', hok, rfl, hextended⟩ :=
      (allocateExtent_leftmost_fit hmarked.exact blank 2).1 (by decide) ⟨2, hrun⟩ ⟨0, by decide⟩
        ⟨by decide, by decide⟩
    have hle : start.toNat ≤ 2 := hextended.leftmost.2 hrun
    have hge : start.toNat ≤ 1 → start.toNat + 2 ≤ 1 := hbehind _ _ hextended.leftmost.1
    have hstart : start = 2 := by
      apply UInt32.toNat_inj.1
      change start.toNat = 2
      omega
    exact ⟨_, node', blocks', hok, by rw [hstart], hextended⟩
  · apply (allocateExtent_leftmost_fit hmarked.exact blank 3).2.1
    refine .inr fun s hs => ?_
    have hthree : (3 : UInt32).toNat = 3 := rfl
    have hinside := hs.inside
    have hbefore := hbehind _ s hs
    rw [hthree] at hinside hbefore
    omega

end Inode

end ExtentVolume
