import ExtentVolume.FreeSpace
import ExtentVolume.BlockCache

namespace ExtentVolume

structure OpenInode where
  node : Inode
  blocks : Bitmap
  data : BlockCache

namespace OpenInode

def addExtent (count : UInt32) : Action VolumeError OpenInode Extent := do
  let extent ← Action.within (fun w => (w.node, w.blocks))
    (fun w (node, blocks) => { w with node, blocks }) (Inode.allocateExtent count)
  let data ← (← get).data.zeroExtent extent
  modify ({ · with data })
  return extent

def touch (w : OpenInode) (now : Int64) : OpenInode := { w with node := w.node.setTimes now }

end OpenInode

theorem locate_available_pos {extents : List Extent} {offset : Nat} {m : Mapping}
    (h : locate extents offset = some m) : 0 < m.available := by
  induction extents generalizing offset with
  | nil => simp [locate] at h
  | cons e rest ih =>
    rw [locate] at h
    split at h
    · obtain rfl := Option.some.inj h
      simp only
      omega
    · exact ih h

theorem ExtentMap.freeSlots_push {m m' : ExtentMap} {e : Extent} {i : Fin 4}
    (he : e.isEmpty = false) (h : m.push e = .ok (some (i, m'))) :
    m'.freeSlots + 1 = m.freeSlots := by
  unfold push at h
  split at h
  · simp [pure, Except.pure] at h
  · rename_i j hj
    cases hw : word32 (m.stated.toNat + 1) with
    | error t => simp [hw, bind, Except.bind] at h
    | ok n =>
      simp only [hw, bind, Except.bind, pure, Except.pure, Except.ok.injEq, Option.some.injEq,
        Prod.mk.injEq] at h
      obtain ⟨rfl, rfl⟩ := h
      have hfree : m.slots[j].isEmpty = true := by
        simpa using List.find?_some hj
      have hpos : 0 < m.slots.toList.countP (·.isEmpty) :=
        List.countP_pos_iff.2 ⟨m.slots[j], by simp, hfree⟩
      have hlt : j.val < m.slots.toList.length := by simp
      have hlist : m.slots.toList[j.val] = m.slots[j] := by simp
      have hset := List.countP_set (p := (·.isEmpty)) (a := e) hlt
      simp only [hlist, hfree, he, if_true, Bool.false_eq_true, if_false] at hset
      simp only [freeSlots, Vector.toList_set]
      omega

theorem Bitmap.findRun_length_ne_zero {b : Bitmap} {length start : UInt32}
    (h : b.findRun length = some start) : length ≠ 0 := by
  intro h0
  simp [findRun, h0] at h

theorem Inode.of_allocateExtent {node node' : Inode} {blocks blocks' : Bitmap} {count : UInt32}
    {e : Extent} (h : allocateExtent count (node, blocks) = .ok e (node', blocks')) :
    blocks.findRun count = some e.start ∧ e.count = count ∧
      blocks.markRun e.start count = .ok blocks' ∧
      ∃ slot extents size, node.extents.push e = .ok (some (slot, extents)) ∧
        word32 (node.blocks.toNat + count.toNat) = .ok size ∧
        node' = { node with extents, blocks := size } := by
  change (allocateExtent count).run (node, blocks) = .ok e (node', blocks') at h
  cases hr : blocks.findRun count with
  | none => simp [allocateExtent, hr] at h
  | some start =>
    cases hp : node.extents.push ⟨start, count⟩ with
    | error t => simp [allocateExtent, hr, hp] at h
    | ok pushed =>
      cases pushed with
      | none => simp [allocateExtent, hr, hp] at h
      | some p =>
        obtain ⟨slot, extents⟩ := p
        cases hm : blocks.markRun start count with
        | error t => simp [allocateExtent, hr, hp, hm] at h
        | ok marked =>
          cases hw : word32 (node.blocks.toNat + count.toNat) with
          | error t => simp [allocateExtent, hr, hp, hm, hw] at h
          | ok size =>
            simp [allocateExtent, hr, hp, hm, hw] at h
            obtain ⟨rfl, rfl, rfl⟩ := h
            exact ⟨rfl, rfl, hm, slot, extents, size, hp, rfl, rfl⟩

theorem Inode.freeSlots_allocateExtent {node node' : Inode} {blocks blocks' : Bitmap}
    {count : UInt32} {e : Extent}
    (h : allocateExtent count (node, blocks) = .ok e (node', blocks')) :
    node'.extents.freeSlots < node.extents.freeSlots := by
  obtain ⟨hfind, rfl, -, slot, extents, size, hpush, -, rfl⟩ := of_allocateExtent h
  have he : e.isEmpty = false := by
    simp [Extent.isEmpty, Bitmap.findRun_length_ne_zero hfind]
  have hslots := ExtentMap.freeSlots_push he hpush
  simp only
  omega

theorem OpenInode.freeSlots_addExtent {w w' : OpenInode} {count : UInt32} {e : Extent}
    (h : addExtent count w = .ok e w') :
    w'.node.extents.freeSlots < w.node.extents.freeSlots := by
  change (addExtent count).run w = .ok e w' at h
  cases ha : Inode.allocateExtent count (w.node, w.blocks) with
  | error stop left =>
    simp [addExtent, ha] at h
  | ok extent grown =>
    obtain ⟨node, blocks⟩ := grown
    cases hz : w.data.zeroExtent extent with
    | error stop =>
      simp [addExtent, ha, hz] at h
    | ok data =>
      simp [addExtent, ha, hz] at h
      obtain ⟨rfl, rfl⟩ := h
      exact Inode.freeSlots_allocateExtent ha

end ExtentVolume
