import Mathlib.Data.Finset.SDiff
import Mathlib.Logic.Relation
import Mathlib.Order.Interval.Finset.Nat
import ExtentVolume.Proofs.BitmapSearch
import ExtentVolume.Proofs.LeftmostFit

namespace ExtentVolume

namespace Bitmap

structure Tracks (reserved : Nat) (total : UInt32) (taken : Finset Nat) (b : Bitmap) : Prop where
  reserved_eq : b.reserved = reserved
  total_eq : b.total = total
  used_iff : ∀ n, b.used n = true ↔ (n < reserved ∧ n < total.toNat) ∨ n ∈ taken
  padding : ∀ n, total.toNat ≤ n → b.used n = false
  accounted : b.free.toNat + b.popcount = total.toNat

def LeastFree (reserved : Nat) (total : UInt32) (taken : Finset Nat) (n : UInt32) : Prop :=
  IsLeast {k | reserved ≤ k ∧ k < total.toNat ∧ k ∉ taken} n.toNat

section Tracks

variable {b b' : Bitmap} {reserved : Nat} {total : UInt32} {taken taken' : Finset Nat} {n : UInt32}

theorem Tracks.exact (h : b.Tracks reserved total taken) : b.Exact := by
  refine ⟨?_, ?_⟩
  · rw [h.total_eq]
    exact h.accounted
  · intro n hn
    rw [h.total_eq] at hn
    exact h.padding n hn

theorem Tracks.becomes (h : b.Tracks reserved total taken) {p : Nat → Prop} (hb : b.Becomes p b')
    (hp : ∀ n, p n ↔ (n < reserved ∧ n < total.toNat) ∨ n ∈ taken') :
    b'.Tracks reserved total taken' := by
  have htotal : b'.total = total := hb.total.trans h.total_eq
  refine ⟨hb.reserved.trans h.reserved_eq, htotal, fun n => (hb.used_iff n).trans (hp n), ?_, ?_⟩
  · intro n hn
    rw [← htotal] at hn
    exact hb.exact.padding n hn
  · rw [← htotal]
    exact hb.exact.accounted

theorem Tracks.lt_of_mem (h : b.Tracks reserved total taken) {k : Nat} (hk : k ∈ taken) :
    k < total.toNat := by
  rw [← h.total_eq]
  exact lt_of_used h.exact.padding ((h.used_iff k).2 (.inr hk))

theorem Tracks.clear_iff (h : b.Tracks reserved total taken) {k : Nat} (hk : k < total.toNat) :
    b.used k = false ↔ reserved ≤ k ∧ k ∉ taken := by
  rw [← Bool.not_eq_true, h.used_iff, not_or, not_and]
  apply and_congr_left
  intro _
  constructor
  · intro hres
    exact Nat.not_lt.1 fun hlt => hres hlt hk
  · intro hle hlt
    exact absurd hle (Nat.not_le.2 hlt)

theorem Tracks.free_ne_zero (h : b.Tracks reserved total taken) {k : Nat} (hle : reserved ≤ k)
    (hk : k < total.toNat) (hout : k ∉ taken) : b.free ≠ 0 :=
  h.exact.free_ne_zero (h.total_eq ▸ hk) ((h.clear_iff hk).2 ⟨hle, hout⟩)

theorem Tracks.take (h : b.Tracks reserved total taken) :
    (b.free = 0 ∧ b.take = .ok none) ∨
      (b.free ≠ 0 ∧ ∃ n b', b.take = .ok (some (n, b')) ∧ LeastFree reserved total taken n ∧
        b'.Tracks reserved total (insert n.toNat taken)) := by
  obtain ⟨htake, hall⟩ | ⟨n, b', htake, hres, hlt, hclear, hbecomes, hbelow⟩ := h.exact.take
  · refine .inl ⟨?_, htake⟩
    by_contra hfree
    obtain ⟨k, hk, hclear⟩ := h.exact.exists_clear hfree
    have hle := ((h.clear_iff (h.total_eq ▸ hk)).1 hclear).1
    have hused := hall k (h.reserved_eq ▸ hle) hk
    exact absurd (hused.symm.trans hclear) (by decide)
  · have hlt : n.toNat < b.total.toNat := UInt32.lt_iff_toNat_lt.1 hlt
    have hn : n.toNat < total.toNat := h.total_eq ▸ hlt
    obtain ⟨hle, hout⟩ := (h.clear_iff hn).1 hclear
    refine .inr ⟨h.exact.free_ne_zero hlt hclear, n, b', htake, ⟨⟨hle, hn, hout⟩, ?_⟩,
      h.becomes hbecomes ?_⟩
    · intro k ⟨hle', hk, hout'⟩
      by_contra hlower
      have hused := hbelow k (h.reserved_eq ▸ hle') (Nat.not_le.1 hlower)
      exact absurd (hused.symm.trans ((h.clear_iff hk).2 ⟨hle', hout'⟩)) (by decide)
    · intro k
      rw [h.used_iff, Finset.mem_insert]
      tauto

theorem Tracks.release (h : b.Tracks reserved total taken)
    (hn : n.toNat < reserved ∨ total ≤ n ∨ n.toNat ∈ taken) :
    ∃ b', b.release n = .ok b' ∧ b'.Tracks reserved total (taken.erase n.toNat) := by
  by_cases hignored : n.toNat < reserved ∨ total ≤ n
  · have hignored' : n.toNat < b.reserved ∨ b.total ≤ n := by
      rwa [h.reserved_eq, h.total_eq]
    refine ⟨b, if_pos hignored', h.becomes h.exact.becomes_self fun k => ?_⟩
    rw [h.used_iff, Finset.mem_erase]
    constructor
    · intro hk
      by_cases hkn : k = n.toNat
      · have hlt : k < total.toNat := hk.elim And.right h.lt_of_mem
        rw [UInt32.le_iff_toNat_le, ← hkn] at hignored
        exact .inl ⟨hignored.resolve_right (Nat.not_le.2 hlt), hlt⟩
      · exact hk.imp_right fun hin => ⟨hkn, hin⟩
    · exact Or.imp_right And.right
  · have hin : n.toNat ∈ taken := by
      obtain hn | hn | hn := hn
      · exact absurd (.inl hn) hignored
      · exact absurd (.inr hn) hignored
      · exact hn
    have hle : reserved ≤ n.toNat := Nat.not_lt.1 fun hlt => hignored (.inl hlt)
    obtain ⟨b', hrelease, hbecomes⟩ := h.exact.release (h.reserved_eq ▸ hle)
      ((h.used_iff _).2 (.inr hin))
    refine ⟨b', hrelease, h.becomes hbecomes fun k => ?_⟩
    rw [h.used_iff, Finset.mem_erase]
    constructor
    · exact fun ⟨hk, hkn⟩ => hk.imp_right fun hin => ⟨hkn, hin⟩
    · intro hk
      obtain hk | ⟨hkn, hin⟩ := hk
      · exact ⟨.inl hk, by omega⟩
      · exact ⟨.inr hin, hkn⟩

theorem Tracks.markRun (h : b.Tracks reserved total taken) {start count : UInt32}
    (hrun : b.ClearRun count.toNat start.toNat) :
    ∃ b', b.markRun start count = .ok b' ∧ b'.Tracks reserved total
      (taken ∪ Finset.Ico start.toNat (start.toNat + count.toNat)) := by
  obtain ⟨b', hmark, hbecomes⟩ := h.exact.markRun hrun.inside hrun.clear
  refine ⟨b', hmark, h.becomes hbecomes fun k => ?_⟩
  rw [h.used_iff, Finset.mem_union, Finset.mem_Ico, or_assoc]

end Tracks

end Bitmap

namespace FreeSpace

variable {a : FreeSpace} {total : UInt32} {taken : Finset Nat} {n : UInt32}

end FreeSpace

namespace Inode

variable {node node' : Inode} {blocks blocks' : Bitmap} {e : Extent} {count total : UInt32}
  {taken : Finset Nat}

structure Releasable (taken : Finset Nat) (node : Inode) : Prop where
  apart : node.extents.inUse.Pairwise Extent.Apart
  taken : ∀ b ∈ node.extents.blockNumbers, b ∈ taken

end Inode

/-- The free space, and the numbers that were taken and not given back. -/
structure Ledger where
  space : FreeSpace
  inodes : Finset Nat
  blocks : Finset Nat

namespace Ledger

/-- A call that succeeds, with what it takes or gives back. What is given back is in the set, out of
range, or the reserved inode. -/
inductive Step : Ledger → Ledger → Prop where
  | allocateInode {l : Ledger} {n : UInt32} {space : FreeSpace}
      (h : l.space.allocateInode = .ok (n, space)) :
      Step l { l with space, inodes := insert n.toNat l.inodes }
  | allocateBlock {l : Ledger} {n : UInt32} {space : FreeSpace}
      (h : l.space.allocateBlock = .ok (n, space)) :
      Step l { l with space, blocks := insert n.toNat l.blocks }
  | freeInode {l : Ledger} {n : UInt32} {space : FreeSpace}
      (hn : n = 0 ∨ l.space.inodes.total ≤ n ∨ n.toNat ∈ l.inodes)
      (h : l.space.freeInode n = .ok space) :
      Step l { l with space, inodes := l.inodes.erase n.toNat }
  | freeBlock {l : Ledger} {n : UInt32} {space : FreeSpace}
      (hn : l.space.blocks.total ≤ n ∨ n.toNat ∈ l.blocks)
      (h : l.space.freeBlock n = .ok space) :
      Step l { l with space, blocks := l.blocks.erase n.toNat }
  | allocateExtent {l : Ledger} {node node' : Inode} {count : UInt32} {e : Extent} {blocks : Bitmap}
      (h : Inode.allocateExtent count (node, l.space.blocks) = .ok e (node', blocks)) :
      Step l { l with
        space := { l.space with blocks }
        blocks := l.blocks ∪ Finset.Ico e.start.toNat e.endBlock }
  | releaseExtents {l : Ledger} {node node' : Inode} {extents : List Extent} {blocks : Bitmap}
      (hnode : node.Releasable l.blocks)
      (h : node.releaseExtents l.space.blocks = .ok (extents, node', blocks)) :
      Step l { l with
        space := { l.space with blocks }
        blocks := l.blocks \ node.extents.blockNumbers.toFinset }

def Run (blockCount inodeCount : UInt32) (inodeStart blockStart : UInt64) : Ledger → Prop :=
  Relation.ReflTransGen Step ⟨.fresh blockCount inodeCount inodeStart blockStart, ∅, ∅⟩

variable {blockCount inodeCount : UInt32} {inodeStart blockStart : UInt64} {l l' : Ledger}

end Ledger

end ExtentVolume
