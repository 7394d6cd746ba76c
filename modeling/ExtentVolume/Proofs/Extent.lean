import Mathlib.Data.List.Nodup
import ExtentVolume.OpenInode
import ExtentVolume.Proofs.Outcome

namespace ExtentVolume

def blockNumbers (extents : List Extent) : List Nat :=
  extents.flatMap fun e => List.range' e.start.toNat e.count.toNat

def Extent.Has (e : Extent) (b : Nat) : Prop := e.start.toNat ≤ b ∧ b < e.endBlock

def Extent.Apart (e e' : Extent) : Prop := ∀ b, e.Has b → ¬e'.Has b

/-- The address in the data area of an offset in a file. -/
def addressAt (extents : List Extent) (offset : Nat) : Option Nat :=
  (blockNumbers extents)[offset / blockSize]?.map (· * blockSize + offset % blockSize)

@[simp] theorem blockNumbers_nil : blockNumbers [] = [] := rfl

@[simp] theorem blockNumbers_cons (e : Extent) (rest : List Extent) :
    blockNumbers (e :: rest) = List.range' e.start.toNat e.count.toNat ++ blockNumbers rest := rfl

@[simp] theorem blockNumbers_append (extents more : List Extent) :
    blockNumbers (extents ++ more) = blockNumbers extents ++ blockNumbers more :=
  List.flatMap_append

theorem mem_blockNumbers {extents : List Extent} {b : Nat} :
    b ∈ blockNumbers extents ↔ ∃ e ∈ extents, e.start.toNat ≤ b ∧ b < e.endBlock := by
  simp [blockNumbers, List.mem_range'_1, Extent.endBlock]

theorem nodup_blockNumbers {extents : List Extent} (h : extents.Pairwise Extent.Apart) :
    (blockNumbers extents).Nodup := by
  apply List.nodup_flatMap.2
  refine ⟨fun e _ => List.nodup_range', h.imp fun {e e'} hapart b hb hb' => ?_⟩
  rw [List.mem_range'_1] at hb hb'
  exact hapart b hb hb'

theorem length_blockNumbers (extents : List Extent) :
    (blockNumbers extents).length = blockTotal extents := by
  induction extents with
  | nil => rfl
  | cons e rest ih =>
    rw [blockNumbers_cons, List.length_append, List.length_range', ih, blockTotal]

theorem getElem?_blockNumbers_cons (e : Extent) (rest : List Extent) (k : Nat) :
    (blockNumbers (e :: rest))[k]? =
      if k < e.count.toNat then some (e.start.toNat + k)
      else (blockNumbers rest)[k - e.count.toNat]? := by
  rw [blockNumbers_cons]
  split
  · rename_i h
    rw [List.getElem?_append_left (by simpa using h)]
    simp [h]
  · rename_i h
    rw [List.getElem?_append_right (by simpa using h)]
    simp

theorem blockAt_eq (extents : List Extent) (number : Nat) :
    blockAt extents number = (blockNumbers extents)[number]? := by
  induction extents generalizing number with
  | nil => simp [blockAt]
  | cons e rest ih =>
    rw [blockAt, getElem?_blockNumbers_cons, ih]

theorem Extent.byteEnd_lt (e : Extent) : e.byteStart + e.byteLength < 2 ^ 46 := by
  have hstart := e.start.toNat_lt
  have hcount := e.count.toNat_lt
  simp only [byteStart, byteLength, blockSize]
  omega

theorem addressAt_lt {extents : List Extent} {offset address : Nat}
    (h : addressAt extents offset = some address) :
    offset < (blockNumbers extents).length * blockSize := by
  obtain ⟨b, hb, -⟩ := Option.map_eq_some_iff.1 h
  have hlt := (List.getElem?_eq_some_iff.1 hb).1
  rw [Nat.div_lt_iff_lt_mul (by decide)] at hlt
  exact hlt

theorem exists_addressAt {extents : List Extent} {offset : Nat}
    (h : offset < (blockNumbers extents).length * blockSize) :
    ∃ address, addressAt extents offset = some address := by
  rw [← Nat.div_lt_iff_lt_mul (by decide)] at h
  exact ⟨_, by rw [addressAt, List.getElem?_eq_getElem h, Option.map_some]⟩

theorem addressAt_eq_none {extents : List Extent} {offset : Nat}
    (h : (blockNumbers extents).length * blockSize ≤ offset) : addressAt extents offset = none := by
  cases ha : addressAt extents offset with
  | none => rfl
  | some address =>
    have := addressAt_lt ha
    omega

/-- An address lies in a block of the file, as far from its start as the offset from a block's. -/
theorem addressAt_block {extents : List Extent} {offset address : Nat}
    (h : addressAt extents offset = some address) :
    (blockNumbers extents)[offset / blockSize]? = some (address / blockSize) ∧
      address % blockSize = offset % blockSize := by
  obtain ⟨b, hb, rfl⟩ := Option.map_eq_some_iff.1 h
  have hmod : offset % blockSize < blockSize := Nat.mod_lt _ (by decide)
  have hdiv : (b * blockSize + offset % blockSize) / blockSize = b := by
    rw [Nat.mul_comm, Nat.mul_add_div (by decide), Nat.div_eq_of_lt hmod, Nat.add_zero]
  refine ⟨by rw [hdiv, hb], ?_⟩
  rw [Nat.mul_comm, Nat.mul_add_mod, Nat.mod_mod]

theorem addressAt_add {extents : List Extent} {offset address i : Nat}
    (h : addressAt extents offset = some address) (hi : offset % blockSize + i < blockSize) :
    addressAt extents (offset + i) = some (address + i) := by
  obtain ⟨b, hb, rfl⟩ := Option.map_eq_some_iff.1 h
  have hdiv : (offset + i) / blockSize = offset / blockSize := by
    simp only [blockSize] at hi ⊢
    omega
  have hmod : (offset + i) % blockSize = offset % blockSize + i := by
    simp only [blockSize] at hi ⊢
    omega
  rw [addressAt, hdiv, hmod, hb, Option.map_some, Nat.add_assoc]

theorem addressAt_mem {extents : List Extent} {offset address : Nat}
    (h : addressAt extents offset = some address) : address / blockSize ∈ blockNumbers extents :=
  List.mem_of_getElem? (addressAt_block h).1

theorem addressAt_inj {extents : List Extent} (hnodup : (blockNumbers extents).Nodup)
    {i j address : Nat} (hi : addressAt extents i = some address)
    (hj : addressAt extents j = some address) : i = j := by
  obtain ⟨hib, him⟩ := addressAt_block hi
  obtain ⟨hjb, hjm⟩ := addressAt_block hj
  have hlt := (List.getElem?_eq_some_iff.1 hib).1
  have hdiv := (List.getElem?_inj hlt hnodup).1 (hib.trans hjb.symm)
  rw [← Nat.div_add_mod i blockSize, ← Nat.div_add_mod j blockSize, hdiv, ← him, ← hjm]

theorem addressAt_append {extents : List Extent} {offset address : Nat}
    (h : addressAt extents offset = some address) (more : List Extent) :
    addressAt (extents ++ more) offset = some address := by
  obtain ⟨b, hb, rfl⟩ := Option.map_eq_some_iff.1 h
  have hlt := (List.getElem?_eq_some_iff.1 hb).1
  rw [addressAt, blockNumbers_append, List.getElem?_append_left hlt, hb, Option.map_some]

theorem addressAt_append_right {extents more : List Extent} {offset : Nat}
    (h : (blockNumbers extents).length * blockSize ≤ offset) :
    addressAt (extents ++ more) offset =
      addressAt more (offset - (blockNumbers extents).length * blockSize) := by
  have hlen : (blockNumbers extents).length ≤ offset / blockSize := by
    rwa [Nat.le_div_iff_mul_le (by decide)]
  have hdiv : (offset - (blockNumbers extents).length * blockSize) / blockSize =
      offset / blockSize - (blockNumbers extents).length := by
    simp only [blockSize] at h ⊢
    omega
  have hmod : (offset - (blockNumbers extents).length * blockSize) % blockSize =
      offset % blockSize := by
    simp only [blockSize] at h ⊢
    omega
  rw [addressAt, addressAt, blockNumbers_append, List.getElem?_append_right hlen, hdiv, hmod]

/-- An offset that is found has the address of its block, and so have the offsets behind it to the
end of the extent. -/
theorem addressAt_of_locate {extents : List Extent} {offset : Nat} {m : Mapping}
    (h : locate extents offset = some m) {j : Nat} (hj : j < m.available) :
    addressAt extents (offset + j) = some (m.physical + j) := by
  induction extents generalizing offset with
  | nil => simp [locate] at h
  | cons e rest ih =>
    have hbs : 0 < blockSize := by decide
    rw [locate] at h
    split at h
    · rename_i hin
      obtain rfl := Option.some.inj h
      simp only [Extent.byteLength, Extent.byteStart] at hj hin ⊢
      have hlt : (offset + j) / blockSize < e.count.toNat := by
        rw [Nat.div_lt_iff_lt_mul hbs]
        omega
      rw [addressAt, getElem?_blockNumbers_cons, if_pos hlt, Option.map_some]
      simp only [blockSize, Option.some.injEq]
      omega
    · rename_i hout
      have hlocate := ih h
      simp only [Extent.byteLength] at hout hlocate
      have hnot : ¬(offset + j) / blockSize < e.count.toNat := by
        rw [Nat.div_lt_iff_lt_mul hbs]
        omega
      have hdiv : (offset - e.count.toNat * blockSize + j) / blockSize =
          (offset + j) / blockSize - e.count.toNat := by
        simp only [blockSize] at hout ⊢
        omega
      have hmod : (offset - e.count.toNat * blockSize + j) % blockSize =
          (offset + j) % blockSize := by
        simp only [blockSize] at hout ⊢
        omega
      rw [addressAt, hdiv, hmod] at hlocate
      rw [addressAt, getElem?_blockNumbers_cons, if_neg hnot]
      exact hlocate

theorem locate_eq_none_iff {extents : List Extent} {offset : Nat} :
    locate extents offset = none ↔ (blockNumbers extents).length * blockSize ≤ offset := by
  induction extents generalizing offset with
  | nil => simp [locate]
  | cons e rest ih =>
    rw [locate]
    simp only [blockNumbers_cons, List.length_append, List.length_range', Nat.add_mul]
    split
    · rename_i h
      simp only [Extent.byteLength] at h
      constructor
      · intro hnone
        cases hnone
      · intro hle
        omega
    · rename_i h
      rw [ih]
      simp only [Extent.byteLength] at h ⊢
      omega

namespace ExtentMap

def blockNumbers (m : ExtentMap) : List Nat := ExtentVolume.blockNumbers m.inUse

/-- The slots in use stand before those that are free. -/
def Packed (m : ExtentMap) : Prop :=
  m.slots.toList.Pairwise fun a b => a.isEmpty = true → b.isEmpty = true

def Counted (m : ExtentMap) : Prop := m.stated.toNat = m.inUse.length

theorem packed_empty : Packed .empty := by
  simp [Packed, empty]

theorem counted_empty : Counted .empty := rfl

theorem freeSlot?_eq_none_iff {m : ExtentMap} :
    m.freeSlot? = none ↔ ∀ i : Fin 4, (m.slots.get i).isEmpty = false := by
  simp [freeSlot?, Vector.get]

theorem freeSlot?_eq_some_iff {m : ExtentMap} {i : Fin 4} :
    m.freeSlot? = some i ↔
      (m.slots.get i).isEmpty = true ∧ ∀ j < i, (m.slots.get j).isEmpty = false := by
  simp only [freeSlot?, List.find?_eq_some_iff_getElem, List.getElem_finRange]
  constructor
  · rintro ⟨hempty, k, hk, rfl, hbefore⟩
    exact ⟨hempty, fun j hj => by simpa [Vector.get] using hbefore j hj⟩
  · rintro ⟨hempty, hbefore⟩
    exact ⟨hempty, i, by simp, rfl, fun j hj => by
      simpa [Vector.get] using hbefore ⟨j, by omega⟩ hj⟩

theorem length_inUse_le (m : ExtentMap) : m.inUse.length ≤ 4 := by
  have h := List.length_filter_le (fun e : Extent => !e.isEmpty) m.slots.toList
  rw [Vector.length_toList] at h
  exact h

theorem blockNumbers_pos_of_mem {m : ExtentMap} {e : Extent} (h : e ∈ m.inUse) :
    0 < e.count.toNat := by
  have hne := (List.mem_filter.1 h).2
  simp only [Extent.isEmpty, Bool.not_eq_true', beq_eq_false_iff_ne] at hne
  exact UInt32.lt_iff_toNat_lt.1 (UInt32.pos_iff_ne_zero.2 hne)

theorem capacity_eq (m : ExtentMap) : m.capacity = m.blockNumbers.length * blockSize := by
  rw [capacity, blockNumbers]
  induction m.inUse with
  | nil => rfl
  | cons e rest ih =>
    rw [List.foldr_cons, ih, blockNumbers_cons, List.length_append, List.length_range',
      Nat.add_mul, Extent.byteLength]

theorem blockTotal_inUse_le (m : ExtentMap) : blockTotal m.inUse ≤ 2 ^ 34 := by
  have hlength := m.length_inUse_le
  have htotal : blockTotal m.inUse ≤ m.inUse.length * 2 ^ 32 := by
    induction m.inUse with
    | nil => exact Nat.le_refl 0
    | cons e rest ih =>
      have hcount := e.count.toNat_lt
      rw [blockTotal, List.length_cons]
      omega
  omega

theorem toNat_totalBlocks (m : ExtentMap) :
    m.totalBlocks.toNat = min m.blockNumbers.length (2 ^ 32 - 1) := by
  have hlt : min (blockTotal m.inUse) (UInt32.size - 1) < UInt32.size := by
    simp only [UInt32.size]
    omega
  rw [totalBlocks, blockNumbers, length_blockNumbers, UInt32.toNat_ofNat_of_lt' hlt]
  rfl

end ExtentMap

theorem filter_set_perm {α : Type} {p : α → Bool} {l : List α} {i : Nat} {a : α}
    (hi : i < l.length) (hp : p l[i] = false) (ha : p a = true) :
    ((l.set i a).filter p).Perm (a :: l.filter p) := by
  induction l generalizing i with
  | nil => simp at hi
  | cons x t ih =>
    cases i with
    | zero =>
      have hx : p x = false := hp
      simp [ha, hx]
    | succ i =>
      have ht := ih (by simpa using hi) (by simpa using hp)
      by_cases hx : p x = true
      · rw [List.set_cons_succ, List.filter_cons_of_pos hx, List.filter_cons_of_pos hx]
        exact (ht.cons x).trans (.swap a x _)
      · rw [List.set_cons_succ, List.filter_cons_of_neg hx, List.filter_cons_of_neg hx]
        exact ht

/-- Where all that is kept comes first, replacing the first element that is dropped appends to what
is kept. -/
theorem filter_set_packed {α : Type} {p : α → Bool} {l : List α} {i : Nat} {a : α}
    (hi : i < l.length) (hp : p l[i] = false) (ha : p a = true)
    (hpacked : l.Pairwise fun x y => p x = false → p y = false)
    (hfirst : ∀ j < i, ∀ x, l[j]? = some x → p x = true) :
    (l.set i a).filter p = l.filter p ++ [a] ∧
      (l.set i a).Pairwise fun x y => p x = false → p y = false := by
  induction l generalizing i with
  | nil => simp at hi
  | cons x t ih =>
    obtain ⟨hx, ht⟩ := List.pairwise_cons.1 hpacked
    cases i with
    | zero =>
      have hxp : p x = false := hp
      have hnone : t.filter p = [] := by
        rw [List.filter_eq_nil_iff]
        intro y hy
        simp [hx y hy hxp]
      refine ⟨by simp [ha, hxp, hnone], ?_⟩
      rw [List.set_cons_zero, List.pairwise_cons]
      refine ⟨fun y _ h => ?_, ht⟩
      rw [ha] at h
      cases h
    | succ i =>
      have hxp : p x = true := hfirst 0 (by omega) x rfl
      obtain ⟨hfilter, hpair⟩ := ih (by simpa using hi) (by simpa using hp) ht
        (fun j hj a ha => hfirst (j + 1) (by omega) a (by simpa using ha))
      refine ⟨?_, ?_⟩
      · rw [List.set_cons_succ, List.filter_cons_of_pos hxp, List.filter_cons_of_pos hxp, hfilter]
        rfl
      · rw [List.set_cons_succ, List.pairwise_cons]
        refine ⟨fun y _ h => ?_, hpair⟩
        rw [hxp] at h
        cases h

namespace ExtentMap

theorem push_full {m : ExtentMap} (h : m.freeSlot? = none) (e : Extent) : m.push e = .ok none := by
  simp only [push, h, pure, Except.pure]

theorem push_free {m : ExtentMap} {slot : Fin 4} (h : m.freeSlot? = some slot)
    (hfits : m.stated.toNat + 1 < 2 ^ 32) (e : Extent) :
    m.push e = .ok (some (slot, ⟨m.slots.set slot e slot.isLt, m.stated + 1⟩)) := by
  have hword : word32 (m.stated.toNat + 1) = .ok (m.stated + 1) := by
    rw [word32_ok hfits, UInt32.ofNat_add, UInt32.ofNat_toNat]
    rfl
  simp only [push, h, hword, bind, Except.bind, pure, Except.pure]

theorem toNat_stated_add {m : ExtentMap} (hfits : m.stated.toNat + 1 < 2 ^ 32) :
    (m.stated + 1).toNat = m.stated.toNat + 1 := by
  rw [UInt32.toNat_add]
  exact Nat.mod_eq_of_lt hfits

/-- The map `m'` holds the extent besides those of `m`, and behind them if the slots are packed. -/
structure Pushed (m : ExtentMap) (e : Extent) (m' : ExtentMap) : Prop where
  counted : m'.Counted
  perm : m'.inUse.Perm (e :: m.inUse)
  packed : m.Packed → m'.inUse = m.inUse ++ [e] ∧ m'.Packed

theorem push_eq {m : ExtentMap} (hm : m.Counted) {e : Extent} (he : e.isEmpty = false) :
    (m.inUse.length = 4 ∧ m.push e = .ok none) ∨
      ∃ i m', m.push e = .ok (some (i, m')) ∧ m.Pushed e m' := by
  cases hf : m.freeSlot? with
  | none =>
    left
    refine ⟨?_, push_full hf e⟩
    have hall : m.inUse = m.slots.toList := by
      rw [inUse, List.filter_eq_self]
      intro x hx
      obtain ⟨i, hi, rfl⟩ := List.mem_iff_getElem.1 hx
      have hused := freeSlot?_eq_none_iff.1 hf ⟨i, by simpa using hi⟩
      simpa [Vector.get] using hused
    rw [hall, Vector.length_toList]
  | some i =>
    right
    have hlen : i.val < m.slots.toList.length := by simp
    obtain ⟨hempty, hbefore⟩ := freeSlot?_eq_some_iff.1 hf
    have hp : (!(m.slots.toList[i.val]).isEmpty) = false := by
      simpa [Vector.get] using hempty
    have hkept : (!e.isEmpty) = true := by simp [he]
    have hperm := filter_set_perm (p := fun e : Extent => !e.isEmpty) hlen hp hkept
    have hlt : m.stated.toNat + 1 < 2 ^ 32 := by
      have := m.length_inUse_le
      rw [hm]
      omega
    refine ⟨i, _, push_free hf hlt e, ?_, ?_, ?_⟩
    · have hlength := hperm.length_eq
      simp only [Counted, inUse, Vector.toList_set]
      rw [hlength, toNat_stated_add hlt, hm]
      rfl
    · simpa only [inUse, Vector.toList_set] using hperm
    · intro hpacked
      have hfirst : ∀ j < i.val, ∀ x, m.slots.toList[j]? = some x → (!x.isEmpty) = true := by
        intro j hj x hx
        obtain ⟨hlt, rfl⟩ := List.getElem?_eq_some_iff.1 hx
        simpa [Vector.get] using hbefore ⟨j, by omega⟩ hj
      have h := filter_set_packed (p := fun e : Extent => !e.isEmpty) hlen hp hkept
        (by simpa [Packed] using hpacked) hfirst
      refine ⟨by simpa only [inUse, Vector.toList_set] using h.1, ?_⟩
      simpa [Packed, Vector.toList_set] using h.2

end ExtentMap

end ExtentVolume
