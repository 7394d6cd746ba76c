import ExtentVolume.Proofs.Extent

namespace ExtentVolume

def startOf (extents : List Extent) (i : Nat) : Nat := blockTotal (extents.take i) * blockSize

structure Covers (extents : List Extent) (offset i : Nat) (e : Extent) : Prop where
  extent : extents[i]? = some e
  start_le : startOf extents i ≤ offset
  lt_end : offset < startOf extents i + e.byteLength

variable {extents more : List Extent} {offset offset' i j : Nat} {e e' : Extent} {p p' : Mapping}

@[simp] theorem startOf_zero (extents : List Extent) : startOf extents 0 = 0 := by
  simp [startOf, blockTotal]

@[simp] theorem startOf_cons_succ (e : Extent) (rest : List Extent) (i : Nat) :
    startOf (e :: rest) (i + 1) = e.byteLength + startOf rest i := by
  simp only [startOf, List.take_succ_cons, blockTotal, Nat.add_mul, Extent.byteLength]

theorem startOf_add_le (he : extents[i]? = some e) (hij : i < j) :
    startOf extents i + e.byteLength ≤ startOf extents j := by
  induction extents generalizing i j with
  | nil => simp at he
  | cons d rest ih =>
    obtain ⟨j, rfl⟩ := Nat.exists_eq_add_one_of_ne_zero (Nat.ne_zero_of_lt hij)
    cases i with
    | zero =>
      obtain rfl : d = e := by simpa using he
      simp
    | succ i =>
      have hrest := ih (by simpa using he) (Nat.lt_of_succ_lt_succ hij)
      simp only [startOf_cons_succ]
      omega

theorem Covers.unique (h : Covers extents offset i e) (h' : Covers extents offset j e') :
    j = i := by
  obtain hlt | heq | hlt := Nat.lt_trichotomy i j
  · have := startOf_add_le h.extent hlt
    have := h.lt_end
    have := h'.start_le
    omega
  · exact heq.symm
  · have := startOf_add_le h'.extent hlt
    have := h'.lt_end
    have := h.start_le
    omega

theorem locate_eq_some_iff : locate extents offset = some p ↔ ∃ i e, Covers extents offset i e ∧
    p = ⟨e.byteStart + (offset - startOf extents i),
      startOf extents i + e.byteLength - offset⟩ := by
  induction extents generalizing offset with
  | nil =>
    simp only [locate, reduceCtorEq, false_iff]
    rintro ⟨i, e, h, -⟩
    simpa using h.extent
  | cons d rest ih =>
    rw [locate]
    constructor
    · intro h
      split at h
      · rename_i hin
        refine ⟨0, d, ⟨rfl, by simp, by simpa using hin⟩, ?_⟩
        simpa using h.symm
      · rename_i hout
        obtain ⟨i, e, ⟨hextent, hstart, hend⟩, rfl⟩ := ih.1 h
        refine ⟨i + 1, e, ⟨by simpa using hextent, ?_, ?_⟩, ?_⟩
        · simp only [startOf_cons_succ]
          omega
        · simp only [startOf_cons_succ]
          omega
        · simp only [startOf_cons_succ, Mapping.mk.injEq]
          omega
    · rintro ⟨i, e, ⟨hextent, hstart, hend⟩, rfl⟩
      cases i with
      | zero =>
        obtain rfl : d = e := by simpa using hextent
        have hin : offset < d.byteLength := by simpa using hend
        simp only [hin, if_true, startOf_zero, Nat.sub_zero, Nat.zero_add]
      | succ i =>
        simp only [startOf_cons_succ] at hstart hend
        have hout : ¬offset < d.byteLength := by omega
        have hrest : Covers rest (offset - d.byteLength) i e :=
          ⟨by simpa using hextent, by omega, by omega⟩
        refine (if_neg hout).trans (ih.2 ⟨i, e, hrest, ?_⟩)
        simp only [startOf_cons_succ, Mapping.mk.injEq]
        omega

theorem locate_append (h : locate extents offset = some p) (more : List Extent) :
    locate (extents ++ more) offset = some p := by
  induction extents generalizing offset with
  | nil => cases h
  | cons e rest ih =>
    simp only [locate, List.cons_append] at h ⊢
    split
    · rename_i hin
      simpa only [hin, if_true] using h
    · rename_i hout
      simp only [hout, if_false] at h
      exact ih h

theorem locate_inj (hapart : extents.Pairwise Extent.Apart) (h : locate extents offset = some p)
    (h' : locate extents offset' = some p') (hp : p.physical = p'.physical) :
    offset = offset' := by
  have haddress := addressAt_of_locate h (locate_available_pos h)
  have haddress' := addressAt_of_locate h' (locate_available_pos h')
  rw [← hp] at haddress'
  exact addressAt_inj (nodup_blockNumbers hapart) haddress haddress'

theorem exists_locate (he : e ∈ extents) {k : Nat} (hk : k < e.byteLength) :
    ∃ offset p, locate extents offset = some p ∧ p.physical = e.byteStart + k := by
  obtain ⟨i, hi⟩ := List.mem_iff_getElem?.1 he
  refine ⟨startOf extents i + k, _, locate_eq_some_iff.2 ⟨i, e, ⟨hi, by omega, by omega⟩, rfl⟩, ?_⟩
  simp

namespace ExtentMap

variable {m m' : ExtentMap} {slot : Fin 4}

/-- The map after pushes of extents and takes, and the extents that were pushed since the last take.
A push that finds no slot leaves the map as it is. -/
inductive Built : List Extent → ExtentMap → Prop where
  | empty : Built [] .empty
  | push {extents : List Extent} {m m' : ExtentMap} {e : Extent} {slot : Fin 4}
      (h : Built extents m) (he : e.isEmpty = false) (hpush : m.push e = .ok (some (slot, m'))) :
      Built (extents ++ [e]) m'
  | take {extents : List Extent} {m : ExtentMap} (h : Built extents m) : Built [] .empty

/-- The extents are in the first slots, and the others are as in the empty map. -/
structure Filled (extents : List Extent) (m : ExtentMap) : Prop where
  slots : m.slots.toList = extents ++ List.replicate (4 - extents.length) .empty
  nonempty : ∀ e ∈ extents, e.isEmpty = false
  stated : m.stated.toNat = extents.length

theorem filled_empty : Filled [] .empty := by
  refine ⟨?_, by simp, rfl⟩
  simp [empty]

theorem inUse_of_slots {rest : List Extent} (hslots : m.slots.toList = extents ++ rest)
    (hextents : ∀ e ∈ extents, e.isEmpty = false) :
    m.inUse = extents ++ rest.filter (!·.isEmpty) := by
  have hkept : extents.filter (!·.isEmpty) = extents := by simpa using hextents
  rw [inUse, hslots, List.filter_append, hkept]

theorem Filled.inUse (h : Filled extents m) : m.inUse = extents := by
  have hrest : (List.replicate (4 - extents.length) Extent.empty).filter (!·.isEmpty) = [] := by
    simp [Extent.isEmpty, Extent.empty]
  rw [inUse_of_slots h.slots h.nonempty, hrest, List.append_nil]

theorem Filled.slot_eq (h : Filled extents m) (i : Fin 4) :
    m.slots.get i = (extents[i.val]?).getD .empty := by
  have hget : m.slots.toList[i.val]? = some (m.slots.get i) := by
    simp [Vector.get]
  rw [h.slots] at hget
  by_cases hi : i.val < extents.length
  · rw [List.getElem?_append_left hi] at hget
    rw [hget, Option.getD_some]
  · rw [List.getElem?_append_right (Nat.not_lt.1 hi)] at hget
    rw [List.getElem?_eq_none (Nat.not_lt.1 hi), Option.getD_none]
    exact List.eq_of_mem_replicate (List.mem_of_getElem? hget)

theorem Filled.freeSlot? (h : Filled extents m) (hlt : extents.length < 4) :
    m.freeSlot? = some ⟨extents.length, hlt⟩ := by
  apply freeSlot?_eq_some_iff.2
  refine ⟨?_, fun j hj => ?_⟩
  · simp [h.slot_eq, Extent.isEmpty, Extent.empty]
  · have hj : j.val < extents.length := hj
    rw [h.slot_eq, List.getElem?_eq_getElem hj, Option.getD_some]
    exact h.nonempty _ (List.getElem_mem hj)

theorem Filled.push_ok (h : Filled extents m) (hlt : extents.length < 4) (e : Extent) :
    ∃ m', m.push e = .ok (some (⟨extents.length, hlt⟩, m')) ∧
      m'.slots.toList = extents ++ e :: List.replicate (3 - extents.length) .empty ∧
      m'.stated.toNat = extents.length + 1 := by
  have hfits : m.stated.toNat + 1 < 2 ^ 32 := by
    rw [h.stated]
    omega
  have hfree : 4 - extents.length = (3 - extents.length) + 1 := by omega
  refine ⟨_, push_free (h.freeSlot? hlt) hfits e, ?_, ?_⟩
  · rw [Vector.toList_set, h.slots, hfree, List.replicate_succ]
    simp
  · rw [toNat_stated_add hfits, h.stated]

theorem Filled.push_full (h : Filled extents m) (hfull : ¬extents.length < 4) (e : Extent) :
    m.push e = .ok none := by
  apply ExtentMap.push_full
  apply freeSlot?_eq_none_iff.2
  intro i
  have hi : i.val < extents.length := by omega
  rw [h.slot_eq, List.getElem?_eq_getElem hi, Option.getD_some]
  exact h.nonempty _ (List.getElem_mem hi)

theorem Filled.of_push (h : Filled extents m) (hpush : m.push e = .ok (some (slot, m'))) :
    m'.slots.toList = extents ++ e :: List.replicate (3 - extents.length) .empty ∧
      m'.stated.toNat = extents.length + 1 := by
  by_cases hlt : extents.length < 4
  · obtain ⟨m₁, hok, hpushed⟩ := h.push_ok hlt e
    obtain ⟨-, rfl⟩ : _ ∧ m₁ = m' := by simpa using hok.symm.trans hpush
    exact hpushed
  · rw [h.push_full hlt e] at hpush
    cases hpush

theorem Filled.push (h : Filled extents m) (he : e.isEmpty = false)
    (hpush : m.push e = .ok (some (slot, m'))) : Filled (extents ++ [e]) m' := by
  obtain ⟨hslots, hstated⟩ := h.of_push hpush
  refine ⟨?_, ?_, by simpa using hstated⟩
  · have hfree : 4 - (extents ++ [e]).length = 3 - extents.length := by
      rw [List.length_append, List.length_singleton]
      omega
    rw [hslots, hfree, List.append_assoc, List.singleton_append]
  · intro d hd
    obtain hd | hd := List.mem_append.1 hd
    · exact h.nonempty d hd
    · obtain rfl := List.mem_singleton.1 hd
      exact he

theorem Built.filled (h : Built extents m) : Filled extents m := by
  induction h with
  | empty => exact filled_empty
  | push _ he hpush ih => exact ih.push he hpush
  | take => exact filled_empty

theorem Filled.locate_push (h : Filled extents m) (hpush : m.push e = .ok (some (slot, m')))
    (hoffset : offset < m.capacity) : m'.locate offset = m.locate offset := by
  have hpushed := inUse_of_slots (h.of_push hpush).1 h.nonempty
  cases hlocate : m.locate offset with
  | none =>
    rw [capacity_eq] at hoffset
    exact absurd hoffset (Nat.not_lt.2 (locate_eq_none_iff.1 hlocate))
  | some p =>
    rw [locate, h.inUse] at hlocate
    rw [locate, hpushed]
    exact locate_append hlocate _

/-- The map takes the extents for a file, in the order of the list. -/
structure LaysOut (extents : List Extent) (m : ExtentMap) : Prop where
  filled : Filled extents m
  push : ∀ e, e.isEmpty = false →
    if h : extents.length < 4 then
      ∃ m', m.push e = .ok (some (⟨extents.length, h⟩, m')) ∧ Built (extents ++ [e]) m'
    else m.push e = .ok none
  isSome_iff : ∀ offset, (m.locate offset).isSome ↔ offset < m.capacity
  located : ∀ offset p, m.locate offset = some p → ∃ i e, Covers extents offset i e ∧
    (∀ j e', Covers extents offset j e' → j = i) ∧
    p.physical = e.byteStart + (offset - startOf extents i) ∧
    p.available = startOf extents i + e.byteLength - offset ∧ 0 < p.available
  kept : ∀ e slot m', m.push e = .ok (some (slot, m')) →
    ∀ offset < m.capacity, m'.locate offset = m.locate offset
  injective : extents.Pairwise Extent.Apart → ∀ offset offset' p p', m.locate offset = some p →
    m.locate offset' = some p' → p.physical = p'.physical → offset = offset'
  surjective : ∀ e ∈ extents, ∀ k < e.byteLength, ∃ offset p, m.locate offset = some p ∧
    p.physical = e.byteStart + k

/-- Whatever extents with blocks are pushed and taken, those that were pushed since the last take
are in the first slots and lie end to end in the file. -/
theorem laysOut_of_built (h : Built extents m) : LaysOut extents m := by
  have hfilled := h.filled
  have hlocate : ∀ offset, m.locate offset = ExtentVolume.locate extents offset := by
    intro offset
    rw [locate, hfilled.inUse]
  constructor
  case filled => exact hfilled
  case push =>
    intro e he
    split
    · rename_i hlt
      obtain ⟨m', hpush, -⟩ := hfilled.push_ok hlt e
      exact ⟨m', hpush, .push h he hpush⟩
    · rename_i hfull
      exact hfilled.push_full hfull e
  case isSome_iff =>
    intro offset
    rw [capacity_eq, ← Nat.not_le, Option.isSome_iff_ne_none]
    exact not_congr locate_eq_none_iff
  case located =>
    intro offset p hp
    rw [hlocate] at hp
    have hpos := locate_available_pos hp
    obtain ⟨i, e, hcovers, rfl⟩ := locate_eq_some_iff.1 hp
    exact ⟨i, e, hcovers, fun j e' h' => hcovers.unique h', rfl, rfl, hpos⟩
  case kept => exact fun e slot m' hpush offset hoffset => hfilled.locate_push hpush hoffset
  case injective =>
    intro hapart offset offset' p p' hp hp'
    rw [hlocate] at hp hp'
    exact locate_inj hapart hp hp'
  case surjective =>
    intro e he k hk
    simp only [hlocate]
    exact exists_locate he hk

/-- The second extent lies before the first in the area and behind it in the file. -/
theorem laysOut_second_before_first :
    ∃ m, Built [⟨40, 1⟩, ⟨3, 2⟩] m ∧ LaysOut [⟨40, 1⟩, ⟨3, 2⟩] m ∧
      m.locate 4101 = some ⟨12293, 8187⟩ := by
  have hfirst : push .empty ⟨40, 1⟩ =
      .ok (some (0, ⟨#v[⟨40, 1⟩, .empty, .empty, .empty], 1⟩)) := rfl
  have hsecond : push ⟨#v[⟨40, 1⟩, .empty, .empty, .empty], 1⟩ ⟨3, 2⟩ =
      .ok (some (1, ⟨#v[⟨40, 1⟩, ⟨3, 2⟩, .empty, .empty], 2⟩)) := rfl
  have htaken : Built [] .empty := .take (.push .empty rfl hfirst)
  have hbuilt := (htaken.push rfl hfirst).push rfl hsecond
  exact ⟨_, hbuilt, laysOut_of_built hbuilt, by decide⟩

end ExtentMap

end ExtentVolume
