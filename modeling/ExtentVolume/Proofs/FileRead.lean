import ExtentVolume.Proofs.File

namespace ExtentVolume

variable {data : BlockCache} {extents : List Extent} {buffer bytes more : List UInt8}
  {done length offset count : Nat}

theorem addressAt_eq_locate (extents : List Extent) (offset : Nat) :
    addressAt extents offset = (locate extents offset).map (·.physical) := by
  cases h : locate extents offset with
  | none =>
    apply Option.eq_none_iff_forall_ne_some.2
    intro address haddress
    exact Nat.not_lt.2 (locate_eq_none_iff.1 h) (addressAt_lt haddress)
  | some p => exact addressAt_of_locate h (locate_available_pos h)

def overwritten (buffer : List UInt8) (done : Nat) (bytes : List UInt8) : List UInt8 :=
  buffer.take done ++ bytes ++ buffer.drop (done + bytes.length)

@[simp] theorem overwritten_nil (buffer : List UInt8) (done : Nat) :
    overwritten buffer done [] = buffer := by
  simp [overwritten]

theorem length_overwritten (h : done + bytes.length ≤ buffer.length) :
    (overwritten buffer done bytes).length = buffer.length := by
  simp only [overwritten, List.length_append, List.length_take, List.length_drop]
  omega

theorem getElem?_overwritten (h : done + bytes.length ≤ buffer.length) (i : Nat) :
    (overwritten buffer done bytes)[i]? =
      if done ≤ i ∧ i < done + bytes.length then bytes[i - done]? else buffer[i]? := by
  have hfront : (buffer.take done).length = done := by
    rw [List.length_take]
    omega
  rw [overwritten, List.append_assoc]
  by_cases hbefore : i < done
  · rw [List.getElem?_append_left (by omega), if_neg (by omega), List.getElem?_take_of_lt hbefore]
  rw [List.getElem?_append_right (by omega), hfront]
  by_cases hin : i < done + bytes.length
  · rw [List.getElem?_append_left (by omega), if_pos (by omega)]
  · rw [List.getElem?_append_right (by omega), if_neg (by omega), List.getElem?_drop]
    congr 1
    omega

theorem overwritten_overwritten (h : done + bytes.length ≤ buffer.length) (more : List UInt8) :
    overwritten (overwritten buffer done bytes) (done + bytes.length) more =
      overwritten buffer done (bytes ++ more) := by
  have hfront : (buffer.take done ++ bytes).length = done + bytes.length := by
    rw [List.length_append, List.length_take]
    omega
  have hkept : (overwritten buffer done bytes).take (done + bytes.length) =
      buffer.take done ++ bytes := List.take_left' hfront
  have hrest : (overwritten buffer done bytes).drop (done + bytes.length + more.length) =
      buffer.drop (done + (bytes ++ more).length) := by
    rw [← List.drop_drop, overwritten, List.drop_left' hfront, List.drop_drop, List.length_append,
      Nat.add_assoc]
  simp only [overwritten] at hkept hrest ⊢
  rw [hkept, hrest, List.append_assoc (buffer.take done)]

def Delivers (x : Fallible VolumeError (List UInt8)) (done : Nat)
    (copy : Action VolumeError (List UInt8) Nat) (buffer : List UInt8) : Prop :=
  match x with
  | .ok bytes => copy buffer = .ok (done + bytes.length) (overwritten buffer done bytes)
  | .error stop => ∃ buffer', copy buffer = .error stop buffer'

theorem Delivers.prepend {x : Fallible VolumeError (List UInt8)}
    {copy : Action VolumeError (List UInt8) Nat} (hfits : done + bytes.length ≤ buffer.length)
    (h : Delivers x (done + bytes.length) copy (overwritten buffer done bytes)) :
    Delivers (do return bytes ++ (← x)) done (do modify (overwritten · done bytes); copy)
      buffer := by
  cases x with
  | error stop => exact h
  | ok more =>
    have hrun : copy (overwritten buffer done bytes) =
        .ok (done + bytes.length + more.length) _ := h
    rw [overwritten_overwritten hfits, Nat.add_assoc, ← List.length_append] at hrun
    exact hrun

namespace Inode

theorem fillFrom_delivers (data : BlockCache) (extents : List Extent) {start position : Nat}
    (hposition : start ≤ position ∨ done = length) (hdone : done ≤ length)
    (hlength : length ≤ buffer.length) :
    Delivers (readExtents data extents (position - start) (length - done)) done
      (fillFrom data (withOffsets start extents) position done length) buffer := by
  induction extents generalizing start position done buffer with
  | nil => exact congrArg (EStateM.Result.ok done) (overwritten_nil buffer done).symm
  | cons e rest ih =>
    rw [withOffsets, fillFrom, readExtents]
    by_cases hcomplete : done = length
    · rw [if_pos hcomplete, if_pos (by omega)]
      exact congrArg (EStateM.Result.ok done) (overwritten_nil buffer done).symm
    have hposition : start ≤ position := hposition.resolve_right hcomplete
    rw [if_neg hcomplete, if_neg (by omega)]
    by_cases hin : position - start < e.byteLength
    · have hhere : start + e.byteLength - position = e.byteLength - (position - start) := by omega
      rw [if_pos hin, if_pos ⟨hposition, by omega⟩, hhere]
      generalize hcount : min (length - done) (e.byteLength - (position - start)) = here
      have hend := e.byteEnd_lt
      have hread := data.read_eq (show e.byteStart + (position - start) + here < 2 ^ 64 by omega)
      dsimp only
      rw [hread]
      split
      · exact ⟨buffer, rfl⟩
      · generalize hbytes : (List.range here).map _ = bytes
        obtain rfl : bytes.length = here := by
          rw [← hbytes, List.length_map, List.length_range]
        have hfits : done + bytes.length ≤ buffer.length := by omega
        apply Delivers.prepend hfits
        -- What is left starts at the next extent, or nothing is left.
        have hstart : start + e.byteLength ≤ position + bytes.length ∨
            done + bytes.length = length := by
          omega
        have hnext : position + bytes.length - (start + e.byteLength) = 0 := by omega
        have hleft : length - (done + bytes.length) = length - done - bytes.length := by omega
        have hlength' : length ≤ (overwritten buffer done bytes).length := by
          rwa [length_overwritten hfits]
        simpa only [hnext, hleft] using ih hstart (by omega) hlength'
    · have hsub : position - start - e.byteLength = position - (start + e.byteLength) := by omega
      rw [if_neg hin, if_neg (by omega), hsub]
      exact ih (.inl (by omega)) hdone hlength

theorem readInto_delivers (node : Inode) (data : BlockCache) (offset : Nat)
    (buffer : List UInt8) :
    Delivers (node.read data offset buffer.length) 0 (node.readInto data offset) buffer := by
  have hrun : Delivers (node.read data offset buffer.length) 0
      (if node.extents.isEmpty ∨ node.size.toNat ≤ offset then return 0
        else fillFrom data node.extents.withOffsets offset 0
          (min buffer.length (node.size.toNat - offset))) buffer := by
    rw [read]
    split
    · exact congrArg (EStateM.Result.ok 0) (overwritten_nil buffer 0).symm
    · exact fillFrom_delivers data node.extents.inUse (.inl (Nat.zero_le offset)) (Nat.zero_le _)
        (Nat.min_le_left _ _)
  exact hrun

end Inode

def ExtentMap.MapsInto (m : ExtentMap) (data : BlockCache) (offset count : Nat) : Prop :=
  ∀ i < count, ∃ p, m.locate (offset + i) = some p ∧ p.physical < data.size

theorem ExtentMap.inArea_iff {m : ExtentMap} :
    InArea data m.inUse offset count ↔ m.MapsInto data offset count := by
  simp [InArea, MapsInto, ExtentMap.locate, addressAt_eq_locate]

namespace Inode

variable {node : Inode}

/-- How many bytes there are to read: neither behind the end of the file nor behind its extents. -/
def readable (node : Inode) (offset length : Nat) : Nat :=
  min (min length (node.size.toNat - offset)) (node.extents.capacity - offset)

theorem read_ensures_mapped (hcounted : node.extents.Counted) (data : BlockCache)
    (offset length : Nat) :
    (node.read data offset length).Ensures
      (fun bytes => node.extents.MapsInto data offset (node.readable offset length) ∧
        bytes = (List.range (node.readable offset length)).map
          fun i => byteIn data node.extents.inUse (offset + i))
      (fun e => ¬node.extents.MapsInto data offset (node.readable offset length) ∧
        ∃ f, e = .fault f) False := by
  rw [read]
  split
  · rename_i hnothing
    have hzero : node.readable offset length = 0 := by
      obtain hempty | hend := hnothing
      · have hstated : node.extents.inUse.length = 0 := by
          rw [← hcounted, eq_of_beq hempty, UInt32.toNat_zero]
        rw [readable, ExtentMap.capacity, List.length_eq_zero_iff.1 hstated, List.foldr_nil,
          Nat.zero_sub, Nat.min_zero]
      · rw [readable]
        omega
    rw [hzero]
    exact ⟨fun i hi => absurd hi (Nat.not_lt_zero i), rfl⟩
  · have hread := readExtents_ensures data node.extents.inUse offset
      (min length (node.size.toNat - offset))
    simpa only [ExtentMap.inArea_iff, readable, ExtentMap.capacity_eq, ExtentMap.blockNumbers]
      using hread

/-- A read into a buffer gives, byte by byte, what the map finds in the data area, and leaves the
rest of the buffer alone; it reports a fault exactly where a byte is not in the area. -/
theorem readInto_agrees_with_map (hcounted : node.extents.Counted) (data : BlockCache)
    (offset : Nat) (buffer : List UInt8) :
    (node.extents.MapsInto data offset (node.readable offset buffer.length) →
      ∃ buffer', node.readInto data offset buffer =
          .ok (node.readable offset buffer.length) buffer' ∧
        buffer'.length = buffer.length ∧
        (∀ i < node.readable offset buffer.length, ∀ p, node.extents.locate (offset + i) = some p →
          buffer'[i]? = some (data.byteAt p.physical)) ∧
        ∀ i, node.readable offset buffer.length ≤ i → buffer'[i]? = buffer[i]?) ∧
    (¬node.extents.MapsInto data offset (node.readable offset buffer.length) →
      ∃ f buffer', node.readInto data offset buffer = .error (.failure (.fault f)) buffer') := by
  have hread := read_ensures_mapped hcounted data offset buffer.length
  have hdelivers := node.readInto_delivers data offset buffer
  constructor
  · intro hin
    obtain ⟨bytes, hok, -, hbytes⟩ :=
      (hread.mono (fun _ h => h) (fun _ h => h.1 hin) id).exists_ok
    have hlength : bytes.length = node.readable offset buffer.length := by
      rw [hbytes, List.length_map, List.length_range]
    have hfits : 0 + bytes.length ≤ buffer.length := by
      rw [hlength, readable]
      omega
    rw [hok, Delivers, Nat.zero_add, hlength] at hdelivers
    refine ⟨overwritten buffer 0 bytes, hdelivers, length_overwritten hfits, ?_, ?_⟩
    · intro i hi p hp
      have haddress : addressAt node.extents.inUse (offset + i) = some p.physical :=
        addressAt_of_locate hp (locate_available_pos hp)
      rw [getElem?_overwritten hfits, if_pos (by omega), hbytes, Nat.sub_zero, List.getElem?_map,
        List.getElem?_range hi, Option.map_some, byteIn_of_some haddress]
    · intro i hi
      rw [getElem?_overwritten hfits, if_neg (by omega)]
  · intro hout
    match hstop : node.read data offset buffer.length with
    | .ok bytes =>
      rw [hstop] at hread
      exact absurd hread.1 hout
    | .error (.failure e) =>
      rw [hstop] at hread hdelivers
      obtain ⟨-, f, rfl⟩ := hread
      exact ⟨f, hdelivers⟩
    | .error (.trap t) =>
      rw [hstop] at hread
      exact hread.elim

/-- The second extent is not in the area. What is read before it is read all the same, and one byte
more is a fault. -/
theorem readInto_border_of_area :
    let node := { blank with size := 5000, extents := ⟨#v[⟨0, 1⟩, ⟨7, 1⟩, .empty, .empty], 2⟩ }
    let data := BlockCache.fresh 0 1
    node.extents.Counted ∧
      (∃ buffer, node.readInto data 4090 [1, 2, 3, 4, 5, 6] = .ok 6 buffer) ∧
      ∃ f buffer,
        node.readInto data 4090 [1, 2, 3, 4, 5, 6, 7] = .error (.failure (.fault f)) buffer := by
  intro node data
  have hcounted : node.extents.Counted := by rfl
  have hborder : ∀ i < 6, node.extents.locate (4090 + i) = some ⟨4090 + i, 6 - i⟩ := by decide
  have hbehind : node.extents.locate 4096 = some ⟨28672, 4096⟩ := by decide
  have hsize : data.size = 4096 := by decide
  have hsix : node.readable 4090 ([1, 2, 3, 4, 5, 6] : List UInt8).length = 6 := by decide
  refine ⟨hcounted, ?_, ?_⟩
  · have hread := (readInto_agrees_with_map hcounted data 4090 [1, 2, 3, 4, 5, 6]).1
    rw [hsix] at hread
    obtain ⟨buffer, hok, -⟩ := hread fun i hi =>
      ⟨_, hborder i hi, by rw [hsize]; simp only; omega⟩
    exact ⟨buffer, hok⟩
  · apply (readInto_agrees_with_map hcounted data 4090 [1, 2, 3, 4, 5, 6, 7]).2
    intro hin
    obtain ⟨p, hp, hlt⟩ := hin 6 (by decide)
    obtain rfl := Option.some.inj (hp.symm.trans hbehind)
    rw [hsize] at hlt
    exact absurd hlt (by decide)

end Inode

end ExtentVolume
