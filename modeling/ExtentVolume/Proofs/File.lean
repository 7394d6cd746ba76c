import ExtentVolume.File
import ExtentVolume.Proofs.OpenInode

namespace ExtentVolume

def Inode.content (node : Inode) (data : BlockCache) : List UInt8 :=
  (List.range node.size.toNat).map (byteIn data node.extents.inUse)

@[simp] theorem Inode.length_content (node : Inode) (data : BlockCache) :
    (node.content data).length = node.size.toNat := by
  simp [content]

theorem addressAt_cons_left {e : Extent} {rest : List Extent} {offset i : Nat}
    (h : offset + i < e.byteLength) :
    addressAt (e :: rest) (offset + i) = some (e.byteStart + offset + i) := by
  have hlocate : locate (e :: rest) (offset + i) =
      some ⟨e.byteStart + (offset + i), e.byteLength - (offset + i)⟩ := by
    rw [locate, if_pos h]
  have := addressAt_of_locate hlocate (j := 0) (by simp only; omega)
  simpa [Nat.add_assoc] using this

theorem addressAt_cons_right {e : Extent} {rest : List Extent} {offset : Nat}
    (h : e.byteLength ≤ offset) :
    addressAt (e :: rest) offset = addressAt rest (offset - e.byteLength) := by
  have hlen : (blockNumbers [e]).length * blockSize = e.byteLength := by
    simp [Extent.byteLength]
  rw [← hlen] at h ⊢
  exact addressAt_append_right h

theorem range_map_add {α : Type} (m n : Nat) (f : Nat → α) :
    (List.range (m + n)).map f = (List.range m).map f ++ (List.range n).map fun i => f (m + i) := by
  rw [List.range_add, List.map_append, List.map_map]
  rfl

/-- So many bytes of a file from an offset on have an address in the data area. -/
def InArea (data : BlockCache) (extents : List Extent) (offset count : Nat) : Prop :=
  ∀ i < count, ∃ address, addressAt extents (offset + i) = some address ∧ address < data.size

section InArea

variable {data : BlockCache} {e : Extent} {rest extents : List Extent} {offset here more count : Nat}

@[simp] theorem inArea_zero : InArea data extents offset 0 :=
  fun i hi => absurd hi (Nat.not_lt_zero i)

theorem inArea_cons_left (hpos : 0 < here) (hhere : here ≤ e.byteLength - offset)
    (hmore : more = 0 ∨ here = e.byteLength - offset) :
    InArea data (e :: rest) offset (here + more) ↔
      e.byteStart + offset + here ≤ data.size ∧ InArea data rest 0 more := by
  have hfirst : ∀ i < here,
      addressAt (e :: rest) (offset + i) = some (e.byteStart + offset + i) :=
    fun i hi => addressAt_cons_left (by omega)
  have hbehind : ∀ i < more,
      addressAt (e :: rest) (offset + (here + i)) = addressAt rest (0 + i) := by
    intro i hi
    have hsub : offset + (here + i) - e.byteLength = 0 + i := by omega
    rw [addressAt_cons_right (by omega), hsub]
  constructor
  · intro h
    constructor
    · obtain ⟨address, haddress, hlt⟩ := h (here - 1) (by omega)
      rw [hfirst (here - 1) (by omega)] at haddress
      obtain rfl := Option.some.inj haddress
      omega
    · intro i hi
      rw [← hbehind i hi]
      exact h (here + i) (by omega)
  · rintro ⟨hin, hrest⟩ i hi
    by_cases hlt : i < here
    · exact ⟨_, hfirst i hlt, by omega⟩
    · obtain ⟨k, rfl⟩ := Nat.exists_eq_add_of_le (Nat.not_lt.1 hlt)
      rw [hbehind k (by omega)]
      exact hrest k (by omega)

theorem inArea_cons_right (hout : e.byteLength ≤ offset) :
    InArea data (e :: rest) offset count ↔ InArea data rest (offset - e.byteLength) count := by
  have hsub : ∀ i, addressAt (e :: rest) (offset + i) =
      addressAt rest (offset - e.byteLength + i) := by
    intro i
    rw [addressAt_cons_right (by omega), Nat.sub_add_comm hout]
  simp only [InArea, hsub]

theorem byteIn_cons_left {i : Nat} (h : offset + i < e.byteLength) :
    byteIn data (e :: rest) (offset + i) = data.byteAt (e.byteStart + offset + i) :=
  byteIn_of_some (addressAt_cons_left h)

theorem byteIn_cons_right (h : e.byteLength ≤ offset) :
    byteIn data (e :: rest) offset = byteIn data rest (offset - e.byteLength) := by
  rw [byteIn, byteIn, addressAt_cons_right h]

/-- What lies across the end of the first extent is its part and what the others begin with. -/
theorem bytes_cons_left (hhere : here ≤ e.byteLength - offset)
    (hmore : more = 0 ∨ here = e.byteLength - offset) (hoff : offset < e.byteLength) :
    ((List.range (here + more)).map fun i => byteIn data (e :: rest) (offset + i)) =
      ((List.range here).map fun i => data.byteAt (e.byteStart + offset + i)) ++
        (List.range more).map fun i => byteIn data rest (0 + i) := by
  rw [range_map_add]
  congr 1
  · apply List.map_congr_left
    intro i hi
    rw [List.mem_range] at hi
    rw [byteIn_cons_left (by omega)]
  · apply List.map_congr_left
    intro i hi
    rw [List.mem_range] at hi
    have hsub : offset + (here + i) - e.byteLength = 0 + i := by omega
    rw [byteIn_cons_right (by omega), hsub]

end InArea

/-- Extents are read as far as the length and they reach, if all that is asked for is in the area. -/
theorem Inode.readExtents_ensures (data : BlockCache) (extents : List Extent)
    (offset length : Nat) :
    (readExtents data extents offset length).Ensures
      (fun bytes =>
        InArea data extents offset
          (min length ((blockNumbers extents).length * blockSize - offset)) ∧
        bytes = (List.range (min length ((blockNumbers extents).length * blockSize - offset))).map
          fun i => byteIn data extents (offset + i))
      (fun e => ¬InArea data extents offset
          (min length ((blockNumbers extents).length * blockSize - offset)) ∧ ∃ f, e = .fault f)
      False := by
  induction extents generalizing offset length with
  | nil =>
    have hnone : min length ((blockNumbers []).length * blockSize - offset) = 0 := by simp
    rw [hnone]
    exact ⟨inArea_zero, rfl⟩
  | cons e rest ih =>
    have hcap : (blockNumbers (e :: rest)).length * blockSize =
        e.byteLength + (blockNumbers rest).length * blockSize := by
      rw [blockNumbers_cons, List.length_append, List.length_range', Nat.add_mul, Extent.byteLength]
    rw [readExtents, hcap]
    by_cases h0 : length = 0
    · rw [if_pos h0, h0, Nat.zero_min]
      exact ⟨inArea_zero, rfl⟩
    rw [if_neg h0]
    by_cases hoff : offset < e.byteLength
    · have hend := e.byteEnd_lt
      -- what is read here, and then the rest from the start of the next extent
      generalize hhere : min length (e.byteLength - offset) = here
      have hsplit : min length (e.byteLength + (blockNumbers rest).length * blockSize - offset) =
          here + min (length - here) ((blockNumbers rest).length * blockSize - 0) := by
        omega
      have hinside : InArea data (e :: rest) offset
          (here + min (length - here) ((blockNumbers rest).length * blockSize - 0)) ↔ _ :=
        inArea_cons_left (by omega) (by omega) (by omega)
      have hread : data.read (e.byteStart + offset) here = _ := data.read_eq (by omega)
      rw [if_pos hoff, hsplit]
      dsimp only
      rw [hread]
      split
      · rename_i hout
        exact ⟨fun hin => absurd (hinside.1 hin).1 (Nat.not_le.2 hout), _, rfl⟩
      · rename_i hin
        rw [Nat.not_lt] at hin
        refine Fallible.ensures_bind.2 (Fallible.ensures_bind.2 ((ih 0 (length - here)).mono ?_ ?_ id))
        · rintro bytes ⟨hrest, rfl⟩
          exact ⟨hinside.2 ⟨hin, hrest⟩, (bytes_cons_left (by omega) (by omega) hoff).symm⟩
        · rintro stop ⟨hrest, hfault⟩
          exact ⟨fun hin => hrest (hinside.1 hin).2, hfault⟩
    · rw [Nat.not_lt] at hoff
      have hsub : e.byteLength + (blockNumbers rest).length * blockSize - offset =
          (blockNumbers rest).length * blockSize - (offset - e.byteLength) := by
        omega
      rw [if_neg (Nat.not_lt.2 hoff), hsub, inArea_cons_right hoff]
      refine (ih (offset - e.byteLength) length).imp ?_
      rintro bytes ⟨hrest, rfl⟩
      refine ⟨hrest, List.map_congr_left fun i _ => ?_⟩
      rw [byteIn_cons_right (by omega), Nat.sub_add_comm hoff]

theorem Inode.readExtents_eq {data : BlockCache} {extents : List Extent}
    (hin : ∀ b ∈ blockNumbers extents, b < data.cells.size) (offset length : Nat) :
    readExtents data extents offset length =
      .ok ((List.range (min length ((blockNumbers extents).length * blockSize - offset))).map
        fun i => byteIn data extents (offset + i)) := by
  have hall : InArea data extents offset
      (min length ((blockNumbers extents).length * blockSize - offset)) := by
    intro i hi
    have hlt : offset + i < (blockNumbers extents).length * blockSize := by omega
    obtain ⟨address, haddress⟩ := exists_addressAt hlt
    refine ⟨address, haddress, ?_⟩
    have hblock := hin _ (addressAt_mem haddress)
    rwa [Nat.div_lt_iff_lt_mul (by decide)] at hblock
  obtain ⟨bytes, hok, -, rfl⟩ := ((readExtents_ensures data extents offset length).mono
    (fun _ h => h) (fun _ h => h.1 hall) id).exists_ok
  exact hok

structure Inode.Mapped (node : Inode) (data : BlockCache) : Prop where
  counted : node.extents.Counted
  inside : ∀ b ∈ node.extents.blockNumbers, b < data.cells.size
  bounded : data.cells.size < 2 ^ 32
  nodup : node.extents.blockNumbers.Nodup
  size_le : node.size.toNat ≤ node.extents.blockNumbers.length * blockSize

variable {node : Inode} {data : BlockCache}

theorem Inode.Mapped.read (h : node.Mapped data) (offset length : Nat) :
    node.read data offset length = .ok (((node.content data).drop offset).take length) := by
  have hdrop : ((node.content data).drop offset).take length =
      (List.range (min length (node.size.toNat - offset))).map
        fun i => byteIn data node.extents.inUse (offset + i) := by
    apply List.ext_getElem
    · simp
    · intro i h1 h2
      simp [content]
  rw [hdrop, Inode.read]
  by_cases hend : node.extents.isEmpty = true ∨ node.size.toNat ≤ offset
  · have hle : node.size.toNat ≤ offset := by
      obtain hempty | hle := hend
      · have hstated : node.extents.stated.toNat = 0 := by
          simp only [ExtentMap.isEmpty, beq_iff_eq] at hempty
          rw [hempty]
          rfl
        have hnil : node.extents.inUse = [] := by
          rw [← List.length_eq_zero_iff, ← h.counted, hstated]
        have hsize := h.size_le
        rw [ExtentMap.blockNumbers, hnil, blockNumbers_nil, List.length_nil, Nat.zero_mul] at hsize
        exact Nat.le_trans hsize (Nat.zero_le _)
      · exact hle
    have hzero : min length (node.size.toNat - offset) = 0 := by omega
    rw [if_pos hend, hzero]
    rfl
  · rw [if_neg hend, readExtents_eq h.inside]
    have hsize := h.size_le
    congr 3
    simp only [ExtentMap.blockNumbers] at hsize
    omega

theorem Inode.Mapped.size_lt (h : node.Mapped data) : node.size.toNat < 2 ^ 63 := by
  have hle := length_le_of_nodup h.nodup h.inside
  have hsize := h.size_le
  have hbounded := h.bounded
  simp only [blockSize] at hsize
  omega

theorem Inode.Mapped.readAll (h : node.Mapped data) :
    node.readAll data = .ok (node.content data) := by
  have hsize : ¬UInt64.size / 2 ≤ node.size.toNat := Nat.not_le.2 h.size_lt
  have htake : ((node.content data).drop 0).take node.size.toNat = node.content data := by
    rw [List.drop_zero]
    exact List.take_of_length_le (by simp)
  rw [Inode.readAll, if_neg hsize, h.read, htake]
  simp only [length_content, ne_eq, not_true, if_false, bind, Except.bind, pure, Except.pure]

end ExtentVolume
