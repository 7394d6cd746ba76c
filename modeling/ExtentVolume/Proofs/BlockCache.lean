import ExtentVolume.Proofs.Outcome
import ExtentVolume.BlockCache

namespace ExtentVolume.BlockCache

variable {cells : Array Cell} {b first count address : Nat} {bytes : List UInt8}

/-- The content of a block, if the area has it. -/
def block? (a : BlockCache) (b : Nat) : Option Block := a.cells[b]?.map (·.content)

def Dirty (cells : Array Cell) (b : Nat) : Prop := ∃ content, cells[b]? = some ⟨content, true⟩

theorem byteAt_eq (a : BlockCache) (address : Nat) :
    a.byteAt address =
      ((a.block? (address / blockSize)).bind fun content =>
        content[address % blockSize]?).getD 0 := by
  unfold byteAt block?
  cases a.cells[address / blockSize]? <;> rfl

theorem byteAt_congr {a a' : BlockCache} {address : Nat}
    (h : a'.block? (address / blockSize) = a.block? (address / blockSize)) :
    a'.byteAt address = a.byteAt address := by
  rw [byteAt_eq, byteAt_eq, h]

theorem block?_congr {a a' : BlockCache} (h : a'.cells[b]? = a.cells[b]?) :
    a'.block? b = a.block? b := by
  rw [block?, block?, h]

theorem lt_of_block? {a : BlockCache} {content : Block} (h : a.block? b = some content) :
    b < a.cells.size := by
  by_contra hout
  rw [block?, Array.getElem?_eq_none (Nat.not_lt.1 hout)] at h
  cases h

theorem check_eq (a : BlockCache) {length : Nat} (h : address + length < 2 ^ 64) :
    a.check address length =
      if a.size < address + length then
        fail (.fault (.outsideData address (address + length) a.size))
      else .ok () := by
  have hnat : (UInt64.ofNat (address + length)).toNat = address + length :=
    UInt64.toNat_ofNat_of_lt' h
  simp only [check, word64_ok h, hnat, liftM, monadLift, MonadLift.monadLift, bind, Except.bind,
    pure, Except.pure]

theorem check_ok {a : BlockCache} {length : Nat} (ha : a.cells.size < 2 ^ 32)
    (h : address + length ≤ a.size) : a.check address length = .ok () := by
  have hsize : a.size = a.cells.size * 4096 := rfl
  rw [check_eq a (by omega), if_neg (Nat.not_lt.2 h)]

theorem read_eq (a : BlockCache) {length : Nat} (h : address + length < 2 ^ 64) :
    a.read address length =
      if a.size < address + length then
        fail (.fault (.outsideData address (address + length) a.size))
      else .ok ((List.range length).map fun i => a.byteAt (address + i)) := by
  rw [read, check_eq a h]
  split <;> rfl

theorem write_ok {a : BlockCache} (ha : a.cells.size < 2 ^ 32)
    (h : address + bytes.length ≤ a.size) :
    a.write address bytes = .ok { a with cells := setBytes a.cells address bytes } := by
  simp only [write, check_ok ha h, bind, Except.bind, pure, Except.pure]

theorem zeroExtent_ok {a : BlockCache} {e : Extent} (ha : a.cells.size < 2 ^ 32)
    (h : e.endBlock ≤ a.cells.size) :
    a.zeroExtent e =
      .ok { a with cells := zeroBlocks a.cells e.start.toNat e.count.toNat } := by
  have hin : e.byteStart + e.byteLength ≤ a.size := by
    simp only [Extent.byteStart, Extent.byteLength, size, ← Nat.add_mul]
    exact Nat.mul_le_mul_right _ h
  simp only [zeroExtent, check_ok ha hin, bind, Except.bind, pure, Except.pure]

@[simp] theorem size_setByte (byte : UInt8) : (setByte cells address byte).size = cells.size := by
  simp [setByte]

@[simp] theorem size_setBytes : (setBytes cells address bytes).size = cells.size := by
  induction bytes generalizing cells address with
  | nil => rfl
  | cons byte rest ih => rw [setBytes, ih, size_setByte]

theorem getElem?_setByte (byte : UInt8) :
    (setByte cells address byte)[b]? = if address / blockSize = b then
      cells[b]?.map fun c => ⟨c.content.setIfInBounds (address % blockSize) byte, true⟩
    else cells[b]? := by
  rw [setByte, Array.getElem?_modify]

theorem getElem?_setBytes (h : ∀ i < bytes.length, (address + i) / blockSize ≠ b) :
    (setBytes cells address bytes)[b]? = cells[b]? := by
  induction bytes generalizing cells address with
  | nil => rfl
  | cons byte rest ih =>
    rw [setBytes, ih, getElem?_setByte, if_neg (by simpa using h 0 (by simp))]
    intro i hi
    rw [Nat.add_assoc, Nat.add_comm 1]
    exact h (i + 1) (by simpa using hi)

theorem setBytes_or_dirty (cells : Array Cell) (address : Nat) (bytes : List UInt8) (b : Nat) :
    (setBytes cells address bytes)[b]? = cells[b]? ∨ Dirty (setBytes cells address bytes) b := by
  induction bytes generalizing cells address with
  | nil => exact .inl rfl
  | cons byte rest ih =>
    rw [setBytes]
    obtain h | h := ih (setByte cells address byte) (address + 1)
    · rw [getElem?_setByte] at h
      split at h
      · cases hc : cells[b]? with
        | none => exact .inl (by rw [h, hc, Option.map_none])
        | some c => exact .inr ⟨_, by rw [h, hc, Option.map_some]⟩
      · exact .inl h
    · exact .inr h

/-- A change that leaves the cells dirty that it reaches makes just these dirty. -/
theorem dirty_changed {cells' : Array Cell} {reached : Prop} [Decidable reached] {f : Cell → Cell}
    (hf : ∀ c, (f c).dirty = true) (hin : reached → b < cells.size)
    (h : cells'[b]? = if reached then cells[b]?.map f else cells[b]?) :
    Dirty cells' b ↔ Dirty cells b ∨ reached := by
  rw [Dirty, h]
  by_cases hb : reached
  · have hlt := hin hb
    rw [if_pos hb, Array.getElem?_eq_getElem hlt, Option.map_some]
    refine iff_of_true ⟨(f cells[b]).content, ?_⟩ (.inr hb)
    rw [← hf cells[b]]
  · rw [if_neg hb, or_iff_left hb, Dirty]

theorem dirty_setByte (h : address / blockSize < cells.size) (byte : UInt8) :
    Dirty (setByte cells address byte) b ↔ Dirty cells b ∨ address / blockSize = b :=
  dirty_changed (fun _ => rfl) (fun hb => hb ▸ h) (getElem?_setByte byte)

theorem dirty_setBytes (h : address + bytes.length ≤ cells.size * blockSize) :
    Dirty (setBytes cells address bytes) b ↔
      Dirty cells b ∨ ∃ i < bytes.length, (address + i) / blockSize = b := by
  induction bytes generalizing cells address with
  | nil => simp [setBytes]
  | cons byte rest ih =>
    simp only [List.length_cons] at h ⊢
    have hlt : address / blockSize < cells.size := by
      rw [Nat.div_lt_iff_lt_mul (by decide)]
      omega
    rw [setBytes, ih (by rw [size_setByte]; omega), dirty_setByte hlt, or_assoc,
      Nat.exists_lt_succ_left]
    simp only [Nat.add_zero, Nat.add_assoc, Nat.add_comm 1]

theorem byteAt_setByte (start : UInt64) (byte : UInt8) (h : address / blockSize < cells.size)
    (x : Nat) : byteAt ⟨setByte cells address byte, start⟩ x =
      if x = address then byte else byteAt ⟨cells, start⟩ x := by
  simp only [byteAt, getElem?_setByte]
  by_cases hb : address / blockSize = x / blockSize
  · rw [if_pos hb, Array.getElem?_eq_getElem (by omega)]
    simp only [Option.map_some]
    by_cases hx : x = address
    · subst hx
      have hlt : x % blockSize < blockSize := Nat.mod_lt _ (by decide)
      simp [hlt]
    · have hmod : address % blockSize ≠ x % blockSize := by
        intro hmod
        apply hx
        rw [← Nat.div_add_mod x blockSize, ← Nat.div_add_mod address blockSize, hb, hmod]
      simp [hx, Vector.getElem?_setIfInBounds_ne hmod]
  · have hx : x ≠ address := fun hx => hb (by rw [hx])
    simp [hb, hx]

theorem block?_setByte (cells : Array Cell) (start : UInt64) (address : Nat) (byte : UInt8)
    (b : Nat) :
    block? ⟨setByte cells address byte, start⟩ b =
      if address / blockSize = b then
        (block? ⟨cells, start⟩ b).map (·.setIfInBounds (address % blockSize) byte)
      else block? ⟨cells, start⟩ b := by
  simp only [block?, getElem?_setByte]
  split
  · rw [Option.map_map, Option.map_map]
    rfl
  · rfl

/-- Inside the range the new bytes are read, outside of it the old ones. -/
theorem byteAt_setBytes (start : UInt64) (h : address + bytes.length ≤ cells.size * blockSize)
    (x : Nat) : byteAt ⟨setBytes cells address bytes, start⟩ x =
      if address ≤ x ∧ x < address + bytes.length then bytes[x - address]?.getD 0
      else byteAt ⟨cells, start⟩ x := by
  induction bytes generalizing cells address with
  | nil =>
    have hout : ¬(address ≤ x ∧ x < address + ([] : List UInt8).length) := by simp
    rw [if_neg hout]
    rfl
  | cons byte rest ih =>
    simp only [List.length_cons] at h ⊢
    have hlt : address / blockSize < cells.size := by
      rw [Nat.div_lt_iff_lt_mul (by decide)]
      omega
    rw [setBytes, ih (by rw [size_setByte]; omega), byteAt_setByte start byte hlt]
    by_cases hx : x = address
    · subst hx
      have hout : ¬(x + 1 ≤ x ∧ x < x + 1 + rest.length) := by omega
      have hin : x ≤ x ∧ x < x + (rest.length + 1) := by omega
      rw [if_neg hout, if_pos rfl, if_pos hin, Nat.sub_self]
      rfl
    · have hiff : (address + 1 ≤ x ∧ x < address + 1 + rest.length) ↔
          (address ≤ x ∧ x < address + (rest.length + 1)) := by omega
      rw [if_neg hx]
      by_cases hin : address + 1 ≤ x ∧ x < address + 1 + rest.length
      · have hsub : x - address = (x - (address + 1)) + 1 := by omega
        rw [if_pos hin, if_pos (hiff.1 hin), hsub, List.getElem?_cons_succ]
      · rw [if_neg hin, if_neg (fun hin' => hin (hiff.2 hin'))]

/-- One block more of a run of blocks that are changed one after the other. -/
theorem getElem?_modify_next {cells' : Array Cell} {f : Cell → Cell}
    (h : cells'[b]? = if first ≤ b ∧ b < first + count then cells[b]?.map f else cells[b]?) :
    (cells'.modify (first + count) f)[b]? =
      if first ≤ b ∧ b < first + (count + 1) then cells[b]?.map f else cells[b]? := by
  rw [Array.getElem?_modify, h]
  by_cases hb : first + count = b
  · have hin : first ≤ b ∧ b < first + (count + 1) := by omega
    have hout : ¬(first ≤ b ∧ b < first + count) := by omega
    rw [if_pos hb, if_pos hin, if_neg hout]
  · have hiff : (first ≤ b ∧ b < first + count) ↔ (first ≤ b ∧ b < first + (count + 1)) := by
      omega
    rw [if_neg hb]
    simp only [hiff]

theorem getElem?_markBlocks (cells : Array Cell) (first count b : Nat) :
    (markBlocks cells first count)[b]? =
      if first ≤ b ∧ b < first + count then cells[b]?.map ({ · with dirty := true })
      else cells[b]? := by
  induction count with
  | zero =>
    have hout : ¬(first ≤ b ∧ b < first + 0) := by omega
    rw [if_neg hout, markBlocks]
  | succ count ih => exact getElem?_modify_next ih

@[simp] theorem size_markBlocks : (markBlocks cells first count).size = cells.size := by
  induction count with
  | zero => rfl
  | succ count ih => rw [markBlocks, Array.size_modify, ih]

theorem dirty_markBlocks (h : first ≤ b ∧ b < first + count → b < cells.size) :
    Dirty (markBlocks cells first count) b ↔ Dirty cells b ∨ (first ≤ b ∧ b < first + count) :=
  dirty_changed (fun _ => rfl) h (getElem?_markBlocks cells first count b)

theorem block?_markBlocks (cells : Array Cell) (start : UInt64) (first count b : Nat) :
    block? ⟨markBlocks cells first count, start⟩ b = block? ⟨cells, start⟩ b := by
  simp only [block?, getElem?_markBlocks]
  split
  · rw [Option.map_map]
    rfl
  · rfl

theorem getElem?_zeroBlocks (cells : Array Cell) (first count b : Nat) :
    (zeroBlocks cells first count)[b]? =
      if first ≤ b ∧ b < first + count then cells[b]?.map fun _ => ⟨.zero, true⟩
      else cells[b]? := by
  induction count with
  | zero =>
    have hout : ¬(first ≤ b ∧ b < first + 0) := by omega
    rw [if_neg hout, zeroBlocks]
  | succ count ih => exact getElem?_modify_next ih

theorem block?_zeroBlocks (cells : Array Cell) (start : UInt64) (first count b : Nat) :
    block? ⟨zeroBlocks cells first count, start⟩ b =
      if first ≤ b ∧ b < first + count then (block? ⟨cells, start⟩ b).map fun _ => .zero
      else block? ⟨cells, start⟩ b := by
  simp only [block?, getElem?_zeroBlocks]
  split
  · rw [Option.map_map, Option.map_map]
    rfl
  · rfl

@[simp] theorem size_zeroBlocks : (zeroBlocks cells first count).size = cells.size := by
  induction count with
  | zero => rfl
  | succ count ih => rw [zeroBlocks, Array.size_modify, ih]

theorem dirty_zeroBlocks (h : first ≤ b ∧ b < first + count → b < cells.size) :
    Dirty (zeroBlocks cells first count) b ↔ Dirty cells b ∨ (first ≤ b ∧ b < first + count) :=
  dirty_changed (fun _ => rfl) h (getElem?_zeroBlocks cells first count b)

theorem byteAt_zeroBlocks (start : UInt64) (x : Nat)
    (hin : first ≤ x / blockSize ∧ x / blockSize < first + count) :
    byteAt ⟨zeroBlocks cells first count, start⟩ x = 0 := by
  simp only [byteAt, getElem?_zeroBlocks, if_pos hin]
  cases cells[x / blockSize]? with
  | none => rfl
  | some c =>
    have hlt : x % blockSize < blockSize := Nat.mod_lt _ (by decide)
    simp [Block.zero, hlt]

end ExtentVolume.BlockCache
