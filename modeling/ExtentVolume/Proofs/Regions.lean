import Mathlib.Algebra.GroupWithZero.Nat
import ExtentVolume.FreeSpace
import ExtentVolume.SuperBlock
import ExtentVolume.Proofs.Bitmap
import ExtentVolume.Proofs.BlockCache
import ExtentVolume.Proofs.Codec
import ExtentVolume.Proofs.Device

namespace ExtentVolume

open BlockDevice

variable {D : Type} [BlockDevice D] {d : D} {limit : Nat} {c : Nat → Block}

theorem Block.toList_ofBytes {bytes : List UInt8} (h : bytes.length ≤ blockSize) :
    (Block.ofBytes bytes).toList = bytes ++ List.replicate (blockSize - bytes.length) 0 := by
  change bytes.take blockSize ++ List.replicate (blockSize - bytes.length) 0 = _
  rw [List.take_of_length_le h]

@[simp] theorem Block.length_split (bytes : List UInt8) (count : Nat) :
    (Block.split bytes count).length = count := by
  induction count generalizing bytes with
  | zero => rfl
  | succ count ih => rw [Block.split, List.length_cons, ih]

/-- The bytes that are cut into blocks are found in them again, with zeros behind. -/
theorem Block.flatMap_split {bytes : List UInt8} {count : Nat}
    (h : bytes.length ≤ count * blockSize) :
    ∃ zeros, (Block.split bytes count).flatMap (·.toList) = bytes ++ zeros := by
  induction count generalizing bytes with
  | zero =>
    have hnil : bytes = [] := List.eq_nil_of_length_eq_zero (by omega)
    exact ⟨[], by rw [hnil]; rfl⟩
  | succ count ih =>
    rw [Nat.succ_mul] at h
    have hhead : (bytes.take blockSize).length ≤ blockSize := by
      rw [List.length_take]
      exact Nat.min_le_left _ _
    obtain ⟨zeros, hrest⟩ := ih (show (bytes.drop blockSize).length ≤ count * blockSize by
      rw [List.length_drop]
      omega)
    rw [Block.split, List.flatMap_cons, Block.toList_ofBytes hhead, hrest]
    by_cases hfits : bytes.length ≤ blockSize
    · have hdrop : bytes.drop blockSize = [] := List.drop_eq_nil_of_le hfits
      rw [hdrop, List.nil_append, List.take_of_length_le hfits, List.append_assoc]
      exact ⟨_, rfl⟩
    · have hfull : blockSize - (bytes.take blockSize).length = 0 := by
        rw [List.length_take]
        omega
      rw [hfull, List.replicate_zero, List.append_nil, ← List.append_assoc, List.take_append_drop]
      exact ⟨zeros, rfl⟩

theorem le_blocksFor (bytes : Nat) : bytes ≤ blocksFor bytes * blockSize := by
  simp only [blocksFor, blockSize]
  omega

namespace Bitmap

theorem ofDigits_lt (digit : Nat → Bool) (width : Nat) : ofDigits digit width < 2 ^ width := by
  induction width with
  | zero => exact Nat.one_pos
  | succ width ih =>
    rw [ofDigits, Nat.one_shiftLeft, Nat.pow_succ]
    split <;> omega

theorem testBit_ofDigits (digit : Nat → Bool) {width j : Nat} (h : j < width) :
    (ofDigits digit width).testBit j = digit j := by
  induction width with
  | zero => omega
  | succ width ih =>
    have hlt := ofDigits_lt digit width
    rw [ofDigits, Nat.one_shiftLeft]
    by_cases hj : j = width
    · subst hj
      have hzero : (ofDigits digit j).testBit j = false := Nat.testBit_lt_two_pow hlt
      by_cases hd : digit j = true
      · rw [if_pos hd, Nat.add_comm, Nat.testBit_two_pow_add_eq, hzero, hd]
        rfl
      · rw [if_neg hd, Nat.add_zero, hzero]
        exact (Bool.eq_false_iff.2 hd).symm
    · by_cases hd : digit width = true
      · rw [if_pos hd, Nat.add_comm, Nat.testBit_two_pow_add_gt (by omega), ih (by omega)]
      · rw [if_neg hd, Nat.add_zero, ih (by omega)]

theorem length_toBytes (b : Bitmap) : b.toBytes.length = (b.total.toNat + 7) / 8 := by
  simp [toBytes]

theorem testBit_toBytes (b : Bitmap) (rest : List UInt8) {n : Nat} (h : n < paddedBits b.total) :
    ((b.toBytes ++ rest)[n / 8]?.getD 0).toNat.testBit (n % 8) = b.bits[n] := by
  have hlt : n / 8 < (b.total.toNat + 7) / 8 := by
    rw [paddedBits] at h
    omega
  have hbyte : (b.toBytes ++ rest)[n / 8]? =
      some (.ofNat (ofDigits (fun j => b.bits[8 * (n / 8) + j]?.getD false) 8)) := by
    rw [List.getElem?_append_left (by rw [length_toBytes]; exact hlt)]
    simp [toBytes, hlt]
  have hdigits := ofDigits_lt (fun j => b.bits[8 * (n / 8) + j]?.getD false) 8
  rw [hbyte, Option.getD_some, UInt8.toNat_ofNat_of_lt' hdigits,
    testBit_ofDigits _ (Nat.mod_lt n (by decide)), Nat.div_add_mod, Vector.getElem?_eq_getElem h,
    Option.getD_some]

theorem ones_eq (byte : UInt8) : ones byte = (List.range 8).countP byte.toNat.testBit :=
  Vector.getElem_ofFn byte.toNat_lt

theorem foldl_ones (bytes : List UInt8) (sum : Nat) :
    bytes.foldl (fun sum byte => sum + ones byte) sum = sum + (bytes.map ones).sum := by
  induction bytes generalizing sum with
  | nil => rfl
  | cons byte rest ih => rw [List.foldl_cons, ih, List.map_cons, List.sum_cons, Nat.add_assoc]

theorem sumOnes_eq (blocks : List Block) (length sum : Nat) :
    sumOnes blocks length sum =
      sum + (((blocks.flatMap (·.toList)).take length).map ones).sum := by
  induction blocks generalizing length sum with
  | nil => simp [sumOnes]
  | cons b rest ih =>
    have hhere : b.toArray.foldl (fun sum byte => sum + ones byte) sum 0 length =
        sum + ((b.toList.take length).map ones).sum := by
      rw [Array.foldl_eq_foldl_extract, ← Array.foldl_toList, foldl_ones, Array.toList_extract]
      rfl
    rw [sumOnes, ih, hhere, List.flatMap_cons, List.take_append, Vector.length_toList,
      List.map_append, List.sum_append, Nat.add_assoc]

theorem countP_bits (bytes : List UInt8) (count : Nat) :
    (List.range (8 * count)).countP (fun i => (bytes[i / 8]?.getD 0).toNat.testBit (i % 8)) =
      ((bytes.take count).map ones).sum := by
  induction count generalizing bytes with
  | zero => rfl
  | succ count ih =>
    have hshift : ∀ i, (8 + i) / 8 = i / 8 + 1 ∧ (8 + i) % 8 = i % 8 := by omega
    rw [Nat.mul_succ, Nat.add_comm, List.range_add, List.countP_append, List.countP_map]
    cases bytes with
    | nil => simp
    | cons byte rest =>
      have hfirst : (List.range 8).countP
          (fun i => ((byte :: rest)[i / 8]?.getD 0).toNat.testBit (i % 8)) = ones byte := by
        rw [ones_eq]
        apply List.countP_congr
        intro i hi
        have hlt := List.mem_range.1 hi
        rw [Nat.div_eq_of_lt hlt, Nat.mod_eq_of_lt hlt]
        rfl
      have hrest : (List.range (8 * count)).countP ((fun i =>
          ((byte :: rest)[i / 8]?.getD 0).toNat.testBit (i % 8)) ∘ (8 + ·)) =
            ((rest.take count).map ones).sum := by
        rw [← ih rest]
        apply List.countP_congr
        intro i _
        rw [Function.comp_apply, (hshift i).1, (hshift i).2, List.getElem?_cons_succ]
      rw [hfirst, hrest, List.take_succ_cons, List.map_cons, List.sum_cons]

def recounted (b : Bitmap) : Checked Bitmap := do
  let used ← b.usedCount
  return { b with free := .ofNat (b.total.toNat - used.toNat) }

theorem ofBlocks_eq (reserved : Nat) (total : UInt32) (start : UInt64) (blocks : List Block) :
    ofBlocks reserved total start blocks = recounted
      { reserved, total, start, free := 0, bits := bitsOf total (blocks.flatMap (·.toList)) } := by
  have hcount : sumOnes blocks ((total.toNat + 7) / 8) 0 = popcount
      { reserved, total, start, free := 0, bits := bitsOf total (blocks.flatMap (·.toList)) } := by
    rw [popcount_eq_countP, sumOnes_eq, Nat.zero_add, ← countP_bits]
    apply List.countP_congr
    intro i hi
    have hlt : i < paddedBits total := List.mem_range.1 hi
    simp [used, bitsOf, hlt]
  rw [ofBlocks, hcount]
  rfl

/-- The bits are read back from their bytes; bytes behind them are not looked at. -/
theorem bitsOf_toBytes (b : Bitmap) (rest : List UInt8) :
    bitsOf b.total (b.toBytes ++ rest) = b.bits := by
  ext i hi
  rw [bitsOf, Vector.getElem_ofFn, List.getElem?_toArray]
  exact testBit_toBytes b rest hi

theorem recounted_eq (b : Bitmap) : b.recounted =
    if b.popcount < 2 ^ 32 then .ok { b with free := .ofNat (b.total.toNat - b.popcount) }
    else .error .overflow := by
  by_cases hcount : b.popcount < 2 ^ 32
  · have hword : b.usedCount = .ok (.ofNat b.popcount) := word32_ok hcount
    have hnat : (UInt32.ofNat b.popcount).toNat = b.popcount := UInt32.toNat_ofNat_of_lt' hcount
    rw [if_pos hcount, recounted, hword]
    simp only [hnat, bind, Except.bind, pure, Except.pure]
  · have hword : b.usedCount = .error .overflow := word32_overflow hcount
    rw [if_neg hcount, recounted, hword]
    rfl

theorem of_recounted {b b' : Bitmap} (h : b.recounted = .ok b') : b.popcount < 2 ^ 32 ∧
    b' = { b with free := .ofNat (b.total.toNat - b.popcount) } := by
  rw [recounted_eq] at h
  split at h
  · rename_i hcount
    exact ⟨hcount, (Except.ok.inj h).symm⟩
  · cases h

theorem Exact.recounted {b : Bitmap} (h : b.Exact) : b.recounted = .ok b := by
  have hcount : b.popcount < 2 ^ 32 := Nat.lt_of_le_of_lt (popcount_le h.padding) b.total.toNat_lt
  have haccounted := h.accounted
  have hfree : b.total.toNat - b.popcount = b.free.toNat := by omega
  rw [recounted_eq, if_pos hcount, hfree, UInt32.ofNat_toNat]

theorem load_eq_recounted (b : Bitmap) (hd : Shows d limit c)
    (hholds : Holds c b.start.toNat (Block.split b.toBytes (regionSize b.total)))
    (hin : b.start.toNat + regionSize b.total ≤ limit) :
    load d b.reserved b.total b.start = liftM b.recounted := by
  have hfetch := fetchRun_ok hd hholds (Block.length_split _ _) hin
  obtain ⟨zeros, hbytes⟩ := Block.flatMap_split (show b.toBytes.length ≤
      regionSize b.total * blockSize by
    rw [length_toBytes]
    exact le_blocksFor _)
  simp only [load, hfetch, ofBlocks_eq, hbytes, bitsOf_toBytes, bind, Except.bind]
  rfl

theorem load_ok {b : Bitmap} (h : b.Exact) (hd : Shows d limit c)
    (hholds : Holds c b.start.toNat (Block.split b.toBytes (regionSize b.total)))
    (hin : b.start.toNat + regionSize b.total ≤ limit) :
    load d b.reserved b.total b.start = .ok b := by
  rw [load_eq_recounted b hd hholds hin, h.recounted]
  rfl

end Bitmap

namespace InodeTable

@[simp] theorem length_blocksOf (count : Nat) (nodes : List Inode) :
    (blocksOf count nodes).length = count := by
  induction count generalizing nodes with
  | zero => rfl
  | succ count ih => rw [blocksOf, List.length_cons, ih]

theorem decodeSlots_ofBytes (nodes : List Inode) :
    (Codec.decodeSlots Inode.slotSize (min nodes.length Inode.slotsPerBlock)
      (Block.ofBytes ((nodes.take Inode.slotsPerBlock).flatMap
        (Codec.slotBytes Inode.slotSize))).toList : Except CodecError (List Inode)) =
      .ok (nodes.take Inode.slotsPerBlock) := by
  have hwidth : Codec.Stored.width Inode ≤ Inode.slotSize := by decide
  have hlength : ∀ l : List Inode, (l.flatMap (Codec.slotBytes Inode.slotSize)).length =
      l.length * Inode.slotSize := by
    intro l
    induction l with
    | nil => rfl
    | cons a l ih =>
      have ha : (Codec.slotBytes Inode.slotSize a).length = Inode.slotSize := by
        rw [Codec.slotBytes_eq hwidth, List.length_append, List.length_replicate,
          Codec.length_encode]
        omega
      rw [List.flatMap_cons, List.length_append, ih, ha, List.length_cons, Nat.succ_mul,
        Nat.add_comm]
  have hfits : ((nodes.take Inode.slotsPerBlock).flatMap
      (Codec.slotBytes Inode.slotSize)).length ≤ blockSize := by
    rw [hlength, List.length_take]
    simp only [Inode.slotsPerBlock, Inode.slotSize, blockSize]
    omega
  have hcount : min nodes.length Inode.slotsPerBlock = (nodes.take Inode.slotsPerBlock).length := by
    rw [List.length_take, Nat.min_comm]
  rw [Block.toList_ofBytes hfits, hcount, Codec.decodeSlots_flatMap hwidth]

theorem loadFrom_ok (hd : Shows d limit c) {start : UInt64} {count index : Nat} {nodes : List Inode}
    (hnodes : nodes.length ≤ count * Inode.slotsPerBlock)
    (hholds : Holds c (start.toNat + index) (blocksOf count nodes))
    (hin : start.toNat + index + count ≤ limit) :
    loadFrom d start count index nodes.length = .ok nodes := by
  induction count generalizing index nodes with
  | zero =>
    have hnil : nodes = [] := List.eq_nil_of_length_eq_zero (by omega)
    rw [hnil]
    rfl
  | succ count ih =>
    rw [Nat.succ_mul] at hnodes
    have hfetch : fetch d start index = .ok (.ofBytes ((nodes.take Inode.slotsPerBlock).flatMap
        (Codec.slotBytes Inode.slotSize))) := by
      rw [fetch_ok hd (by omega)]
      exact congrArg _ (hholds 0 _ rfl)
    have hleft : (nodes.drop Inode.slotsPerBlock).length =
        nodes.length - min nodes.length Inode.slotsPerBlock := by
      rw [List.length_drop]
      omega
    have hrest : Holds c (start.toNat + (index + 1))
        (blocksOf count (nodes.drop Inode.slotsPerBlock)) := by
      intro i b hi
      rw [show start.toNat + (index + 1) + i = start.toNat + index + (i + 1) by omega]
      exact hholds (i + 1) b hi
    have hih := ih (show (nodes.drop Inode.slotsPerBlock).length ≤ count * Inode.slotsPerBlock by
      rw [List.length_drop]
      omega) hrest (by omega)
    rw [hleft] at hih
    have hall : nodes.take Inode.slotsPerBlock ++ nodes.drop Inode.slotsPerBlock = nodes :=
      List.take_append_drop _ _
    simp only [loadFrom, hfetch, Fallible.restate, decodeSlots_ofBytes, hih, bind, Except.bind, pure,
      Except.pure, hall]

theorem load_ok {t : InodeTable} (hrecords : t.records.size = t.total.toNat) (hd : Shows d limit c)
    (hholds : Holds c t.start.toNat (blocksOf (regionSize t.total) t.records.toList))
    (hin : t.start.toNat + regionSize t.total ≤ limit) : load d t.total t.start = .ok t := by
  have hlength : t.records.toList.length = t.total.toNat := by
    rw [Array.length_toList, hrecords]
  have hfits : t.records.toList.length ≤ regionSize t.total * Inode.slotsPerBlock := by
    rw [hlength]
    simp only [regionSize, blocksFor, Inode.slotsPerBlock, Inode.slotSize, blockSize]
    omega
  have hfrom : loadFrom d t.start (regionSize t.total) 0 t.records.toList.length = _ :=
    loadFrom_ok hd hfits hholds hin
  rw [hlength] at hfrom
  simp only [load, hfrom, bind, Except.bind, pure, Except.pure]

end InodeTable

/-- The superblock describes its own layout, and the device is large enough for it. -/
structure SuperBlock.Fits (s : SuperBlock) (deviceBlocks : Nat) : Prop where
  magic : s.magic = magicNumber
  blockSize : s.blockSize.toNat = ExtentVolume.blockSize
  dataStart : s.dataStart.toNat = s.geometry.dataStart
  inodeTableStart : s.inodeTableStart.toNat = s.geometry.inodeTableStart
  room : s.deviceBlocks ≤ deviceBlocks

theorem SuperBlock.Fits.corruption?_eq {s : SuperBlock} {deviceBlocks : Nat}
    (h : s.Fits deviceBlocks) : s.corruption? deviceBlocks = none := by
  have hlayout : ¬(s.dataStart.toNat ≠ s.geometry.dataStart ∨
      s.inodeTableStart.toNat ≠ s.geometry.inodeTableStart) := by
    rw [not_or, not_not, not_not]
    exact ⟨h.dataStart, h.inodeTableStart⟩
  rw [corruption?, if_neg (not_not.2 h.magic), if_neg (not_not.2 h.blockSize), if_neg hlayout,
    if_neg (Nat.not_lt.2 h.room)]

theorem SuperBlock.load_ok {s : SuperBlock} (h : s.Fits (BlockDevice.blockCount d))
    (hd : Shows d limit c)
    (hholds : Holds c 0 [.ofBytes (Codec.encode s)]) (hin : 0 < limit) : load d = .ok s := by
  have hfetch : fetch d 0 0 = .ok (.ofBytes (Codec.encode s)) := by
    rw [fetch_ok hd (by simpa using hin)]
    exact congrArg _ (hholds 0 _ rfl)
  have hlength : (Codec.encode s).length ≤ ExtentVolume.blockSize := by
    rw [Codec.length_encode]
    decide
  have hdecode : Codec.decode (α := SuperBlock) (Block.ofBytes (Codec.encode s)).toList = .ok s := by
    rw [Block.toList_ofBytes hlength, Codec.decode_encode_append]
  simp only [load, hfetch, Fallible.restate, hdecode, h.corruption?_eq, bind, Except.bind, pure,
    Except.pure]

end ExtentVolume
