import ExtentVolume.Directory
import ExtentVolume.Proofs.Codec
import ExtentVolume.Proofs.OpenInode

namespace ExtentVolume.Directory

def blockEntries (data : BlockCache) (b : Nat) : List Entry :=
  match Codec.decodeSlots Entry.slotSize Entry.slotsPerBlock
      (((data.block? b).map (·.toList)).getD []) with
  | .ok entries => entries
  | .error _ => []

def slots (data : BlockCache) (dir : Inode) : List Entry :=
  dir.extents.blockNumbers.flatMap (blockEntries data)

/-- The first slot from a position on whose entry has the property. -/
def slotFrom (entries : List Entry) (p : Entry → Bool) (position : Nat) : Option (Entry × Nat) :=
  ((entries.drop position).zipIdx position).find? fun r => p r.1

variable {data data' : BlockCache} {dir : Inode} {p : Entry → Bool} {b : Nat}

theorem blockEntries_eq (hb : b < data.cells.size) :
    (blockEntries data b).length = Entry.slotsPerBlock ∧
      Codec.decodeSlots Entry.slotSize Entry.slotsPerBlock
        ((data.cells[b]?.map fun c => c.content.toList).getD []) = .ok (blockEntries data b) := by
  have hbytes : ((data.block? b).map (·.toList)).getD [] =
      (data.cells[b]?.map fun c => c.content.toList).getD [] := by
    rw [BlockCache.block?, Option.map_map]
    rfl
  have hlen : Entry.slotsPerBlock * Entry.slotSize ≤
      ((data.cells[b]?.map fun c => c.content.toList).getD []).length := by
    rw [Array.getElem?_eq_getElem hb, Option.map_some, Option.getD_some, Vector.length_toList]
    decide
  obtain ⟨entries, hentries, hlength⟩ := Codec.decodeSlots_ok (α := Entry) (Nat.le_refl 32) hlen
  rw [blockEntries, hbytes, hentries]
  exact ⟨hlength, rfl⟩

theorem entriesFrom_ok (hdata : data.cells.size < 2 ^ 32) (hb : b < data.cells.size) {first : Nat}
    (hfirst : first < Entry.slotsPerBlock) :
    entriesFrom data b first = .ok ((blockEntries data b).drop first) := by
  have hcheck : data.check (b * blockSize + first * Entry.slotSize) Entry.slotSize = .ok () := by
    apply BlockCache.check_ok hdata
    simp only [BlockCache.size, blockSize, Entry.slotSize, Entry.slotsPerBlock] at hfirst ⊢
    omega
  simp only [entriesFrom, hcheck, (blockEntries_eq hb).2, bind, Except.bind, pure, Except.pure]

theorem slots_congr (h : ∀ b ∈ dir.extents.blockNumbers, data'.block? b = data.block? b) :
    slots data' dir = slots data dir := by
  apply List.flatMap_congr
  intro b hb
  rw [blockEntries, blockEntries, h b hb]

/-- All blocks of the directory lie in the data area. -/
structure Inside (data : BlockCache) (dir : Inode) : Prop where
  bounded : data.cells.size < 2 ^ 32
  inside : ∀ b ∈ dir.extents.blockNumbers, b < data.cells.size

theorem Inside.length_flatMap (h : Inside data dir) {blocks : List Nat}
    (hsub : ∀ b ∈ blocks, b ∈ dir.extents.blockNumbers) :
    (blocks.flatMap (blockEntries data)).length = blocks.length * Entry.slotsPerBlock := by
  induction blocks with
  | nil => rfl
  | cons b rest ih =>
    have hb := h.inside b (hsub b (by simp))
    rw [List.flatMap_cons, List.length_append, (blockEntries_eq hb).1,
      ih fun b hb => hsub b (List.mem_cons_of_mem _ hb), List.length_cons, Nat.succ_mul,
      Nat.add_comm]

theorem blockCount_eq (dir : Inode) : blockCount dir = dir.extents.blockNumbers.length := by
  rw [blockCount, ExtentMap.blockNumbers, length_blockNumbers]

theorem Inside.length_slots (h : Inside data dir) : (slots data dir).length = slotCount dir := by
  rw [slots, h.length_flatMap fun _ hb => hb, slotCount, blockCount_eq]

theorem slotAddress {number i : Nat} {extents : List Extent}
    (hb : (blockNumbers extents)[number]? = some b) (hi : i < Entry.slotsPerBlock) :
    addressAt extents ((number * Entry.slotsPerBlock + i) * Entry.slotSize) =
      some (b * blockSize + i * Entry.slotSize) := by
  have hdiv : (number * Entry.slotsPerBlock + i) * Entry.slotSize / blockSize = number := by
    simp only [Entry.slotsPerBlock, Entry.slotSize, blockSize] at hi ⊢
    omega
  have hmod : (number * Entry.slotsPerBlock + i) * Entry.slotSize % blockSize =
      i * Entry.slotSize := by
    simp only [Entry.slotsPerBlock, Entry.slotSize, blockSize] at hi ⊢
    omega
  rw [addressAt, hdiv, hmod, hb, Option.map_some]

theorem find?_zipIdx (l : List Entry) (p : Entry → Bool) (n : Nat) :
    (l.zipIdx n).find? (fun r => p r.1) =
      (l.zipIdx.find? fun r => p r.1).map fun r => (r.1, n + r.2) := by
  have hmap := List.map_snd_add_zipIdx_eq_zipIdx (l := l) (n := n) (k := 0)
  rw [Nat.add_zero] at hmap
  rw [← hmap, List.find?_map]
  have hfst : (fun r : Entry × Nat => p r.1) ∘ Prod.map id (fun x => x + n) =
      fun r => p r.1 := rfl
  rw [hfst]
  congr 1
  funext r
  rw [Prod.map_apply, id_eq, Nat.add_comm]

theorem Inside.scanBlocks_succ (h : Inside data dir) (p : Entry → Bool) {number first count : Nat}
    (hb : dir.extents.blockNumbers[number]? = some b) (hfirst : first < Entry.slotsPerBlock) :
    scanBlocks data dir p number first (count + 1) =
      match ((blockEntries data b).drop first).zipIdx.find? fun r => p r.1 with
      | some (e, i) => .found ⟨number * Entry.slotsPerBlock + first + i,
          b * blockSize + (first + i) * Entry.slotSize, e⟩
      | none => scanBlocks data dir p (number + 1) 0 count := by
  have hentries := entriesFrom_ok h.bounded (h.inside b (List.mem_of_getElem? hb)) hfirst
  rw [scanBlocks, blockAt_eq, ← ExtentMap.blockNumbers, hb]
  dsimp only
  generalize entriesFrom data b first = read at hentries ⊢
  subst hentries
  rfl

theorem scanBlocks_eq (h : Inside data dir) (p : Entry → Bool) {number first count : Nat}
    (hcount : number + count = dir.extents.blockNumbers.length)
    (hfirst : first < Entry.slotsPerBlock) :
    scanBlocks data dir p number first count =
      match ((((dir.extents.blockNumbers.drop number).flatMap (blockEntries data)).drop
          first).zipIdx (number * Entry.slotsPerBlock + first)).find? (fun r => p r.1) with
      | some (e, k) => .found ⟨k, (addressAt dir.extents.inUse (k * Entry.slotSize)).getD 0, e⟩
      | none => .exhausted (max (number * Entry.slotsPerBlock + first)
          (dir.extents.blockNumbers.length * Entry.slotsPerBlock)) := by
  induction count generalizing number first with
  | zero =>
    rw [Nat.add_zero] at hcount
    rw [scanBlocks, List.drop_of_length_le (Nat.le_of_eq hcount.symm), List.flatMap_nil,
      List.drop_nil, ← hcount, Nat.max_eq_left (Nat.le_add_right _ _)]
    rfl
  | succ count ih =>
    have hlt : number < dir.extents.blockNumbers.length := by omega
    obtain ⟨b, hb⟩ : ∃ b, dir.extents.blockNumbers[number]? = some b :=
      ⟨_, List.getElem?_eq_getElem hlt⟩
    have hmem := List.mem_of_getElem? hb
    have hlength := (blockEntries_eq (h.inside b hmem)).1
    have hdrop : dir.extents.blockNumbers.drop number =
        b :: dir.extents.blockNumbers.drop (number + 1) := by
      rw [List.drop_eq_getElem_cons hlt, (List.getElem?_eq_some_iff.1 hb).2]
    have hplace : number * Entry.slotsPerBlock + first +
        ((blockEntries data b).drop first).length = (number + 1) * Entry.slotsPerBlock := by
      rw [List.length_drop, hlength, Nat.succ_mul]
      omega
    rw [h.scanBlocks_succ p hb hfirst, hdrop, List.flatMap_cons,
      List.drop_append_of_le_length (by omega), List.zipIdx_append, List.find?_append, hplace,
      find?_zipIdx ((blockEntries data b).drop first) p (number * Entry.slotsPerBlock + first)]
    -- the slot is in this block, or the scan goes on at the first slot of the next one
    cases hf : ((blockEntries data b).drop first).zipIdx.find? fun r => p r.1 with
    | none =>
      have hrest := ih (by omega : number + 1 + count = dir.extents.blockNumbers.length)
        (by decide : 0 < Entry.slotsPerBlock)
      have hend := Nat.mul_le_mul_right Entry.slotsPerBlock (Nat.succ_le_of_lt hlt)
      have hless : number * Entry.slotsPerBlock + first ≤ number.succ * Entry.slotsPerBlock := by
        rw [Nat.succ_mul]
        exact Nat.add_le_add_left (Nat.le_of_lt hfirst) _
      simp only [List.drop_zero, Nat.add_zero, Nat.max_eq_right hend] at hrest
      rw [Nat.max_eq_right (Nat.le_trans hless hend)]
      simp only [Option.map_none, Option.none_or, hrest]
    | some r =>
      obtain ⟨e, i⟩ := r
      have hi : first + i < Entry.slotsPerBlock := by
        have := List.snd_lt_of_mem_zipIdx (List.mem_of_find?_eq_some hf)
        rw [List.length_drop] at this
        omega
      simp only [Option.map_some, Option.some_or]
      rw [Nat.add_assoc, slotAddress hb hi, Option.getD_some]

theorem drop_flatMap {α β : Type} {f : α → List β} {n : Nat} {l : List α}
    (h : ∀ a ∈ l, (f a).length = n) (k : Nat) :
    (l.flatMap f).drop (k * n) = (l.drop k).flatMap f := by
  induction l generalizing k with
  | nil => simp
  | cons a l ih =>
    cases k with
    | zero => rw [Nat.zero_mul, List.drop_zero, List.drop_zero]
    | succ k =>
      rw [List.flatMap_cons, Nat.succ_mul, Nat.add_comm, ← List.drop_drop,
        List.drop_left' (h a (by simp)), ih fun a ha => h a (List.mem_cons_of_mem _ ha),
        List.drop_succ_cons]

/-- A scan reaches the first slot of the list with the property, or the end of the list. -/
theorem scan_eq (h : Inside data dir) (p : Entry → Bool) (position : Nat) :
    scan data dir p position = match slotFrom (slots data dir) p position with
      | some (e, k) => .found ⟨k, (addressAt dir.extents.inUse (k * Entry.slotSize)).getD 0, e⟩
      | none => .exhausted (max position (slotCount dir)) := by
  have hcount := blockCount_eq dir
  have hdiv := Nat.div_add_mod' position Entry.slotsPerBlock
  have hdrop : (slots data dir).drop position =
      ((dir.extents.blockNumbers.drop (position / Entry.slotsPerBlock)).flatMap
        (blockEntries data)).drop (position % Entry.slotsPerBlock) := by
    rw [← drop_flatMap (n := Entry.slotsPerBlock) fun b hb => (blockEntries_eq (h.inside b hb)).1,
      List.drop_drop, hdiv]
    rfl
  rw [slotFrom, hdrop, slotCount, hcount, scan]
  by_cases hle : position / Entry.slotsPerBlock ≤ dir.extents.blockNumbers.length
  · rw [scanBlocks_eq h p (by omega) (Nat.mod_lt _ (by decide)), hdiv]
  · have hnone : dir.extents.blockNumbers.drop (position / Entry.slotsPerBlock) = [] :=
      List.drop_of_length_le (by omega)
    have hsub : blockCount dir - position / Entry.slotsPerBlock = 0 := by omega
    have hmax : dir.extents.blockNumbers.length * Entry.slotsPerBlock ≤ position := by
      rw [← Nat.le_div_iff_mul_le (by decide)]
      omega
    rw [hnone, hsub, scanBlocks, hdiv, Nat.max_eq_left hmax, List.flatMap_nil, List.drop_nil]
    rfl

theorem find?_zipIdx_some {l : List Entry} {n k : Nat} {e : Entry}
    (h : (l.zipIdx n).find? (fun r => p r.1) = some (e, k)) :
    ∃ skipped rest, l = skipped ++ e :: rest ∧ k = n + skipped.length ∧ p e = true ∧
      ∀ a ∈ skipped, p a = false := by
  induction l generalizing n with
  | nil => cases h
  | cons x l ih =>
    rw [List.zipIdx_cons, List.find?_cons] at h
    cases hx : p x with
    | true =>
      simp only [hx, Option.some.injEq, Prod.mk.injEq] at h
      obtain ⟨rfl, rfl⟩ := h
      exact ⟨[], l, rfl, rfl, hx, by simp⟩
    | false =>
      simp only [hx] at h
      obtain ⟨skipped, rest, rfl, rfl, he, hskip⟩ := ih h
      refine ⟨x :: skipped, rest, rfl, ?_, he, ?_⟩
      · rw [List.length_cons]
        omega
      · intro a ha
        obtain rfl | ha := List.mem_cons.1 ha
        · exact hx
        · exact hskip a ha

theorem slotFrom_some {l : List Entry} {position k : Nat} {e : Entry}
    (h : slotFrom l p position = some (e, k)) :
    ∃ skipped, l.drop position = skipped ++ e :: l.drop (k + 1) ∧ k = position + skipped.length ∧
      p e = true ∧ ∀ a ∈ skipped, p a = false := by
  obtain ⟨skipped, rest, hl, hk, he, hskip⟩ := find?_zipIdx_some h
  refine ⟨skipped, ?_, hk, he, hskip⟩
  have hrest : l.drop (k + 1) = rest := by
    rw [hk, Nat.add_assoc, ← List.drop_drop, hl, ← List.drop_drop, List.drop_left,
      List.drop_one, List.tail_cons]
  rw [hrest, hl]

theorem slotFrom_none {l : List Entry} {position : Nat} (h : slotFrom l p position = none) :
    ∀ a ∈ l.drop position, p a = false := by
  intro a ha
  obtain ⟨i, hi, rfl⟩ := List.mem_iff_getElem.1 ha
  have hnone := List.find?_eq_none.1 h ((l.drop position)[i], position + i)
    (List.mk_add_mem_zipIdx_iff_getElem?.2 (List.getElem?_eq_getElem hi))
  simpa using hnone

theorem getElem?_of_slotFrom {l : List Entry} {position k : Nat} {e : Entry}
    (h : slotFrom l p position = some (e, k)) : l[k]? = some e ∧ p e = true := by
  obtain ⟨skipped, hl, rfl, he, -⟩ := slotFrom_some h
  refine ⟨?_, he⟩
  rw [← List.getElem?_drop, hl, List.getElem?_append_right (Nat.le_refl _), Nat.sub_self,
    List.getElem?_cons_zero]

theorem find_eq (h : Inside data dir) (p : Entry → Bool) :
    find data dir p = .ok ((slotFrom (slots data dir) p 0).map fun r =>
      ⟨r.2, (addressAt dir.extents.inUse (r.2 * Entry.slotSize)).getD 0, r.1⟩) := by
  rw [find, scan_eq h]
  cases slotFrom (slots data dir) p 0 <;> rfl

theorem next_eq (h : Inside data dir) (position : Nat) :
    next data dir position = match slotFrom (slots data dir) (!·.isFree) position with
      | some (e, k) => ⟨k + 1, some (.ok e)⟩
      | none => ⟨max position (slots data dir).length, none⟩ := by
  rw [next, scan_eq h, h.length_slots]
  cases slotFrom (slots data dir) (!·.isFree) position <;> rfl

theorem isEmpty_eq (h : Inside data dir) :
    isEmpty data dir = .ok (slotFrom (slots data dir) (!·.isFree) 0).isNone := by
  rw [isEmpty, next_eq h]
  cases slotFrom (slots data dir) (!·.isFree) 0 <;> rfl

theorem list_congr {dir' : Inode} (h : Inside data dir) (h' : Inside data' dir')
    (hslots : slots data' dir' = slots data dir) (position limit : Nat) :
    list data' dir' position limit = list data dir position limit := by
  induction limit generalizing position with
  | zero => rfl
  | succ limit ih =>
    rw [list, list, next_eq h, next_eq h', hslots]
    cases slotFrom (slots data dir) (!·.isFree) position with
    | none => rfl
    | some r => simp only [ih]

theorem list_entries (h : Inside data dir) (position limit : Nat) :
    (list data dir position limit).entries =
        (((slots data dir).drop position).filter (!·.isFree)).take limit ∧
      (list data dir position limit).stopped = none := by
  induction limit generalizing position with
  | zero => exact ⟨rfl, rfl⟩
  | succ limit ih =>
    rw [list, next_eq h]
    cases hs : slotFrom (slots data dir) (!·.isFree) position with
    | none =>
      have hnone : ((slots data dir).drop position).filter (!·.isFree) = [] :=
        List.filter_eq_nil_iff.2 fun a ha => by
          rw [slotFrom_none hs a ha]
          exact Bool.false_ne_true
      rw [hnone]
      exact ⟨rfl, rfl⟩
    | some r =>
      obtain ⟨e, k⟩ := r
      obtain ⟨skipped, hl, -, he, hskip⟩ := slotFrom_some hs
      have hnone : skipped.filter (!·.isFree) = [] := List.filter_eq_nil_iff.2 fun a ha => by
        rw [hskip a ha]
        exact Bool.false_ne_true
      have hfilter : ((slots data dir).drop position).filter (!·.isFree) =
          e :: ((slots data dir).drop (k + 1)).filter (!·.isFree) := by
        rw [hl, List.filter_append, hnone, List.nil_append, List.filter_cons, if_pos he]
      obtain ⟨hentries, hstop⟩ := ih (k + 1)
      rw [hfilter, List.take_succ_cons, ← hentries]
      exact ⟨rfl, hstop⟩

def blankEntry : Entry := ⟨Vector.replicate 28 0, 0⟩

theorem flatMap_blank (count : Nat) :
    (List.replicate count blankEntry).flatMap (Codec.slotBytes Entry.slotSize) =
      List.replicate (count * Entry.slotSize) 0 := by
  induction count with
  | zero => rw [Nat.zero_mul, List.replicate_zero, List.flatMap_nil, List.replicate_zero]
  | succ count ih =>
    have hbytes : Codec.slotBytes Entry.slotSize blankEntry =
        List.replicate Entry.slotSize 0 := by decide
    rw [List.replicate_succ, List.flatMap_cons, ih, hbytes, List.replicate_append_replicate,
      Nat.succ_mul, Nat.add_comm]

theorem blockEntries_zero (h : data.block? b = some .zero) :
    blockEntries data b = List.replicate Entry.slotsPerBlock blankEntry := by
  have hdecode := Codec.decodeSlots_flatMap (Nat.le_refl Entry.slotSize)
    (List.replicate Entry.slotsPerBlock blankEntry) []
  have hbytes : Block.zero.toList = List.replicate (Entry.slotsPerBlock * Entry.slotSize) 0 := by
    exact Vector.toList_replicate
  rw [flatMap_blank, List.append_nil, ← hbytes, List.length_replicate] at hdecode
  rw [blockEntries, h, Option.map_some, Option.getD_some, hdecode]

theorem find_slot (h : Inside data dir) {slot : Slot} (hf : find data dir p = .ok (some slot)) :
    (slots data dir)[slot.ordinal]? = some slot.entry ∧ p slot.entry = true ∧
      ∀ i < Entry.slotSize, addressAt dir.extents.inUse (slot.ordinal * Entry.slotSize + i) =
        some (slot.address + i) := by
  rw [find_eq h, Except.ok.injEq, Option.map_eq_some_iff] at hf
  obtain ⟨⟨e, k⟩, hs, rfl⟩ := hf
  obtain ⟨hget, he⟩ := getElem?_of_slotFrom hs
  refine ⟨hget, he, fun i hi => ?_⟩
  have hk := (List.getElem?_eq_some_iff.1 hget).1
  rw [slots, h.length_flatMap fun _ hb => hb] at hk
  have hlt : k * Entry.slotSize < (blockNumbers dir.extents.inUse).length * blockSize := by
    rw [← ExtentMap.blockNumbers]
    simp only [Entry.slotSize, Entry.slotsPerBlock, blockSize] at hk ⊢
    omega
  obtain ⟨address, haddress⟩ := exists_addressAt hlt
  simp only [haddress, Option.getD_some]
  apply addressAt_add haddress
  simp only [Entry.slotSize, blockSize] at hi ⊢
  omega

variable {foreign : Nat → Prop} {w : OpenInode}

theorem inside_of_owns (h : w.Owns foreign) : Inside w.data w.node :=
  ⟨h.size_lt, fun b hb => by
    rw [h.size]
    exact h.blocks.lt_total hb⟩

theorem write_slot (h : w.Owns foreign) {slot : Slot} (hf : find w.data w.node p = .ok (some slot))
    {bytes : List UInt8} (hbytes : bytes.length = Entry.slotSize) :
    w.data.write slot.address bytes =
        .ok ⟨BlockCache.setBytes w.data.cells slot.address bytes, w.data.start⟩ ∧
      ∀ i < bytes.length, addressAt w.node.extents.inUse (slot.ordinal * Entry.slotSize + i) =
        some (slot.address + i) := by
  obtain ⟨-, -, haddr⟩ := find_slot (inside_of_owns h) hf
  have haddr' : ∀ i < bytes.length,
      addressAt w.node.extents.inUse (slot.ordinal * Entry.slotSize + i) =
        some (slot.address + i) := fun i hi => haddr i (by omega)
  exact ⟨BlockCache.write_ok h.size_lt (h.range_le (by rw [hbytes]; decide) haddr'), haddr'⟩

/-- An entry is written in one step, behind those that add blocks. -/
theorem place_ensures (h : w.Owns foreign) (entry : Entry) (now : Int64) :
    Action.Ensures (place entry now) w (fun _ => OpenInode.Steps w) (fun _ => OpenInode.Steps w)
      False := by
  have hbytes : (Codec.encode entry).length = Entry.slotSize := Codec.length_encode entry
  unfold Action.Ensures
  fun_induction place entry now w with
  | case1 w stop hfind =>
    rw [find_eq (inside_of_owns h)] at hfind
    cases hfind
  | case2 w slot hfind stop hwrite =>
    rw [(write_slot h hfind hbytes).1] at hwrite
    cases hwrite
  | case3 w slot hfind data hwrite size =>
    obtain ⟨hok, haddr⟩ := write_slot h hfind hbytes
    obtain rfl := Except.ok.inj (hok.symm.trans hwrite)
    have hput := OpenInode.Step.put (by rw [hbytes]; decide) haddr
    rw [hbytes, ← Nat.succ_mul] at hput
    exact .tail (.single hput) .touch
  | case4 w hfind stop w' ha =>
    have hens := OpenInode.addExtent_steps h 1
    cases stop with
    | failure e =>
      obtain rfl := hens.of_failure ha
      exact .refl
    | trap t => simp [Action.Ensures, ha] at hens
  | case5 w hfind e w' ha ih =>
    have hstep := (OpenInode.addExtent_steps h 1).of_ok ha
    have hrest : Action.Ensures (place entry now) w' (fun _ => OpenInode.Steps w')
      (fun _ => OpenInode.Steps w') False := ih (hstep.keeps h).owns
    exact hrest.mono (fun _ _ => .head hstep) (fun _ _ => .head hstep) id

theorem checkName_ensures (name : String) :
    (Entry.checkName name).Ensures (fun _ => True) (fun _ => True) False := by
  simp only [Entry.checkName]
  split
  · trivial
  · split <;> trivial

theorem ofName_ensures (name : String) (inode : UInt32) :
    (Entry.ofName name inode).Ensures (fun e => e = ⟨Entry.fieldOf name, inode⟩) (fun _ => True)
      False := by
  apply (checkName_ensures name).bind
  intro _ _
  rfl

theorem insert_ensures (h : w.Owns foreign) (name : String) (inode : UInt32) (now : Int64) :
    Action.Ensures (insert name inode now) w (fun _ => OpenInode.Steps w)
      (fun _ => OpenInode.Steps w) False := by
  simp only [insert, Action.ensures_bind, Action.ensures_refuseIf]
  split
  · exact .refl
  · refine Action.ensures_bind.2 (Action.ensures_lift.2 ?_)
    exact (ofName_ensures name inode).mono (fun entry _ => place_ensures h entry now)
      (fun _ _ => .refl) id

theorem remove_ensures (h : w.Owns foreign) (name : String) (now : Int64) :
    Action.Ensures (remove name now) w (fun _ => OpenInode.Steps w) (fun _ _ => False) False := by
  simp only [remove, Action.ensures_bind, Action.ensures_get, Action.ensures_lift]
  cases hf : find w.data w.node (·.isFor name) with
  | error stop =>
    rw [find_eq (inside_of_owns h)] at hf
    cases hf
  | ok found =>
    cases found with
    | none => exact .refl
    | some slot =>
      obtain ⟨hok, haddr⟩ := write_slot h hf (List.length_replicate (n := Entry.slotSize) (a := 0))
      simp only [Fallible.ensures_ok, Action.ensures_bind, Action.ensures_lift, hok,
        Action.ensures_set]
      exact .tail (.single (.wipe (by decide) (by simpa using haddr))) .touch

theorem entries_append_blank (l : List Entry) (count position : Nat) :
    ((l ++ List.replicate count blankEntry).drop position).filter (!·.isFree) =
      (l.drop position).filter (!·.isFree) := by
  have hnone :
      ((List.replicate count blankEntry).drop (position - l.length)).filter (!·.isFree) = [] := by
    rw [List.drop_replicate, List.filter_eq_nil_iff]
    intro a ha
    rw [List.eq_of_mem_replicate ha]
    decide
  rw [List.drop_append, List.filter_append, hnone, List.append_nil]

/-- A new extent adds slots behind the others, and they are blank. -/
theorem slots_grow (h : w.Owns foreign) (hpacked : w.node.extents.Packed) {count : UInt32}
    {e : Extent} {node : Inode} {blocks : Bitmap}
    (ha : Inode.allocateExtent count (w.node, w.blocks) = .ok e (node, blocks)) :
    slots ⟨BlockCache.zeroBlocks w.data.cells e.start.toNat e.count.toNat, w.data.start⟩ node =
      slots w.data w.node ++
        List.replicate (e.count.toNat * Entry.slotsPerBlock) blankEntry := by
  obtain ⟨hgrown, -⟩ := h.blocks.grown ha
  rw [slots, ExtentMap.blockNumbers, (hgrown.pushed.packed hpacked).1, blockNumbers_append,
    List.flatMap_append, blockNumbers_cons, blockNumbers_nil, List.append_nil]
  congr 1
  · apply List.flatMap_congr
    intro b hb
    have hblock : BlockCache.block?
        ⟨BlockCache.zeroBlocks w.data.cells e.start.toNat e.count.toNat, w.data.start⟩ b =
          w.data.block? b :=
      BlockCache.block?_congr (h.zeroBlocks_used ha ((h.blocks.used_iff b).2 (.inl hb)))
    rw [blockEntries, blockEntries, hblock]
  · have hnew : ∀ b ∈ List.range' e.start.toNat e.count.toNat,
        blockEntries ⟨BlockCache.zeroBlocks w.data.cells e.start.toNat e.count.toNat,
          w.data.start⟩ b = List.replicate Entry.slotsPerBlock blankEntry := by
      intro b hb
      have hin := List.mem_range'_1.1 hb
      have hlt : b < w.data.cells.size := by
        have := hgrown.inside
        rw [h.size]
        simp only [Extent.endBlock] at this
        omega
      apply blockEntries_zero
      rw [BlockCache.block?, BlockCache.getElem?_zeroBlocks, if_pos hin,
        Array.getElem?_eq_getElem hlt]
      rfl
    rw [List.flatMap_congr hnew, List.eq_replicate_iff]
    refine ⟨by simp [List.length_flatMap], fun a ha => ?_⟩
    obtain ⟨-, -, ha⟩ := List.mem_flatMap.1 ha
    exact List.eq_of_mem_replicate ha

end ExtentVolume.Directory
