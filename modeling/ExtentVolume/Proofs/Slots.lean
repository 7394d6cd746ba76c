import ExtentVolume.Proofs.Directory

namespace ExtentVolume

namespace Directory

def placed (entry : Entry) (l : List Entry) : List Entry :=
  if l.any (·.isFree) then l.set (l.findIdx (·.isFree)) entry
  else l ++ entry :: List.replicate (Entry.slotsPerBlock - 1) blankEntry

def cleared (name : String) (l : List Entry) : List Entry :=
  l.set (l.findIdx (·.isFor name)) blankEntry

/-- Why a directory takes no further entry: its slots are in use and it cannot grow. -/
def Full (w : OpenInode) (e : VolumeError) : Prop :=
  (slots w.data w.node).any (·.isFree) = false ∧
    ((e = .noSpace ∧ w.blocks.free = 0) ∨
      (e = .noExtentSlots ∧ w.blocks.free ≠ 0 ∧ w.node.extents.inUse.length = 4))

variable {data : BlockCache} {dir : Inode} {p : Entry → Bool} {l : List Entry}

theorem exists_block (h : Inside data dir) {k : Nat} {e : Entry}
    (hk : (slots data dir)[k]? = some e) :
    ∃ b, dir.extents.blockNumbers[k / Entry.slotsPerBlock]? = some b ∧
      (blockEntries data b)[k % Entry.slotsPerBlock]? = some e := by
  have hdrop := drop_flatMap (f := blockEntries data) (n := Entry.slotsPerBlock)
    (l := dir.extents.blockNumbers) (fun b hb => (blockEntries_eq (h.inside b hb)).1)
    (k / Entry.slotsPerBlock)
  have hplace : ((slots data dir).drop (k / Entry.slotsPerBlock * Entry.slotsPerBlock))[
      k % Entry.slotsPerBlock]? = some e := by
    rw [List.getElem?_drop, Nat.div_add_mod', hk]
  rw [slots, hdrop] at hplace
  cases hrest : dir.extents.blockNumbers.drop (k / Entry.slotsPerBlock) with
  | nil =>
    rw [hrest] at hplace
    cases hplace
  | cons b rest =>
    have hb : dir.extents.blockNumbers[k / Entry.slotsPerBlock]? = some b := by
      rw [← Nat.add_zero (k / Entry.slotsPerBlock), ← List.getElem?_drop, hrest]
      rfl
    have hlength := (blockEntries_eq (h.inside b (List.mem_of_getElem? hb))).1
    rw [hrest, List.flatMap_cons, List.getElem?_append_left] at hplace
    · exact ⟨b, hb, hplace⟩
    · rw [hlength]
      exact Nat.mod_lt _ (by decide)

theorem encode_slot (h : Inside data dir) {k : Nat} {e : Entry}
    (hk : (slots data dir)[k]? = some e) :
    Codec.encode e = (List.range Entry.slotSize).map fun i =>
      byteIn data dir.extents.inUse (k * Entry.slotSize + i) := by
  obtain ⟨b, hb, he⟩ := exists_block h hk
  have hin := h.inside b (List.mem_of_getElem? hb)
  obtain ⟨-, hdecode⟩ := blockEntries_eq hin
  have hcell : ((data.cells[b]?.map fun c => c.content.toList).getD []) =
      data.cells[b].content.toList := by
    rw [Array.getElem?_eq_getElem hin]
    rfl
  rw [hcell] at hdecode
  have hmod : k % Entry.slotsPerBlock < Entry.slotsPerBlock := Nat.mod_lt _ (by decide)
  have hencode : Codec.encode e = (data.cells[b].content.toList.drop
      (k % Entry.slotsPerBlock * Entry.slotSize)).take Entry.slotSize := by
    apply Codec.encode_getElem_decodeSlots rfl _ hdecode he
    rw [Vector.length_toList]
    decide
  have haddress := @slotAddress b _ _ dir.extents.inUse hb hmod
  rw [Nat.div_add_mod'] at haddress
  simp only [Entry.slotsPerBlock, Entry.slotSize, blockSize] at hmod hencode haddress
  rw [hencode]
  apply List.ext_getElem
  · simp only [List.length_take, List.length_drop, Vector.length_toList, List.length_map,
      List.length_range, Entry.slotSize]
    omega
  · intro i hi _
    have hi : i < 32 := by
      rw [List.length_take] at hi
      omega
    have hbyte := addressAt_add (i := i) haddress (by
      simp only [blockSize]
      omega)
    have hdiv : (b * 4096 + k % 128 * 32 + i) / blockSize = b := by
      simp only [blockSize]
      omega
    have hrest : (b * 4096 + k % 128 * 32 + i) % blockSize = k % 128 * 32 + i := by
      simp only [blockSize]
      omega
    have hlt : k % 128 * 32 + i < blockSize := by
      simp only [blockSize]
      omega
    simp only [List.getElem_take, List.getElem_drop, List.getElem_map, List.getElem_range,
      Vector.getElem_toList, Entry.slotSize]
    rw [byteIn_of_some hbyte, BlockCache.byteAt_eq, hdiv, hrest, BlockCache.block?,
      Array.getElem?_eq_getElem hin, Option.map_some, Option.bind_some,
      Vector.getElem?_eq_getElem hlt, Option.getD_some]

theorem slots_eq_of_bytes (h : Inside data dir) (hlength : l.length = (slots data dir).length)
    (hl : ∀ k e, l[k]? = some e → Codec.encode e = (List.range Entry.slotSize).map fun i =>
      byteIn data dir.extents.inUse (k * Entry.slotSize + i)) : slots data dir = l := by
  apply List.ext_getElem hlength.symm
  intro k hk hk'
  apply Codec.encode_injective
  rw [encode_slot h (List.getElem?_eq_getElem hk), hl k _ (List.getElem?_eq_getElem hk')]

theorem slotFrom_zero (l : List Entry) (p : Entry → Bool) :
    slotFrom l p 0 = (l.find? p).map fun e => (e, l.findIdx p) := by
  cases hs : slotFrom l p 0 with
  | none =>
    have hnone : l.find? p = none := by
      rw [List.find?_eq_none]
      intro a ha
      rw [slotFrom_none hs a ha]
      exact Bool.false_ne_true
    rw [hnone, Option.map_none]
  | some r =>
    obtain ⟨e, k⟩ := r
    obtain ⟨skipped, hl, hk, he, hskip⟩ := slotFrom_some hs
    rw [List.drop_zero] at hl
    have hnone : skipped.find? p = none := by
      rw [List.find?_eq_none]
      intro a ha
      rw [hskip a ha]
      exact Bool.false_ne_true
    have hindex : skipped.findIdx p = skipped.length := by
      rw [List.findIdx_eq_length]
      exact hskip
    have hfind : l.find? p = some e := by
      rw [hl, List.find?_append, hnone, Option.none_or, List.find?_cons_of_pos he]
    have hfirst : l.findIdx p = k := by
      rw [hl, List.findIdx_append, hindex, if_neg (Nat.lt_irrefl _), List.findIdx_cons, he, hk]
      simp
    rw [hfind, hfirst, Option.map_some]

theorem find_eq_find? (h : Inside data dir) (p : Entry → Bool) :
    find data dir p = .ok (((slots data dir).find? p).map fun e =>
      ⟨(slots data dir).findIdx p,
        (addressAt dir.extents.inUse ((slots data dir).findIdx p * Entry.slotSize)).getD 0, e⟩) := by
  rw [find_eq h, slotFrom_zero, Option.map_map]
  rfl

theorem lookup_eq (h : Inside data dir) (name : String) :
    lookup data dir name = .ok (((slots data dir).find? (·.isFor name)).map (·.inode)) := by
  simp only [lookup, find_eq_find? h, bind, Except.bind, pure, Except.pure, Option.map_map]
  rfl

theorem isEmpty_eq_all (h : Inside data dir) :
    isEmpty data dir = .ok ((slots data dir).all (·.isFree)) := by
  rw [isEmpty_eq h, slotFrom_zero, Option.isNone_map]
  congr 1
  rw [Bool.eq_iff_iff, Option.isNone_iff_eq_none, List.find?_eq_none, List.all_eq_true]
  simp

theorem any_isFree_grown (l : List Entry) {count : Nat} (hpos : 0 < count) :
    (l ++ List.replicate count blankEntry).any (·.isFree) = true := by
  rw [List.any_append, Bool.or_eq_true]
  right
  rw [List.any_eq_true]
  exact ⟨blankEntry, List.mem_replicate.2 ⟨Nat.ne_of_gt hpos, rfl⟩, by decide⟩

/-- The first free slot of a full directory that has grown is the first one of the new block. -/
theorem placed_grown (entry : Entry) (hfull : l.any (·.isFree) = false) :
    placed entry (l ++ List.replicate Entry.slotsPerBlock blankEntry) = placed entry l := by
  have hindex : l.findIdx (·.isFree) = l.length := by
    rw [List.findIdx_eq_length]
    intro a ha
    rw [List.any_eq_false] at hfull
    simpa using hfull a ha
  have hfirst : (l ++ List.replicate Entry.slotsPerBlock blankEntry).findIdx (·.isFree) =
      l.length := by
    have hblank : (List.replicate Entry.slotsPerBlock blankEntry).findIdx (·.isFree) = 0 := rfl
    rw [List.findIdx_append, hindex, if_neg (Nat.lt_irrefl _), hblank, Nat.zero_add]
  rw [placed, if_pos (any_isFree_grown l (by decide)), hfirst, placed, hfull,
    List.set_append_right _ _ (Nat.le_refl _), Nat.sub_self]
  rfl

theorem set_findIdx {e : Entry} (h : l.find? p = some e) :
    ∃ before behind, l = before ++ e :: behind ∧
      ∀ entry, l.set (l.findIdx p) entry = before ++ entry :: behind := by
  obtain ⟨he, before, behind, rfl, hbefore⟩ := List.find?_eq_some_iff_append.1 h
  have hindex : before.findIdx p = before.length := by
    rw [List.findIdx_eq_length]
    intro a ha
    simpa using hbefore a ha
  have hfirst : (before ++ e :: behind).findIdx p = before.length := by
    rw [List.findIdx_append, hindex, if_neg (Nat.lt_irrefl _), List.findIdx_cons, he]
    simp
  refine ⟨before, behind, rfl, fun entry => ?_⟩
  rw [hfirst, List.set_append_right _ _ (Nat.le_refl _), Nat.sub_self, List.set_cons_zero]

/-- What is counted among the entries in use is counted once more for an entry that is added. -/
theorem countP_placed (entry : Entry) (hp : ∀ e, e.isFree = true → p e = false) :
    (placed entry l).countP p = l.countP p + if p entry then 1 else 0 := by
  rw [placed]
  split
  · rename_i hany
    obtain ⟨e, he⟩ := Option.isSome_iff_exists.1 (List.find?_isSome.2 (List.any_eq_true.1 hany))
    obtain ⟨before, behind, rfl, hset⟩ := set_findIdx he
    have hfree := hp e (List.find?_some he)
    rw [hset]
    simp only [List.countP_append, List.countP_cons, hfree, Bool.false_eq_true, if_false]
    omega
  · have hblank : (List.replicate (Entry.slotsPerBlock - 1) blankEntry).countP p = 0 := by
      rw [List.countP_eq_zero]
      intro e he
      rw [List.eq_of_mem_replicate he, hp blankEntry rfl]
      exact Bool.false_ne_true
    rw [List.countP_append, List.countP_cons, hblank, Nat.zero_add]

theorem countP_cleared {name : String} {e : Entry} (hp : p blankEntry = false)
    (h : l.find? (·.isFor name) = some e) :
    (cleared name l).countP p + (if p e then 1 else 0) = l.countP p := by
  obtain ⟨before, behind, rfl, hset⟩ := set_findIdx h
  rw [cleared, hset]
  simp only [List.countP_append, List.countP_cons, hp, Bool.false_eq_true, if_false]
  omega

variable {foreign : Nat → Prop} {w : OpenInode}

theorem slots_setBytes (h : w.Owns foreign) {slot : Slot}
    (hf : find w.data w.node p = .ok (some slot)) (entry : Entry) :
    slots ⟨BlockCache.setBytes w.data.cells slot.address (Codec.encode entry), w.data.start⟩ w.node =
      (slots w.data w.node).set slot.ordinal entry := by
  have hbytes : (Codec.encode entry).length = Entry.slotSize := Codec.length_encode entry
  have hinside := inside_of_owns h
  obtain ⟨hget, -, -⟩ := find_slot hinside hf
  obtain ⟨-, haddr⟩ := write_slot h hf hbytes
  have hinside' : Inside ⟨BlockCache.setBytes w.data.cells slot.address (Codec.encode entry),
      w.data.start⟩ w.node := by
    refine ⟨?_, fun b hb => ?_⟩
    · rw [BlockCache.size_setBytes]
      exact hinside.bounded
    · rw [BlockCache.size_setBytes]
      exact hinside.inside b hb
  apply slots_eq_of_bytes hinside'
  · rw [List.length_set, hinside.length_slots, hinside'.length_slots]
  · intro k e hk
    have hbyte := h.byteIn_setBytes (by rw [hbytes]; decide) haddr
    rw [hbytes] at hbyte
    by_cases hslot : slot.ordinal = k
    · subst hslot
      rw [List.getElem?_set_self (List.getElem?_eq_some_iff.1 hget).1] at hk
      obtain rfl := Option.some.inj hk
      apply List.ext_getElem
      · rw [hbytes, List.length_map, List.length_range]
      · intro i hi _
        rw [hbytes] at hi
        rw [List.getElem_map, List.getElem_range, hbyte, if_pos (by omega), Nat.add_sub_cancel_left,
          List.getElem?_eq_getElem (by rw [hbytes]; exact hi), Option.getD_some]
    · rw [List.getElem?_set_ne hslot] at hk
      rw [encode_slot hinside hk]
      apply List.map_congr_left
      intro i hi
      rw [List.mem_range] at hi
      rw [hbyte, if_neg]
      simp only [Entry.slotSize] at hi ⊢
      omega

/-- Where a slot is free, the entry is put into the first one, and no block is taken. -/
theorem place_found (h : w.Owns foreign) (entry : Entry) (now : Int64)
    (hfree : (slots w.data w.node).any (·.isFree) = true) :
    ∃ w', place entry now w = .ok () w' ∧
      slots w'.data w'.node = placed entry (slots w.data w.node) ∧ w'.blocks = w.blocks := by
  obtain ⟨slot, hfind, hordinal⟩ : ∃ slot, find w.data w.node (·.isFree) = .ok (some slot) ∧
      slot.ordinal = (slots w.data w.node).findIdx (·.isFree) := by
    obtain ⟨e, he⟩ : ∃ e, (slots w.data w.node).find? (·.isFree) = some e := by
      rw [← Option.isSome_iff_exists, List.find?_isSome]
      exact List.any_eq_true.1 hfree
    refine ⟨_, (find_eq_find? (inside_of_owns h) (·.isFree)).trans (by rw [he]; rfl), rfl⟩
  have hwrite := (write_slot h hfind (Codec.length_encode entry)).1
  have hplace : place entry now w = .ok () (OpenInode.touch { w with
      data := ⟨BlockCache.setBytes w.data.cells slot.address (Codec.encode entry), w.data.start⟩
      node := { w.node with
        size := .ofNat (max w.node.size.toNat ((slot.ordinal + 1) * Entry.slotSize)) } } now) := by
    rw [place]
    simp only [hfind, hwrite]
  refine ⟨_, hplace, ?_, rfl⟩
  rw [placed, if_pos hfree, ← hordinal]
  exact slots_setBytes h hfind entry

theorem place_slots (h : w.Owns foreign) (hpacked : w.node.extents.Packed) (entry : Entry)
    (now : Int64) :
    Action.Ensures (place entry now) w
      (fun _ w' => slots w'.data w'.node = placed entry (slots w.data w.node) ∧ (∀ e, ¬Full w e) ∧
        ((slots w.data w.node).any (·.isFree) = true → w'.blocks = w.blocks))
      (fun e w' => w' = w ∧ Full w e) False := by
  cases hfree : (slots w.data w.node).any (·.isFree) with
  | true =>
    obtain ⟨w', hplace, hslots, hblocks⟩ := place_found h entry now hfree
    simp only [Action.Ensures, hplace]
    refine ⟨hslots, fun e hfull => ?_, fun _ => hblocks⟩
    rw [hfull.1] at hfree
    cases hfree
  | false =>
    have hfind : find w.data w.node (·.isFree) = .ok none := by
      have hnone : (slots w.data w.node).find? (·.isFree) = none := by
        rw [List.find?_eq_none]
        simpa using hfree
      rw [find_eq_find? (inside_of_owns h), hnone, Option.map_none]
    have hens := OpenInode.addExtent_ensures h 1
    unfold Action.Ensures
    rw [place]
    simp only [hfind]
    cases ha : OpenInode.addExtent 1 w with
    | error stop w' =>
      cases stop with
      | failure e =>
        obtain ⟨rfl, hrefused⟩ := hens.of_failure ha
        exact ⟨rfl, hfree, h.blocks.block_refused hrefused⟩
      | trap t => simp [Action.Ensures, ha] at hens
    | ok e w' =>
      -- the new block has free slots, so that the second search succeeds
      obtain ⟨node, blocks, halloc, rfl⟩ := hens.of_ok ha
      obtain ⟨hblock, hslot, -⟩ := h.blocks.room_of_block halloc
      have hgrown := slots_grow h hpacked halloc
      have howns := (OpenInode.Step.keeps (.grow halloc) h).owns
      have hone : e.count.toNat * Entry.slotsPerBlock = Entry.slotsPerBlock := by
        rw [(Inode.of_allocateExtent halloc).2.1]
        rfl
      rw [hone] at hgrown
      obtain ⟨w'', hplace, hslots, -⟩ := place_found howns entry now (by
        rw [hgrown]
        exact any_isFree_grown _ (by decide))
      simp only [hplace]
      refine ⟨by rw [hslots, hgrown, placed_grown entry hfree], fun e hfull => ?_, fun h => ?_⟩
      · obtain ⟨-, ⟨-, hnone⟩ | ⟨-, -, hfour⟩⟩ := hfull
        · exact hblock hnone
        · omega
      · cases h

theorem insert_slots (h : w.Owns foreign) (hpacked : w.node.extents.Packed) (name : String)
    (inode : UInt32) (now : Int64) :
    Action.Ensures (insert name inode now) w
      (fun _ w' => inode ≠ 0 ∧ Entry.checkName name = .ok () ∧ (∀ e, ¬Full w e) ∧
        slots w'.data w'.node = placed ⟨Entry.fieldOf name, inode⟩ (slots w.data w.node) ∧
        ((slots w.data w.node).any (·.isFree) = true → w'.blocks = w.blocks))
      (fun e w' => w' = w ∧ (inode ≠ 0 → Entry.checkName name = .ok () → Full w e)) False := by
  simp only [insert, Action.ensures_bind, Action.ensures_refuseIf]
  split
  · rename_i hzero
    exact ⟨trivial, fun h => absurd hzero h⟩
  · rename_i hinode
    refine Action.ensures_bind.2 (Action.ensures_lift.2 ?_)
    cases hname : Entry.checkName name with
    | error stop =>
      have hof : Entry.ofName name inode = .error stop := by
        rw [Entry.ofName, hname]
        rfl
      have hens := checkName_ensures name
      rw [hname] at hens
      rw [hof]
      cases stop with
      | failure e => exact ⟨rfl, fun _ h => by cases h⟩
      | trap t => exact hens
    | ok u =>
      have hof : Entry.ofName name inode = .ok ⟨Entry.fieldOf name, inode⟩ := by
        rw [Entry.ofName, hname]
        rfl
      rw [hof]
      refine (place_slots h hpacked ⟨Entry.fieldOf name, inode⟩ now).mono ?_ ?_ id
      · rintro _ w' ⟨hslots, hroom, hblocks⟩
        exact ⟨hinode, rfl, hroom, hslots, hblocks⟩
      · rintro e w' ⟨hsame, hfull⟩
        exact ⟨hsame, fun _ _ => hfull⟩

theorem encode_blankEntry : Codec.encode blankEntry = List.replicate Entry.slotSize 0 := by decide

theorem remove_slots (h : w.Owns foreign) (name : String) (now : Int64) :
    Action.Ensures (remove name now) w
      (fun found w' => found = ((slots w.data w.node).find? (·.isFor name)).map (·.inode) ∧
        slots w'.data w'.node = cleared name (slots w.data w.node) ∧ w'.blocks = w.blocks)
      (fun _ _ => False) False := by
  have hfind := find_eq_find? (inside_of_owns h) (·.isFor name)
  simp only [remove, Action.ensures_bind, Action.ensures_get, Action.ensures_lift]
  cases hf : (slots w.data w.node).find? (·.isFor name) with
  | none =>
    rw [hf, Option.map_none] at hfind
    have hindex : (slots w.data w.node).findIdx (·.isFor name) = (slots w.data w.node).length := by
      rw [List.findIdx_eq_length]
      simpa using List.find?_eq_none.1 hf
    rw [hfind]
    refine ⟨rfl, ?_, rfl⟩
    rw [cleared, hindex, List.set_eq_of_length_le (Nat.le_refl _)]
  | some e =>
    rw [hf, Option.map_some] at hfind
    have hwrite := (write_slot h hfind (List.length_replicate (n := Entry.slotSize) (a := 0))).1
    have hslots := slots_setBytes h hfind blankEntry
    rw [encode_blankEntry] at hslots
    rw [hfind]
    simp only [Fallible.ensures_ok, Action.ensures_bind, Action.ensures_lift, hwrite,
      Action.ensures_set]
    exact ⟨rfl, hslots, rfl⟩

end Directory

end ExtentVolume
