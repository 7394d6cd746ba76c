import ExtentVolume.Proofs.File

namespace ExtentVolume.OpenInode

variable {foreign : Nat → Prop} {w w' w'' : OpenInode} {offset written : Nat} {bytes : List UInt8}

/-- After the first `written` of the bytes were written at an offset. -/
structure Wrote (w : OpenInode) (offset : Nat) (bytes : List UInt8) (written : Nat)
    (w' : OpenInode) : Prop where
  written_le : written ≤ bytes.length
  size : w'.node.size.toNat =
    if written = 0 then w.node.size.toNat else max w.node.size.toNat (offset + written)
  byteIn : ∀ i, byteIn w'.data w'.node.extents.inUse i =
    if offset ≤ i ∧ i < offset + written then bytes[i - offset]?.getD 0
    else byteIn w.data w.node.extents.inUse i

theorem Wrote.refl (w : OpenInode) (offset : Nat) (bytes : List UInt8) :
    Wrote w offset bytes 0 w := by
  refine ⟨Nat.zero_le _, by rw [if_pos rfl], fun i => ?_⟩
  rw [if_neg (by omega)]

theorem Wrote.append {more : List UInt8} {n : Nat} (h : Wrote w offset bytes n w')
    (hn : bytes.length = n) (hmore : Wrote w' (offset + n) more written w'') :
    Wrote w offset (bytes ++ more) (n + written) w'' := by
  subst hn
  refine ⟨?_, ?_, fun i => ?_⟩
  · rw [List.length_append]
    exact Nat.add_le_add_left hmore.written_le _
  · rw [hmore.size, h.size]
    split_ifs <;> omega
  · rw [hmore.byteIn]
    by_cases hnew : offset + bytes.length ≤ i ∧ i < offset + bytes.length + written
    · rw [if_pos hnew, if_pos (by omega), List.getElem?_append_right (by omega)]
      congr 2
      omega
    · rw [if_neg hnew, h.byteIn]
      by_cases hin : offset ≤ i ∧ i < offset + bytes.length
      · rw [if_pos hin, if_pos (by omega), List.getElem?_append_left (by omega)]
      · rw [if_neg hin, if_neg (by omega)]

theorem Owns.wrote_grow (h : w.Owns foreign) (hpacked : w.node.extents.Packed) (offset : Nat)
    {count : UInt32} {e : Extent} {node : Inode} {blocks : Bitmap}
    (ha : Inode.allocateExtent count (w.node, w.blocks) = .ok e (node, blocks)) :
    Wrote w offset [] 0 ⟨node, blocks,
      ⟨BlockCache.zeroBlocks w.data.cells e.start.toNat e.count.toNat, w.data.start⟩⟩ := by
  refine ⟨Nat.zero_le _, ?_, fun i => ?_⟩
  · rw [(h.blocks.grown ha).1.record]
    rfl
  · rw [h.byteIn_grow hpacked ha, if_neg (by omega)]

theorem Owns.wrote_put (h : w.Owns foreign) (hw : w.Sound) {address : Nat} (hpos : 0 < bytes.length)
    (ha : ∀ i < bytes.length,
      addressAt w.node.extents.inUse (offset + i) = some (address + i)) :
    Wrote w offset bytes bytes.length { w with
      data := ⟨BlockCache.setBytes w.data.cells address bytes, w.data.start⟩
      node := { w.node with size := .ofNat (max w.node.size.toNat (offset + bytes.length)) } } := by
  refine ⟨Nat.le_refl _, ?_, h.byteIn_setBytes hpos ha⟩
  have hcap := h.capacity_lt
  have hmapped := hw.mapped
  have hlast := addressAt_lt (ha (bytes.length - 1) (by omega))
  simp only [ExtentMap.blockNumbers] at hcap hmapped
  rw [if_neg (by omega)]
  apply UInt64.toNat_ofNat_of_lt'
  simp only [UInt64.size]
  omega

theorem Owns.write_piece (h : w.Owns foreign) {m : Mapping}
    (hm : w.node.extents.locate offset = some m) (hne : bytes ≠ []) :
    w.data.write m.physical (bytes.take (min bytes.length m.available)) =
        .ok ⟨BlockCache.setBytes w.data.cells m.physical
          (bytes.take (min bytes.length m.available)), w.data.start⟩ ∧
      0 < (bytes.take (min bytes.length m.available)).length ∧
      ∀ i < (bytes.take (min bytes.length m.available)).length,
        addressAt w.node.extents.inUse (offset + i) = some (m.physical + i) := by
  have havail := locate_available_pos hm
  have hlen := List.length_pos_iff.2 hne
  have hpos : 0 < (bytes.take (min bytes.length m.available)).length := by
    rw [List.length_take]
    omega
  have haddr : ∀ i < (bytes.take (min bytes.length m.available)).length,
      addressAt w.node.extents.inUse (offset + i) = some (m.physical + i) := by
    intro i hi
    rw [List.length_take] at hi
    exact addressAt_of_locate hm (by omega)
  exact ⟨BlockCache.write_ok h.size_lt (h.range_le hpos haddr), hpos, haddr⟩

theorem Owns.addExtent_error (h : w.Owns foreign) {count : UInt32} {stop : Stop VolumeError}
    (ha : addExtent count w = .error stop w') : (∃ e, stop = .failure e) ∧ w' = w := by
  have hens := addExtent_ensures h count
  cases stop with
  | failure e => exact ⟨⟨e, rfl⟩, (hens.of_failure ha).1⟩
  | trap t => simp [Action.Ensures, ha] at hens

theorem copy_steps (h : w.Owns foreign) (offset : Nat) (bytes : List UInt8) :
    Steps w (w.copy offset bytes).inode ∧ match (w.copy offset bytes).stopped with
      | none => (w.copy offset bytes).written = bytes.length
      | some (.failure _) => (w.copy offset bytes).written < bytes.length
      | some (.trap _) => False := by
  fun_induction copy w offset bytes with
  | case1 w offset bytes hempty =>
    obtain rfl : bytes = [] := by simpa using hempty
    exact ⟨.refl, rfl⟩
  | case2 w offset bytes hne hm e w' ha ih =>
    have hstep := (addExtent_steps h 1).of_ok ha
    obtain ⟨hsteps, hstop⟩ := ih (hstep.keeps h).owns
    exact ⟨.head hstep hsteps, hstop⟩
  | case3 w offset bytes hne hm stop w' ha =>
    obtain ⟨⟨e, rfl⟩, rfl⟩ := h.addExtent_error ha
    exact ⟨.refl, List.length_pos_iff.2 (by simpa using hne)⟩
  | case4 w offset bytes hne m hm here stop hwrite =>
    obtain ⟨hok, -⟩ := h.write_piece hm (by simpa using hne)
    rw [hok] at hwrite
    cases hwrite
  | case5 w offset bytes hne m hm here data hwrite size rest ih =>
    obtain ⟨hok, hpos, haddr⟩ := h.write_piece hm (by simpa using hne)
    obtain rfl := Except.ok.inj (hok.symm.trans hwrite)
    have hstep := Step.put hpos haddr
    have hhere : here ≤ bytes.length := Nat.min_le_left _ _
    have hlen : (bytes.take here).length = here := by
      rw [List.length_take]
      omega
    rw [hlen] at hstep
    obtain ⟨hsteps, hstop⟩ := ih (hstep.keeps h).owns
    rw [List.length_drop] at hstop
    refine ⟨.head hstep hsteps, ?_⟩
    change match rest.stopped with
      | none => here + rest.written = bytes.length
      | some (.failure _) => here + rest.written < bytes.length
      | some (.trap _) => False
    split
    · rename_i hnone
      have hdone : rest.written = bytes.length - here := by simpa [rest, hnone] using hstop
      omega
    · rename_i hsome
      have hless : rest.written < bytes.length - here := by simpa [rest, hsome] using hstop
      omega
    · rename_i hsome
      simp [rest, hsome] at hstop

theorem copy_wrote (h : w.Owns foreign) (hw : w.Sound) (offset : Nat) (bytes : List UInt8) :
    Wrote w offset bytes (w.copy offset bytes).written (w.copy offset bytes).inode := by
  fun_induction copy w offset bytes with
  | case1 w offset bytes hempty =>
    obtain rfl : bytes = [] := by simpa using hempty
    exact .refl _ _ _
  | case2 w offset bytes hne hm e w' ha ih =>
    obtain ⟨node, blocks, halloc, rfl⟩ := (addExtent_ensures h 1).of_ok ha
    have hstep := Step.grow halloc
    have hall := (h.wrote_grow hw.packed offset halloc).append rfl
      (ih (hstep.keeps h).owns (hstep.sound h hw))
    rwa [List.nil_append, Nat.zero_add] at hall
  | case3 w offset bytes hne hm stop w' ha =>
    obtain ⟨-, rfl⟩ := h.addExtent_error ha
    exact .refl _ _ _
  | case4 w offset bytes hne m hm here stop hwrite =>
    obtain ⟨hok, -⟩ := h.write_piece hm (by simpa using hne)
    rw [hok] at hwrite
    cases hwrite
  | case5 w offset bytes hne m hm here data hwrite size rest ih =>
    obtain ⟨hok, hpos, haddr⟩ := h.write_piece hm (by simpa using hne)
    obtain rfl := Except.ok.inj (hok.symm.trans hwrite)
    have hstep := Step.put hpos haddr
    have hlen : (bytes.take here).length = here := by
      rw [List.length_take]
      exact Nat.min_eq_left (Nat.min_le_left _ _)
    have hput := h.wrote_put hw hpos haddr
    rw [hlen] at hstep hput
    have hall := hput.append hlen (ih (hstep.keeps h).owns (hstep.sound h hw))
    rwa [List.take_append_drop] at hall

theorem Wrote.touch (h : Wrote w offset bytes written w') (now : Int64) :
    Wrote w offset bytes written (w'.touch now) :=
  ⟨h.written_le, h.size, h.byteIn⟩

theorem ensureExtent_ensures (h : w.Owns foreign) (offset : Nat) :
    Action.Ensures ensureExtent w
      (fun _ w' => Steps w w' ∧ (w.Sound → Wrote w offset [] 0 w')) (fun _ w' => w' = w) False := by
  simp only [ensureExtent, Action.ensures_bind, Action.ensures_get]
  split
  · rw [Action.ensures_bind]
    refine (addExtent_ensures h 1).mono ?_ (fun _ _ h => h.1) id
    rintro e w' ⟨node, blocks, halloc, rfl⟩
    exact ⟨.single (.grow halloc), fun hw => h.wrote_grow hw.packed offset halloc⟩
  · exact ⟨.refl, fun _ => .refl _ _ _⟩

/-- A write comes to an end. It reports all bytes as written, or how many of them were. -/
theorem write_ensures (h : w.Owns foreign) (now : Int64) (offset : Nat) (bytes : List UInt8) :
    Action.Ensures (write now offset bytes) w
      (fun n w' => n = bytes.length ∧ Steps w w' ∧ (w.Sound → Wrote w offset bytes n w'))
      (fun e w' => (bytes ≠ [] → e.written < bytes.length) ∧ Steps w w' ∧
        (w.Sound → Wrote w offset bytes e.written w')) False := by
  unfold write
  simp only [Action.ensures_bind, Action.ensures_restate, Action.ensures_get, Action.ensures_set]
  refine (ensureExtent_ensures h offset).mono ?_ ?_ id
  · rintro - w₁ ⟨hsteps₁, hwrote₁⟩
    have h₁ := (hsteps₁.keeps h).owns
    obtain ⟨hsteps, hstop⟩ := copy_steps h₁ offset bytes
    generalize hcopied : w₁.copy offset bytes = copied at hsteps hstop
    have hall : Steps w (if copied.written = 0 then copied.inode else copied.inode.touch now) := by
      split
      · exact hsteps₁.trans hsteps
      · exact .tail (hsteps₁.trans hsteps) .touch
    have hwrote : w.Sound → Wrote w offset bytes copied.written
        (if copied.written = 0 then copied.inode else copied.inode.touch now) := by
      intro hw
      have hcopy := copy_wrote h₁ (hsteps₁.sound h hw) offset bytes
      rw [hcopied] at hcopy
      have hwrote := (hwrote₁ hw).append rfl hcopy
      rw [List.nil_append, Nat.zero_add] at hwrote
      split
      · exact hwrote
      · exact hwrote.touch now
    cases hs : copied.stopped with
    | none =>
      rw [hs] at hstop
      exact ⟨hstop, hall, hwrote⟩
    | some stop =>
      rw [hs] at hstop
      cases stop with
      | failure e => exact ⟨fun _ => hstop, hall, hwrote⟩
      | trap t => exact hstop
  · rintro e w' rfl
    exact ⟨List.length_pos_iff.2, .refl, fun _ => .refl _ _ _⟩

end ExtentVolume.OpenInode
