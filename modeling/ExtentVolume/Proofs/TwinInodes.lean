import ExtentVolume.Proofs.Coupled
import ExtentVolume.Proofs.Directory
import ExtentVolume.Proofs.FileWrite

namespace ExtentVolume

namespace BlockCache

/-- The areas have the same content in the blocks with the property. -/
structure Agree (S : Nat → Prop) (a a' : BlockCache) : Prop where
  start : a'.start = a.start
  size : a'.cells.size = a.cells.size
  content : ∀ b, S b → a'.block? b = a.block? b

variable {S S' : Nat → Prop} {a a' : BlockCache}

theorem Agree.mono (h : Agree S a a') (hsub : ∀ b, S' b → S b) : Agree S' a a' :=
  ⟨h.start, h.size, fun b hb => h.content b (hsub b hb)⟩

theorem Agree.check (h : Agree S a a') (address length : Nat) :
    a'.check address length = a.check address length := by
  have hsize : a'.size = a.size := congrArg (· * blockSize) h.size
  rw [BlockCache.check, BlockCache.check, hsize]

theorem Agree.map_zero (h : Agree S a a') (b : Nat) :
    (a'.block? b).map (fun _ => Block.zero) = (a.block? b).map fun _ => Block.zero := by
  by_cases hb : b < a.cells.size
  · have hb' : b < a'.cells.size := h.size ▸ hb
    rw [block?, block?, Array.getElem?_eq_getElem hb, Array.getElem?_eq_getElem hb']
    rfl
  · have hb' : ¬b < a'.cells.size := h.size ▸ hb
    rw [block?, block?, Array.getElem?_eq_none (Nat.not_lt.1 hb),
      Array.getElem?_eq_none (Nat.not_lt.1 hb')]

theorem Agree.setBytes (h : Agree S a a') (address : Nat) (bytes : List UInt8) :
    Agree S ⟨setBytes a.cells address bytes, a.start⟩
      ⟨setBytes a'.cells address bytes, a'.start⟩ := by
  induction bytes generalizing a a' address with
  | nil => exact h
  | cons byte rest ih =>
    have hfirst : Agree S ⟨setByte a.cells address byte, a.start⟩
        ⟨setByte a'.cells address byte, a'.start⟩ := by
      refine ⟨h.start, ?_, fun b hb => ?_⟩
      · rw [size_setByte, size_setByte]
        exact h.size
      · rw [block?_setByte, block?_setByte, h.content b hb]
    exact ih hfirst (address + 1)

theorem Agree.zeroBlocks (h : Agree S a a') (first count : Nat) :
    Agree (fun b => S b ∨ (first ≤ b ∧ b < first + count)) ⟨zeroBlocks a.cells first count, a.start⟩
      ⟨zeroBlocks a'.cells first count, a'.start⟩ := by
  refine ⟨h.start, ?_, fun b hb => ?_⟩
  · rw [size_zeroBlocks, size_zeroBlocks]
    exact h.size
  · rw [block?_zeroBlocks, block?_zeroBlocks]
    split
    · exact h.map_zero b
    · rename_i hout
      exact h.content b (hb.resolve_right hout)

theorem Agree.write (h : Agree S a a') (address : Nat) (bytes : List UInt8) :
    (a.write address bytes).Coupled (a'.write address bytes) (Agree S) := by
  unfold BlockCache.write
  rw [h.check]
  cases a.check address bytes.length with
  | ok _ => exact .ok rfl rfl (h.setBytes address bytes)
  | error stop => exact .error rfl rfl

theorem Agree.zeroExtent (h : Agree S a a') (e : Extent) :
    (a.zeroExtent e).Coupled (a'.zeroExtent e)
      (Agree fun b => S b ∨ (e.start.toNat ≤ b ∧ b < e.endBlock)) := by
  unfold BlockCache.zeroExtent
  rw [h.check]
  cases a.check e.byteStart e.byteLength with
  | ok _ => exact .ok rfl rfl (h.zeroBlocks e.start.toNat e.count.toNat)
  | error stop => exact .error rfl rfl

end BlockCache

namespace OpenInode

/-- The inodes differ at most in what free blocks hold. -/
structure Twins (w w' : OpenInode) : Prop where
  node : w'.node = w.node
  blocks : w'.blocks = w.blocks
  data : w.data.Agree (fun b => w.blocks.used b = true) w'.data

variable {foreign : Nat → Prop} {w w' : OpenInode}

theorem Twins.owns (h : Twins w w') (hw : w.Owns foreign) : w'.Owns foreign := by
  refine ⟨?_, ?_⟩
  · rw [h.node, h.blocks]
    exact hw.blocks
  · rw [h.data.size, h.blocks]
    exact hw.size

theorem Twins.find (h : Twins w w') (hw : w.Owns foreign) (p : Entry → Bool) :
    Directory.find w'.data w'.node p = Directory.find w.data w.node p := by
  have hslots : Directory.slots w'.data w'.node = Directory.slots w.data w.node := by
    rw [h.node]
    exact Directory.slots_congr fun b hb => h.data.content b ((hw.blocks.used_iff b).2 (.inl hb))
  rw [Directory.find_eq (Directory.inside_of_owns hw),
    Directory.find_eq (Directory.inside_of_owns (h.owns hw)), hslots, h.node]

/-- The extent is found, or it is not, by the record and the bitmap alone. -/
theorem addExtent_eq (hw : w.Owns foreign) (count : UInt32) :
    addExtent count w = match Inode.allocateExtent count (w.node, w.blocks) with
      | .ok e (node, blocks) => .ok e ⟨node, blocks,
          ⟨BlockCache.zeroBlocks w.data.cells e.start.toNat e.count.toNat, w.data.start⟩⟩
      | .error stop (node, blocks) => .error stop ⟨node, blocks, w.data⟩ := by
  change (addExtent count).run w = _
  cases ha : Inode.allocateExtent count (w.node, w.blocks) with
  | error stop r => simp [addExtent, ha]
  | ok e r =>
    have hinside : e.endBlock ≤ w.data.cells.size := by
      rw [hw.size]
      exact (hw.blocks.grown ha).1.inside
    have hzero := BlockCache.zeroExtent_ok hw.size_lt hinside
    simp only [addExtent, bind_pure_comp, EStateM.run_bind, Action.run_within, EStateM.run_get,
      Action.run_lift, ha, hzero]
    rfl

theorem Twins.addExtent (h : Twins w w') (hw : w.Owns foreign) (count : UInt32) :
    Action.Alike (addExtent count) w w' Twins := by
  have hrun := addExtent_eq hw count
  have hrun' := addExtent_eq (h.owns hw) count
  rw [h.node, h.blocks] at hrun'
  cases ha : Inode.allocateExtent count (w.node, w.blocks) with
  | error stop r =>
    rw [ha] at hrun hrun'
    cases stop with
    | failure e =>
      obtain ⟨rfl, -⟩ := (hw.blocks.allocateExtent count).of_failure ha
      exact .failure hrun hrun' ⟨rfl, rfl, h.data⟩
    | trap k => exact .trap hrun hrun'
  | ok e r =>
    rw [ha] at hrun hrun'
    refine .ok hrun hrun' ⟨rfl, rfl, rfl, (h.data.zeroBlocks _ _).mono fun b hb => ?_⟩
    exact ((hw.blocks.grown ha).1.marked.used_iff b).1 hb

theorem Twins.touch (h : Twins w w') (now : Int64) : Twins (w.touch now) (w'.touch now) :=
  ⟨congrArg (Inode.setTimes · now) h.node, h.blocks, h.data⟩

/-- The copies came equally far, for the same reason. -/
structure Copied.Twins (c c' : Copied) : Prop where
  inode : c.inode.Twins c'.inode
  written : c'.written = c.written
  stopped : c'.stopped = c.stopped

theorem Twins.put (h : Twins w w') (size : UInt64) {data data' : BlockCache}
    (hdata : data.Agree (fun b => w.blocks.used b = true) data') :
    Twins { w with data, node := { w.node with size } }
      { w' with data := data', node := { w'.node with size } } :=
  ⟨congrArg (fun node : Inode => { node with size }) h.node, h.blocks, hdata⟩

theorem copy_eq (w : OpenInode) (offset : Nat) (bytes : List UInt8) :
    w.copy offset bytes = if bytes.isEmpty then ⟨w, 0, none⟩
      else match w.node.extents.locate offset with
        | none => match OpenInode.addExtent 1 w with
          | .ok _ w' => w'.copy offset bytes
          | .error stop w' => ⟨w', 0, some stop⟩
        | some m =>
          let here := min bytes.length m.available
          match w.data.write m.physical (bytes.take here) with
          | .error stop => ⟨w, 0, some stop⟩
          | .ok data =>
            let size := .ofNat (max w.node.size.toNat (offset + here))
            let rest := copy { w with data, node := { w.node with size } } (offset + here)
              (bytes.drop here)
            { rest with written := here + rest.written } := by
  conv_lhs => rw [copy]
  generalize w.node.extents.locate offset = found
  cases found with
  | some m => rfl
  | none =>
    dsimp only
    generalize OpenInode.addExtent 1 w = grown
    cases grown <;> rfl

theorem Twins.copy (h : Twins w w') (hw : w.Owns foreign) (offset : Nat) (bytes : List UInt8) :
    (w.copy offset bytes).Twins (w'.copy offset bytes) := by
  -- the induction is on the copy into `w` alone, for all of its twins
  revert w'
  fun_induction OpenInode.copy w offset bytes with
  | case1 w offset bytes hempty =>
    intro w' h
    rw [copy_eq w', if_pos hempty]
    exact ⟨h, rfl, rfl⟩
  | case2 w offset bytes hne hm e w₁ ha ih =>
    intro w' h
    obtain ⟨_, w₁', ha', -, htwins⟩ := (h.addExtent hw 1).of_ok ha
    rw [copy_eq w', if_neg hne, h.node, hm, ha']
    exact ih (((addExtent_steps hw 1).of_ok ha).keeps hw).owns htwins
  | case3 w offset bytes hne hm stop w₁ ha =>
    intro w' h
    obtain ⟨⟨e, rfl⟩, -⟩ := hw.addExtent_error ha
    obtain ⟨w₁', ha', htwins⟩ := (h.addExtent hw 1).of_failure ha
    rw [copy_eq w', if_neg hne, h.node, hm, ha']
    exact ⟨htwins, rfl, rfl⟩
  | case4 w offset bytes hne m hm here stop hwrite =>
    obtain ⟨hok, -⟩ := hw.write_piece hm (by simpa using hne)
    rw [hok] at hwrite
    cases hwrite
  | case5 w offset bytes hne m hm here data hwrite size rest =>
    rename_i ih
    intro w' h
    obtain ⟨data', hwrite', hdata⟩ := (h.data.write _ _).of_ok hwrite
    obtain ⟨hok, hpos, haddr⟩ := hw.write_piece hm (by simpa using hne)
    obtain rfl := Except.ok.inj (hok.symm.trans hwrite)
    have hlen : (bytes.take here).length = here := by
      rw [List.length_take]
      exact Nat.min_eq_left (Nat.min_le_left _ _)
    have hstep := Step.put hpos haddr
    rw [hlen] at hstep
    have hrest := ih (hstep.keeps hw).owns (h.put size hdata)
    have hrun : w'.copy offset bytes =
        { copy { w' with data := data', node := { w'.node with size } } (offset + here)
            (bytes.drop here) with
          written := here + (copy { w' with data := data', node := { w'.node with size } }
            (offset + here) (bytes.drop here)).written } := by
      rw [copy_eq w', if_neg hne, h.node, hm]
      simp only [here] at hwrite'
      simp only [hwrite']
      rfl
    rw [hrun]
    exact ⟨hrest.inode, congrArg (here + ·) hrest.written, hrest.stopped⟩

theorem Twins.ensureExtent (h : Twins w w') (hw : w.Owns foreign) :
    Action.Alike OpenInode.ensureExtent w w' Twins := by
  unfold OpenInode.ensureExtent
  refine .get_bind ?_
  rw [h.node]
  split
  · exact .seq (h.addExtent hw 1) fun _ _ _ htwins => .pure ⟨rfl, htwins⟩
  · exact .pure ⟨rfl, h⟩

theorem Twins.write (h : Twins w w') (hw : w.Owns foreign) (now : Int64) (offset : Nat)
    (bytes : List UInt8) : Action.Alike (OpenInode.write now offset bytes) w w' Twins := by
  unfold OpenInode.write
  have hextent := (h.ensureExtent hw).and_ensures (ensureExtent_ensures hw offset)
  refine .bind (hextent.restate.mono ?_ fun _ _ => And.left)
  rintro _ _ w₁ w₁' ⟨⟨-, htwins⟩, hsteps, -⟩
  refine .get_bind ?_
  obtain ⟨hinode, hwritten, hstopped⟩ := htwins.copy (hsteps.keeps hw).owns offset bytes
  simp only [hwritten, hstopped]
  have hend : Twins
      (if (w₁.copy offset bytes).written = 0 then (w₁.copy offset bytes).inode
        else (w₁.copy offset bytes).inode.touch now)
      (if (w₁.copy offset bytes).written = 0 then (w₁'.copy offset bytes).inode
        else (w₁'.copy offset bytes).inode.touch now) := by
    split
    · exact hinode
    · exact hinode.touch now
  refine .set_bind ?_
  split
  · exact .pure ⟨rfl, hend⟩
  · exact .throw hend

end OpenInode

namespace Directory

open OpenInode

variable {foreign : Nat → Prop} {w w' : OpenInode}

theorem place_eq (entry : Entry) (now : Int64) (w : OpenInode) :
    place entry now w = match find w.data w.node (·.isFree) with
      | .error stop => .error stop w
      | .ok (some slot) => match w.data.write slot.address (Codec.encode entry) with
        | .error stop => .error stop w
        | .ok data =>
          let size := .ofNat (max w.node.size.toNat ((slot.ordinal + 1) * Entry.slotSize))
          .ok () (OpenInode.touch { w with data, node := { w.node with size } } now)
      | .ok none => match OpenInode.addExtent 1 w with
        | .error stop w' => .error stop w'
        | .ok _ w' => place entry now w' := by
  conv_lhs => rw [place]
  generalize find w.data w.node (·.isFree) = found
  cases found with
  | error stop => rfl
  | ok slot? => cases slot? with
    | some slot => rfl
    | none =>
      dsimp only
      generalize OpenInode.addExtent 1 w = grown
      cases grown <;> rfl

theorem place_twins (h : Twins w w') (hw : w.Owns foreign) (entry : Entry) (now : Int64) :
    Action.Alike (place entry now) w w' Twins := by
  have hbytes : (Codec.encode entry).length = Entry.slotSize := Codec.length_encode entry
  revert w'
  fun_induction place entry now w with
  | case1 w stop hfind =>
    rw [find_eq (inside_of_owns hw)] at hfind
    cases hfind
  | case2 w slot hfind stop hwrite =>
    rw [(write_slot hw hfind hbytes).1] at hwrite
    cases hwrite
  | case3 w slot hfind data hwrite size =>
    intro w' h
    have hfind' := (h.find hw (·.isFree)).trans hfind
    obtain ⟨data', hwrite', hdata⟩ := (h.data.write _ _).of_ok hwrite
    have hrun : place entry now w =
        .ok () (touch { w with data, node := { w.node with size } } now) := by
      rw [place_eq, hfind]
      simp only [hwrite]
      rfl
    have hrun' : place entry now w' =
        .ok () (touch { w' with data := data', node := { w'.node with size } } now) := by
      rw [place_eq, hfind', h.node]
      simp only [hwrite']
      rfl
    exact .ok hrun hrun' ⟨rfl, (h.put size hdata).touch now⟩
  | case4 w hfind stop w₁ ha =>
    intro w' h
    have hfind' := (h.find hw (·.isFree)).trans hfind
    obtain ⟨⟨e, rfl⟩, -⟩ := hw.addExtent_error ha
    obtain ⟨w₁', ha', htwins⟩ := (h.addExtent hw 1).of_failure ha
    exact .failure (by rw [place_eq, hfind, ha]) (by rw [place_eq, hfind', ha']) htwins
  | case5 w hfind e w₁ ha ih =>
    intro w' h
    have hfind' := (h.find hw (·.isFree)).trans hfind
    obtain ⟨_, w₁', ha', -, htwins⟩ := (h.addExtent hw 1).of_ok ha
    have hrest := ih (((addExtent_steps hw 1).of_ok ha).keeps hw).owns htwins
    exact hrest.congr (by rw [place_eq, hfind, ha]) (by rw [place_eq, hfind', ha'])

theorem insert_twins (h : Twins w w') (hw : w.Owns foreign) (name : String) (inode : UInt32)
    (now : Int64) : Action.Alike (insert name inode now) w w' Twins := by
  unfold insert
  refine .refuseIf_bind h fun _ => ?_
  refine .lift_bind_self h fun entry _ => ?_
  exact place_twins h hw entry now

theorem remove_twins (h : Twins w w') (hw : w.Owns foreign) (name : String) (now : Int64) :
    Action.Alike (remove name now) w w' Twins := by
  unfold remove
  refine .get_bind ?_
  rw [h.find hw]
  refine .lift_bind_self h fun found hfound => ?_
  cases found with
  | none => exact .pure ⟨rfl, h⟩
  | some slot =>
    refine .lift_bind (h.data.write _ _) h fun data data' _ hdata => ?_
    have htwins : Twins { w with data } { w' with data := data' } := ⟨h.node, h.blocks, hdata⟩
    exact .set_bind (.pure ⟨rfl, htwins.touch now⟩)

end Directory

end ExtentVolume
