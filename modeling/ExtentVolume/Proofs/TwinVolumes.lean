import ExtentVolume.Proofs.TwinInodes
import ExtentVolume.Proofs.View

namespace ExtentVolume.Volume

open ExtentVolume.Action (Alike Coupled)

/-- The volumes differ at most in what blocks without the property hold. -/
structure Same (S : Nat → Prop) (v v' : Volume) : Prop where
  superBlock : v'.superBlock = v.superBlock
  space : v'.space = v.space
  table : v'.table = v.table
  data : v.data.Agree S v'.data

/-- The volumes differ at most in what free blocks hold. -/
abbrev Twins (v v' : Volume) : Prop := Same (fun b => v.space.blocks.used b = true) v v'

variable {S S' : Nat → Prop} {v v' : Volume} {n : UInt32} {node : Inode}

theorem Same.mono (h : Same S v v') (hsub : ∀ b, S' b → S b) : Same S' v v' :=
  ⟨h.superBlock, h.space, h.table, h.data.mono hsub⟩

theorem Twins.sameFiles (h : Twins v v') (hv : v.Whole) : SameFiles v v' :=
  ⟨h.space, h.table, h.data.start, h.data.size,
    fun n b hb => h.data.content b ((hv.used_iff b).2 ⟨n, hb⟩)⟩

theorem Twins.refl (v : Volume) : Twins v v := ⟨rfl, rfl, rfl, rfl, rfl, fun _ _ => rfl⟩

theorem Same.inode (h : Same S v v') (n : UInt32) : v'.inode n = v.inode n := by
  rw [Volume.inode, Volume.inode, h.space, h.table]

/-- Twins stay twins when the files of either are kept as they are. -/
theorem Twins.congr {w w' : Volume} (h : Twins v v') (hv : v.Whole) (hw : SameFiles v w)
    (hw' : SameFiles v' w') (hsuper : w'.superBlock = w.superBlock) : Twins w w' := by
  refine ⟨hsuper, hw'.space.trans (h.space.trans hw.space.symm),
    hw'.table.trans (h.table.trans hw.table.symm),
    hw'.start.trans (h.data.start.trans hw.start.symm),
    hw'.cells.trans (h.data.size.trans hw.cells.symm), fun b hb => ?_⟩
  rw [hw.space] at hb
  obtain ⟨n, hn⟩ := (hv.used_iff b).1 hb
  have hn' : b ∈ v'.blocksOf n := (h.sameFiles hv).blocksOf n ▸ hn
  rw [hw'.blocks n b hn', h.data.content b hb, hw.blocks n b hn]

theorem Same.retable (h : Same S v v') (t : InodeTable) :
    Same S { v with table := t } { v' with table := t } :=
  ⟨h.superBlock, h.space, rfl, h.data⟩

theorem Same.respace (h : Same S v v') (a : FreeSpace) (t : InodeTable) :
    Same S { v with space := a, table := t } { v' with space := a, table := t } :=
  ⟨h.superBlock, rfl, rfl, h.data⟩

theorem Twins.modifyRecord (h : Twins v v') (n : UInt32) (f : Inode → Inode) :
    Alike (modifyRecord n f) v v' Twins := by
  refine .modify ⟨rfl, ?_⟩
  rw [h.table]
  split
  · exact h.retable _
  · exact h

theorem Twins.addLink (h : Twins v v') (n : UInt32) : Alike (addLink n) v v' Twins := by
  unfold Volume.addLink
  refine .get_bind ?_
  rw [h.table]
  split
  · exact .checked_bind fun links _ => h.modifyRecord n _
  · exact .pure ⟨rfl, h⟩

theorem Twins.dropLink (h : Twins v v') (n : UInt32) (now : Int64) :
    Alike (dropLink n now) v v' Twins := by
  unfold Volume.dropLink
  refine .get_bind ?_
  rw [h.inode]
  refine .lift_bind_self h fun node _ => .checked_bind fun links _ => .modify ⟨rfl, ?_⟩
  rw [h.table]
  exact h.retable _

theorem Twins.releaseInode (h : Twins v v') (n : UInt32) : Alike (releaseInode n) v v' Twins := by
  unfold Volume.releaseInode
  refine .get_bind ?_
  rw [h.table, h.space]
  split
  · refine .checked_bind fun ⟨extents, _, blocks⟩ hblocks => .checked_bind fun inodes _ => ?_
    refine .set_bind (.pure ⟨rfl, ?_⟩)
    exact (h.respace _ _).mono fun b hb => Inode.used_of_releaseExtents hblocks hb
  · exact .fail h

theorem Same.reserveInode (h : Same S v v') (owner : Owner) (mode : Mode) (now : Int64) :
    Alike (reserveInode owner mode now) v v' (Same S) := by
  unfold Volume.reserveInode
  refine .get_bind ?_
  rw [h.table, h.space]
  refine .refuseIf_bind h fun _ => .refuseIf_bind h fun _ => ?_
  refine .lift_bind_self h fun ⟨number, space⟩ _ => ?_
  dsimp only
  split
  · exact .checked_bind fun space _ => .set_bind (.fail (h.respace _ _))
  · split
    · exact .set_bind (.pure ⟨rfl, h.respace _ _⟩)
    · exact .checked_bind fun space _ => .set_bind (.throw (h.respace _ _))

/-- What `createInode` does with each extent of a new inode. -/
def zeroExtent (e : Extent) : Action VolumeError Volume Unit := do
  let data ← (← get).data.zeroExtent e
  modify ({ · with data })

/-- After extents were cleared the volumes agree in their blocks besides. -/
theorem Same.zeroExtents (h : Same S v v') (l : List Extent) :
    Coupled (l.forM zeroExtent) v (l.forM zeroExtent) v'
      (fun _ _ => Same fun b => S b ∨ b ∈ blockNumbers l) (Same S) := by
  induction l generalizing S v v' with
  | nil => exact .pure (h.mono fun b hb => by simpa using hb)
  | cons e rest ih =>
    have hfirst : Coupled (zeroExtent e) v (zeroExtent e) v'
        (fun _ _ => Same fun b => S b ∨ (e.start.toNat ≤ b ∧ b < e.endBlock)) (Same S) := by
      refine .get_bind (.lift_bind (h.data.zeroExtent e) h fun data data' _ hdata => .modify ?_)
      exact ⟨h.superBlock, h.space, h.table, hdata⟩
    rw [List.forM_eq_forM, List.forM_cons]
    refine .bind (hfirst.mono ?_ fun _ _ => id)
    intro _ _ v₁ v₁' h₁
    refine (ih h₁).mono ?_ fun v₂ v₂' h₂ => h₂.mono fun b => .inl
    intro _ _ v₂ v₂' h₂
    refine h₂.mono fun b hb => ?_
    rw [blockNumbers_cons, List.mem_append, List.mem_range'_1, ← or_assoc] at hb
    exact hb

theorem Twins.createInode (h : Twins v v') (hv : v.Whole) (owner : Owner) (mode : Mode)
    (now : Int64) : Alike (createInode owner mode now) v v' Twins := by
  have hcleared : Coupled (Volume.createInode owner mode now) v
      (Volume.createInode owner mode now) v'
      (fun node node' v₁ v₁' => node = node' ∧
        Same (fun b => v.space.blocks.used b = true ∨ b ∈ node.extents.blockNumbers) v₁ v₁')
      (Same fun b => v.space.blocks.used b = true) := by
    refine .seq (Same.reserveInode h owner mode now) fun node v₁ v₁' h₁ => ?_
    refine .bind ((h₁.zeroExtents node.extents.inUse).mono ?_ fun _ _ => id)
    intro _ _ v₂ v₂' h₂
    exact .pure ⟨rfl, h₂⟩
  refine (hcleared.and_ensures (createInode_grown hv owner mode now)).mono ?_ ?_
  · rintro node _ _ v₁' ⟨⟨rfl, hsame⟩, e, inodes, blocks, htake, ha, rfl⟩
    refine ⟨rfl, hsame.mono fun b hb => ?_⟩
    have hstep : Step node.number v
        (v.taken node.number inodes (Inode.ofOwner node.number owner mode now)) :=
      .take htake rfl ⟨rfl, rfl, rfl⟩
    have hlive := hv.live?_taken htake (Inode.ofOwner node.number owner mode now)
    obtain ⟨hgrown, -⟩ := ((hstep.touches_whole hv).2.owns hlive).blocks.grown ha
    refine ((hgrown.marked.used_iff b).1 hb).imp id fun hin => ?_
    rw [(Inode.Pushed.blockNumbers_perm hgrown.pushed).mem_iff, List.mem_append, List.mem_range'_1]
    exact .inl hin
  · rintro _ v₁' ⟨hsame, _, rfl, -⟩
    exact hsame

theorem Twins.opened (h : Twins v v') (node : Inode) :
    (v.opened node).Twins (v'.opened node) :=
  ⟨rfl, congrArg FreeSpace.blocks h.space, h.data⟩

theorem Twins.onRecord {ε α : Type} {x : Action ε OpenInode α} (h : Twins v v')
    (hx : Alike x (v.opened node) (v'.opened node) OpenInode.Twins) :
    Alike (onRecord n node x) v v' Twins := by
  have hput : ∀ w w' : OpenInode, w.Twins w' → Twins (v.putBack n w) (v'.putBack n w') := by
    intro w w' hw
    refine ⟨h.superBlock, ?_, ?_, hw.data⟩
    · rw [putBack, putBack, hw.blocks, h.space]
    · rw [putBack, putBack, hw.node, h.table]
  refine .within (hx.mono ?_ fun w w' => hput w w')
  rintro _ _ w w' ⟨rfl, hw⟩
  exact ⟨rfl, hput w w' hw⟩

theorem Same.directory (h : Same S v v') (n : UInt32) : v'.directory n = v.directory n :=
  directory_congr (h.inode n)

theorem Twins.addEntry (h : Twins v v') (hv : v.Whole) (dir : UInt32) (name : String)
    (target : UInt32) (now : Int64) : Alike (addEntry dir name target now) v v' Twins := by
  unfold Volume.addEntry
  refine .get_bind ?_
  rw [h.directory]
  refine .lift_bind_self h fun node hnode => h.onRecord ?_
  have hlive := (live_of_directory hv.sized hnode).1
  exact Directory.insert_twins (h.opened node) (hv.owns hlive) name target now

theorem Twins.insert (h : Twins v v') (hv : v.Whole) (dir : UInt32) (name : String)
    (target : UInt32) (now : Int64) : Alike (insert dir name target now) v v' Twins := by
  unfold Volume.insert
  refine .get_bind ?_
  rw [h.inode]
  refine .lift_bind_self h fun _ _ => .seq (h.addEntry hv dir name target now) ?_
  intro _ v₁ v₁' h₁
  refine .get_bind ?_
  rw [h₁.inode]
  refine .lift_bind_self h₁ fun node _ => .modify ⟨rfl, ?_⟩
  rw [h₁.table]
  exact h₁.retable _

theorem Twins.create (h : Twins v v') (hv : v.Whole) (parent : UInt32) (name : String) (mode : Mode)
    (owner : Owner) (now : Int64) : Alike (create parent name mode owner now) v v' Twins := by
  have hlookup : v'.lookup parent name = v.lookup parent name :=
    ((h.sameFiles hv).sameAt hv parent).lookup hv name
  unfold Volume.create
  refine .lift_bind_self h fun _ _ => .get_bind ?_
  rw [hlookup]
  refine .lift_bind_self h fun _ _ => .refuseIf_bind h fun _ => ?_
  have hcreate :=
    (h.createInode hv owner mode now).and_ensures (createInode_ensures hv owner mode now)
  refine .bind (hcreate.mono ?_ fun _ _ => And.left)
  rintro node _ v₁ v₁' ⟨⟨rfl, h₁⟩, hcreated⟩
  have hv₁ := hcreated.steps.whole hv
  refine .bind (.attempt ((h₁.addEntry hv₁ parent name node.number now).mono ?_ ?_))
  · rintro _ _ v₂ v₂' ⟨-, h₂⟩
    dsimp only
    split
    · refine .seq (h₂.modifyRecord _ _) fun _ v₃ v₃' h₃ => ?_
      exact .seq (h₃.addLink parent) fun _ _ _ h₄ => .pure ⟨rfl, h₄⟩
    · exact .pure ⟨rfl, h₂⟩
  · intro v₂ v₂' h₂ e
    exact .seq (h₂.releaseInode node.number) fun _ _ _ h₃ => .fail h₃

theorem Twins.checkUnused (h : Twins v v') (hv : v.Whole) (hlive : v.live? n = some node)
    (name : String) : v'.checkUnused node name = v.checkUnused node name := by
  have hsame := (h.sameFiles hv).sameAt hv n
  have hempty : Directory.isEmpty v'.data node = Directory.isEmpty v.data node := by
    rw [Directory.isEmpty_eq (hv.inside hlive), Directory.isEmpty_eq (hsame.inside hv hlive),
      hsame.slots hlive]
  rw [Volume.checkUnused, Volume.checkUnused, hempty]

theorem Twins.remove (h : Twins v v') (hv : v.Whole) (parent : UInt32) (name : String)
    (now : Int64) : Alike (remove parent name now) v v' Twins := by
  have hlookup : v'.lookup parent name = v.lookup parent name :=
    ((h.sameFiles hv).sameAt hv parent).lookup hv name
  unfold Volume.remove
  refine .get_bind ?_
  rw [hlookup]
  refine .lift_bind_self h fun found _ => ?_
  cases found with
  | none => exact .fail h
  | some number =>
    dsimp only
    rw [h.inode]
    refine .lift_bind_self h fun target htarget => ?_
    rw [h.checkUnused hv (live_of_inode hv.sized htarget).1, h.inode]
    refine .lift_bind_self h fun _ _ => .lift_bind_self h fun dir hdir => ?_
    have hentry := Directory.remove_twins (h.opened dir) (hv.owns (live_of_inode hv.sized hdir).1)
      name now
    refine .seq (h.onRecord hentry) fun _ v₁ v₁' h₁ => ?_
    split
    · split
      · refine .seq (h₁.modifyRecord _ _) fun _ v₂ v₂' h₂ => ?_
        exact .seq (h₂.releaseInode number) fun _ _ _ h₃ => .pure ⟨rfl, h₃⟩
      · exact .seq (h₁.releaseInode number) fun _ _ _ h₂ => .pure ⟨rfl, h₂⟩
    · exact .seq (h₁.dropLink number now) fun _ _ _ h₂ => .pure ⟨rfl, h₂⟩

theorem Twins.write (h : Twins v v') (hv : v.Whole) (number : UInt32) (offset : Nat)
    (bytes : List UInt8) (now : Int64) : Alike (write number offset bytes now) v v' Twins := by
  unfold Volume.write
  refine .get_bind ?_
  rw [h.inode]
  refine .lift_bind_self h fun node hnode => .refuseIf_bind h fun _ => h.onRecord ?_
  have hlive := (live_of_inode hv.sized (Fallible.of_restate_ok hnode)).1
  exact (h.opened node).write (hv.owns hlive) now offset bytes

theorem Twins.allocateExtent (h : Twins v v') (hv : v.Whole) (number count : UInt32) :
    Alike (allocateExtent number count) v v' Twins := by
  unfold Volume.allocateExtent
  refine .get_bind ?_
  rw [h.inode]
  refine .lift_bind_self h fun node hnode => h.onRecord ?_
  exact (h.opened node).addExtent (hv.owns (live_of_inode hv.sized hnode).1) count

end ExtentVolume.Volume
