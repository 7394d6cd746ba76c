import ExtentVolume.Proofs.Directory
import ExtentVolume.Proofs.FileWrite
import ExtentVolume.Proofs.VolumeStep

namespace ExtentVolume.Volume

variable {v v' : Volume} {n m : UInt32} {node : Inode}

/-- Steps that changed the content of an inode in use led from `v` to `v'`. -/
def Edited (n : UInt32) (v v' : Volume) : Prop :=
  ∃ node w, v.live? n = some node ∧ OpenInode.Steps (v.opened node) w ∧ v' = v.putBack n w

theorem set_set (t : InodeTable) (n : UInt32) (node node' : Inode) :
    (t.set n node).set n node' = t.set n node' := by
  simp [InodeTable.set]

theorem set_self {t : InodeTable} (h : t.get? n = some node) : t.set n node = t := by
  unfold InodeTable.get? at h
  split at h
  · cases h
  · obtain ⟨hlt, hrecord⟩ := Array.getElem?_eq_some_iff.1 h
    simp [InodeTable.set, Array.setIfInBounds, hlt, ← hrecord]

theorem putBack_opened (hlive : v.live? n = some node) : v.putBack n (v.opened node) = v := by
  have htable := set_self (live?_eq_some.1 hlive).2
  simp only [putBack, opened, htable]

theorem putBack_putBack (w w' : OpenInode) : (v.putBack n w).putBack n w' = v.putBack n w' := by
  simp only [putBack, set_set]

theorem Edited.chain (h : Edited n v v') :
    Relation.ReflTransGen (fun v v' => ∃ node, v.live? n = some node ∧ Step n v v') v v' := by
  obtain ⟨node, w, hlive, hsteps, rfl⟩ := h
  induction hsteps with
  | refl =>
    rw [putBack_opened hlive]
  | @tail w₁ w₂ _ hstep ih =>
    refine .tail ih ⟨w₁.node, live?_putBack hlive, ?_⟩
    rw [← putBack_putBack w₁ w₂]
    exact .edit (live?_putBack hlive) hstep

theorem Edited.steps (h : Edited n v v') : Steps (· = n) v v' := by
  refine Relation.ReflTransGen.mono ?_ _ _ h.chain
  rintro v₁ v₂ ⟨-, -, hstep⟩
  exact ⟨n, rfl, hstep⟩

/-- An edited inode is in use under the same number, as the same kind of file. -/
theorem Edited.live (h : Edited n v v') (hv : v.Whole) :
    ∃ node node', v.live? n = some node ∧ v'.live? n = some node' ∧
      node'.number = node.number ∧ node'.mode = node.mode := by
  obtain ⟨node, w, hlive, hsteps, rfl⟩ := h
  have hkeeps := OpenInode.Steps.keeps hsteps (hv.owns hlive)
  exact ⟨node, w.node, hlive, live?_putBack hlive, hkeeps.identity.1, hkeeps.identity.2⟩

theorem Edited.blocks (h : Edited n v v') (hv : v.Whole) : v.blocksOf n ⊆ v'.blocksOf n := by
  obtain ⟨node, w, hlive, hsteps, rfl⟩ := h
  rw [blocksOf_live hlive, blocksOf_live (live?_putBack hlive)]
  exact OpenInode.Steps.blocks hsteps (hv.owns hlive)

theorem inode_eq (hv : v.Sized) (n : UInt32) : v.inode n = match v.live? n with
    | some node => if node.number = n then .ok node else fail (.invalidInode n)
    | none => fail (.invalidInode n) := by
  cases hget : v.table.get? n with
  | none =>
    have hnone : v.live? n = none := by simp [live?, hget]
    rw [hnone]
    simp only [inode, hget]
  | some node =>
    have hin : n.toNat < paddedBits v.space.inodes.total := by
      have hlt : ¬v.table.total ≤ n := by
        intro hle
        simp [InodeTable.get?, hle] at hget
      rw [hv.table, UInt32.le_iff_toNat_le, Nat.not_le] at hlt
      exact Nat.lt_of_lt_of_le hlt (Bitmap.le_paddedBits _)
    have hbit := Bitmap.isUsed_eq hin
    simp only [inode, hget, live?, hbit]
    by_cases hnumber : node.number = n <;> cases v.space.inodes.used n.toNat <;>
      simp [hnumber, fail, bind, Except.bind, pure, Except.pure, liftM, monadLift,
        MonadLift.monadLift]

theorem inode_of_live (hv : v.Sized) (hlive : v.live? n = some node) (hnumber : node.number = n) :
    v.inode n = .ok node := by
  rw [inode_eq hv, hlive]
  exact if_pos hnumber

theorem inode_ensures (hv : v.Sized) (n : UInt32) :
    (v.inode n).Ensures (fun node => v.live? n = some node ∧ node.number = n)
      (fun _ => True) False := by
  rw [inode_eq hv]
  cases hlive : v.live? n with
  | none => trivial
  | some node =>
    by_cases hnumber : node.number = n
    · simp only [hnumber, if_true]
      exact ⟨rfl, hnumber⟩
    · simp only [hnumber, if_false]
      trivial

theorem directory_ensures (hv : v.Sized) (n : UInt32) :
    (v.directory n).Ensures
      (fun node => v.live? n = some node ∧ node.number = n ∧ node.isDirectory = true)
      (fun _ => True) False := by
  apply (inode_ensures hv n).bind
  intro node hnode
  split
  · rename_i hdir
    exact ⟨hnode.1, hnode.2, hdir⟩
  · trivial

theorem Whole.inside (h : v.Whole) (hlive : v.live? n = some node) :
    Directory.Inside v.data node :=
  Directory.inside_of_owns (h.owns hlive)

theorem lookup_ensures (h : v.Whole) (dir : UInt32) (name : String) :
    (v.lookup dir name).Ensures
      (fun _ => ∃ node, v.live? dir = some node ∧ node.number = dir) (fun _ => True) False := by
  apply (directory_ensures h.sized dir).bind
  intro node hnode
  simp only [Directory.lookup, Fallible.ensures_bind, Directory.find_eq (h.inside hnode.1),
    Fallible.ensures_ok, Fallible.ensures_pure]
  exact ⟨node, hnode.1, hnode.2.1⟩

theorem onRecord_ensures {ε α : Type} {x : Action ε OpenInode α} {P : α → OpenInode → Prop}
    {F : ε → OpenInode → Prop} {T : Prop}
    (h : Action.Ensures x (v.opened node) P F T) :
    Action.Ensures (onRecord n node x) v (fun a v' => ∃ w, v' = v.putBack n w ∧ P a w)
      (fun e v' => ∃ w, v' = v.putBack n w ∧ F e w) T := by
  rw [onRecord, Action.ensures_within]
  exact Action.Ensures.mono h (fun _ w hw => ⟨w, rfl, hw⟩) (fun _ w hw => ⟨w, rfl, hw⟩) id

theorem addEntry_ensures (h : v.Whole) (dir : UInt32) (name : String) (target : UInt32)
    (now : Int64) :
    Action.Ensures (addEntry dir name target now) v (fun _ => Edited dir v)
      (fun _ v' => v' = v ∨ Edited dir v v') False := by
  simp only [addEntry, Action.ensures_bind, Action.ensures_get, Action.ensures_lift]
  refine (directory_ensures h.sized dir).mono ?_ (fun _ _ => .inl trivial) id
  rintro node ⟨hlive, -, -⟩
  refine (onRecord_ensures (Directory.insert_ensures (h.owns hlive) name target now)).mono
    ?_ ?_ id
  · rintro - v' ⟨w, rfl, hsteps⟩
    exact ⟨node, w, hlive, hsteps, rfl⟩
  · rintro - v' ⟨w, rfl, hsteps⟩
    exact .inr ⟨node, w, hlive, hsteps, rfl⟩

theorem write_ensures (h : v.Whole) (n : UInt32) (offset : Nat) (bytes : List UInt8)
    (now : Int64) :
    Action.Ensures (write n offset bytes now) v
      (fun written v' => ∃ node w, v.live? n = some node ∧ node.number = n ∧
        v' = v.putBack n w ∧ OpenInode.Steps (v.opened node) w ∧ written = bytes.length ∧
        ((v.opened node).Sound → (v.opened node).Wrote offset bytes written w))
      (fun e v' => (v' = v ∧ e.written = 0) ∨ ∃ node w, v.live? n = some node ∧
        v' = v.putBack n w ∧ OpenInode.Steps (v.opened node) w ∧
        (bytes ≠ [] → e.written < bytes.length) ∧
        ((v.opened node).Sound → (v.opened node).Wrote offset bytes e.written w))
      False := by
  simp only [write, Action.ensures_bind, Action.ensures_get, Action.ensures_refuseIf,
    Action.ensures_lift, Fallible.ensures_restate]
  refine (inode_ensures h.sized n).mono ?_ (fun _ _ => .inl ⟨trivial, trivial⟩) id
  rintro node ⟨hlive, hnumber⟩
  split
  · exact .inl ⟨trivial, trivial⟩
  · refine (onRecord_ensures (OpenInode.write_ensures (h.owns hlive) now offset bytes)).mono ?_ ?_ id
    · rintro written v' ⟨w, rfl, hall, hsteps, hwrote⟩
      exact ⟨node, w, hlive, hnumber, rfl, hsteps, hall, hwrote⟩
    · rintro e v' ⟨w, rfl, hless, hsteps, hwrote⟩
      exact .inr ⟨node, w, hlive, rfl, hsteps, hless, hwrote⟩

theorem allocateExtent_ensures (h : v.Whole) (n count : UInt32) :
    Action.Ensures (allocateExtent n count) v
      (fun e v' => ∃ node node' blocks, v.live? n = some node ∧
        Inode.allocateExtent count (node, v.space.blocks) = .ok e (node', blocks) ∧
        v' = v.putBack n ⟨node', blocks,
          ⟨BlockCache.zeroBlocks v.data.cells e.start.toNat e.count.toNat, v.data.start⟩⟩)
      (fun _ v' => v' = v) False := by
  simp only [allocateExtent, Action.ensures_bind, Action.ensures_get, Action.ensures_lift]
  refine (inode_ensures h.sized n).mono ?_ (fun _ _ => trivial) id
  rintro node ⟨hlive, -⟩
  refine (onRecord_ensures (OpenInode.addExtent_ensures (h.owns hlive) count)).mono ?_ ?_ id
  · rintro e v' ⟨w, rfl, node', blocks, halloc, rfl⟩
    exact ⟨node, node', blocks, hlive, halloc, rfl⟩
  · rintro e v' ⟨w, rfl, rfl, -⟩
    exact putBack_opened hlive

theorem allocateInode_ensures (h : v.Whole) :
    v.space.allocateInode.Ensures
      (fun r => ∃ inodes, v.space.inodes.take = .ok (some (r.1, inodes)) ∧
        r.2 = { v.space with inodes })
      (fun e => e = .noSpace ∧ v.space.inodes.take = .ok none) False := by
  rw [FreeSpace.allocateInode, Fallible.ensures_bind, Fallible.ensures_lift]
  obtain ⟨hnone, -⟩ | ⟨n, inodes, hsome, -⟩ := h.exactInodes.take
  · rw [hnone]
    exact ⟨rfl, rfl⟩
  · rw [hsome]
    exact ⟨inodes, rfl, rfl⟩

def CannotCreate (v : Volume) (mode : Mode) (e : VolumeError) : Prop :=
  (e = .noSpace ∧ (v.space.inodes.free = 0 ∨ v.space.blocks.free = 0 ∨
    v.space.inodes.take = .ok none)) ∨ (e = .unsupportedType mode ∧ mode.kind? = none)

/-- The inode was not in use before, and it is now with the record that is returned. -/
structure Created (v : Volume) (owner : Owner) (mode : Mode) (now : Int64) (node : Inode)
    (v' : Volume) : Prop where
  taken : ∃ inodes, v.space.inodes.take = .ok (some (node.number, inodes))
  fresh : v.live? node.number = none
  steps : Steps (· = node.number) v v'
  live : v'.live? node.number = some node
  record : node = { Inode.ofOwner node.number owner mode now with
    extents := node.extents, blocks := node.blocks }

theorem reserveInode_ensures (h : v.Whole) (owner : Owner) (mode : Mode) (now : Int64) :
    Action.Ensures (reserveInode owner mode now) v
      (fun node v' => ∃ e inodes blocks,
        v.space.inodes.take = .ok (some (node.number, inodes)) ∧
        Inode.allocateExtent 1 (.ofOwner node.number owner mode now, v.space.blocks) =
          .ok e (node, blocks) ∧
        v' = { v with space := ⟨inodes, blocks⟩, table := v.table.set node.number node })
      (fun e v' => v' = v ∧ v.CannotCreate mode e) False := by
  simp only [reserveInode, Action.ensures_bind, Action.ensures_get, Action.ensures_refuseIf,
    Action.ensures_lift]
  split
  · rename_i hfree
    exact ⟨trivial, .inl ⟨rfl, hfree.imp id .inl⟩⟩
  rename_i hfree
  split
  · rename_i hkind
    exact ⟨trivial, .inr ⟨rfl, Option.isNone_iff_eq_none.1 hkind⟩⟩
  refine (allocateInode_ensures h).mono ?_ ?_ id
  · rintro ⟨n, space⟩ ⟨inodes, htake, rfl⟩
    obtain ⟨⟨old, hold⟩, -⟩ := h.take htake
    have hstep : Step n v (v.taken n inodes (Inode.ofOwner n owner mode now)) :=
      .take htake rfl ⟨rfl, rfl, rfl⟩
    have hlive := h.live?_taken htake (Inode.ofOwner n owner mode now)
    have howns := ((hstep.touches_whole h).2.owns hlive).blocks
    simp only [hold]
    have hens := howns.allocateExtent 1
    simp only [opened, taken] at hens
    cases ha : Inode.allocateExtent 1 (.ofOwner n owner mode now, v.space.blocks) with
    | ok e r =>
      obtain ⟨node, blocks⟩ := r
      have hnumber : node.number = n := by
        rw [(howns.grown ha).1.record]
        rfl
      simp only [Action.ensures_bind, Action.ensures_set, Action.ensures_pure, hnumber]
      exact ⟨e, inodes, blocks, htake, ha, rfl⟩
    | error stop r =>
      -- a free block is a run, and the record has all of its slots
      cases stop with
      | trap t => exact (hens.of_trap ha).elim
      | failure e =>
        obtain ⟨-, ⟨-, hnone⟩ | ⟨-, hfull⟩⟩ := hens.of_failure ha
        · obtain ⟨k, hk, hclear⟩ := h.exactBlocks.exists_clear fun h0 => hfree (.inr h0)
          obtain ⟨start, hstart⟩ := Bitmap.findRun_one hk hclear
          rw [hstart] at hnone
          cases hnone
        · cases hfull
  · rintro e ⟨rfl, hnone⟩
    exact ⟨trivial, .inl ⟨rfl, .inr (.inr hnone)⟩⟩

/-- A new inode is taken into use and grows by its first block, or nothing changes. -/
theorem createInode_grown (h : v.Whole) (owner : Owner) (mode : Mode) (now : Int64) :
    Action.Ensures (createInode owner mode now) v
      (fun node v' => ∃ e inodes blocks,
        v.space.inodes.take = .ok (some (node.number, inodes)) ∧
        Inode.allocateExtent 1 (.ofOwner node.number owner mode now, v.space.blocks) =
          .ok e (node, blocks) ∧
        v' = (v.taken node.number inodes (Inode.ofOwner node.number owner mode now)).putBack
          node.number ⟨node, blocks,
            ⟨BlockCache.zeroBlocks v.data.cells e.start.toNat e.count.toNat, v.data.start⟩⟩)
      (fun e v' => v' = v ∧ v.CannotCreate mode e) False := by
  rw [createInode, Action.ensures_bind]
  apply (reserveInode_ensures h owner mode now).imp
  rintro node v₂ ⟨e, inodes, blocks, htake, ha, rfl⟩
  have hstep : Step node.number v
      (v.taken node.number inodes (Inode.ofOwner node.number owner mode now)) :=
    .take htake rfl ⟨rfl, rfl, rfl⟩
  have hwhole := (hstep.touches_whole h).2
  have hlive := h.live?_taken htake (Inode.ofOwner node.number owner mode now)
  obtain ⟨hgrown, -⟩ := (hwhole.owns hlive).blocks.grown ha
  have hinUse : node.extents.inUse = [e] := (hgrown.pushed.packed ExtentMap.packed_empty).1
  have hsize : v.data.cells.size = v.space.blocks.total.toNat := h.sized.cells
  have hzero := BlockCache.zeroExtent_ok (a := v.data) (e := e)
    (by rw [hsize]; exact v.space.blocks.total.toNat_lt) (by rw [hsize]; exact hgrown.inside)
  simp only [hinUse, List.forM_eq_forM, List.forM_cons, List.forM_nil, Action.ensures_bind,
    Action.ensures_get, Action.ensures_lift, hzero, Fallible.ensures_ok, Action.ensures_modify,
    Action.ensures_pure]
  refine ⟨e, inodes, blocks, htake, ha, ?_⟩
  simp only [putBack, taken, set_set]

theorem createInode_ensures (h : v.Whole) (owner : Owner) (mode : Mode) (now : Int64) :
    Action.Ensures (createInode owner mode now) v (Created v owner mode now)
      (fun e v' => v' = v ∧ v.CannotCreate mode e) False := by
  apply (createInode_grown h owner mode now).imp
  rintro node _ ⟨e, inodes, blocks, htake, ha, rfl⟩
  have hstep : Step node.number v
      (v.taken node.number inodes (Inode.ofOwner node.number owner mode now)) :=
    .take htake rfl ⟨rfl, rfl, rfl⟩
  have hlive := h.live?_taken htake (Inode.ofOwner node.number owner mode now)
  have hgrown := (((hstep.touches_whole h).2.owns hlive).blocks.grown ha).1
  exact ⟨⟨inodes, htake⟩, h.dead_of_take htake,
    .tail (.single ⟨_, rfl, hstep⟩) ⟨_, rfl, .edit hlive (.grow ha)⟩, live?_putBack hlive,
    hgrown.record⟩

theorem releaseInode_ensures (h : v.Whole) (hlive : v.live? n = some node) :
    Action.Ensures (releaseInode n) v (fun _ => Step n v) (fun _ _ => False) False := by
  obtain ⟨inodes, blocks, hinodes, hblocks, -⟩ := h.release hlive
  simp only [releaseInode, Action.ensures_bind, Action.ensures_get, (live?_eq_some.1 hlive).2,
    Action.ensures_checked, hblocks, hinodes, Action.ensures_set, Action.ensures_pure]
  exact .release hlive hinodes hblocks

/-- A step at an inode in use, or the creation of an inode, which has a block from then on. -/
inductive Turn (n : UInt32) (v v' : Volume) : Prop where
  | step {node : Inode} (hlive : v.live? n = some node) (h : Step n v v')
  | creation {owner : Owner} {mode : Mode} {now : Int64} {node : Inode} (hnumber : node.number = n)
      (h : createInode owner mode now v = .ok node v')

abbrev Turns (S : UInt32 → Prop) := Relation.ReflTransGen fun v v' => ∃ n, S n ∧ Turn n v v'

theorem Steps.mono {S S' : UInt32 → Prop} (h : Steps S v v') (hsub : ∀ n, S n → S' n) :
    Steps S' v v' := by
  refine Relation.ReflTransGen.mono ?_ _ _ h
  rintro v₁ v₂ ⟨n, hn, hstep⟩
  exact ⟨n, hsub n hn, hstep⟩

theorem Turn.steps (hturn : Turn n v v') (h : v.Whole) : Steps (· = n) v v' := by
  cases hturn with
  | step hlive hstep => exact .single ⟨n, rfl, hstep⟩
  | creation hnumber hrun => exact hnumber ▸ ((createInode_ensures h _ _ _).of_ok hrun).steps

theorem Turns.steps {S : UInt32 → Prop} (hturns : Turns S v v') (h : v.Whole) : Steps S v v' := by
  induction hturns with
  | refl => exact .refl
  | tail _ hturn ih =>
    obtain ⟨n, hn, hturn⟩ := hturn
    refine ih.trans ((hturn.steps (Steps.whole ih h)).mono ?_)
    rintro _ rfl
    exact hn

theorem Turns.whole {S : UInt32 → Prop} (hturns : Turns S v v') (h : v.Whole) : v'.Whole :=
  (hturns.steps h).whole h

theorem Edited.turns {S : UInt32 → Prop} (h : Edited n v v') (hn : S n) : Turns S v v' := by
  refine Relation.ReflTransGen.mono ?_ _ _ h.chain
  rintro v₁ v₂ ⟨node, hlive, hstep⟩
  exact ⟨n, hn, .step hlive hstep⟩

theorem Turns.releaseInode_ensures {S : UInt32 → Prop} (hturns : Turns S v v') (h : v.Whole)
    (hn : S n) (hlive : v'.live? n = some node) :
    Action.Ensures (releaseInode n) v' (fun _ => Turns S v) (fun _ _ => False) False := by
  refine (Volume.releaseInode_ensures (hturns.whole h) hlive).mono ?_ (fun _ _ => id) id
  intro _ v'' hstep
  exact hturns.tail ⟨n, hn, .step hlive hstep⟩

/-- The record of the inode has new links and nothing else changes. -/
def Relinked (n : UInt32) (v v' : Volume) : Prop :=
  ∃ node links, v.live? n = some node ∧
    v' = { v with table := v.table.set n { node with links } }

theorem Relinked.step (h : Relinked n v v') : Step n v v' := by
  obtain ⟨node, links, hlive, rfl⟩ := h
  exact .relink hlive

theorem live?_set (hlive : v.live? n = some node) (node' : Inode) :
    Volume.live? { v with table := v.table.set n node' } n = some node' := by
  obtain ⟨hused, hget⟩ := live?_eq_some.1 hlive
  exact live?_eq_some.2 ⟨hused, get?_set_self hget⟩

theorem Relinked.blocksOf (h : Relinked n v v') (m : UInt32) : v'.blocksOf m = v.blocksOf m := by
  obtain ⟨node, links, hlive, rfl⟩ := h
  by_cases hm : m = n
  · subst hm
    rw [blocksOf_live hlive, blocksOf_live (live?_set hlive _)]
  · rw [Volume.blocksOf, Volume.blocksOf, live?, live?, get?_set_ne hm]

theorem modifyRecord_ensures (hlive : v.live? n = some node) {f : Inode → Inode} {links : UInt16}
    (hf : f node = { node with links }) :
    Action.Ensures (modifyRecord n f) v
      (fun _ v' => Relinked n v v' ∧ v'.live? n = some { node with links }) (fun _ _ => False)
      False := by
  simp only [modifyRecord, Action.ensures_modify, (live?_eq_some.1 hlive).2, hf]
  exact ⟨⟨node, links, hlive, rfl⟩, live?_set hlive _⟩

theorem addLink_ensures (hlive : v.live? n = some node) :
    Action.Ensures (addLink n) v (fun _ => Relinked n v) (fun _ _ => False) True := by
  have hget := (live?_eq_some.1 hlive).2
  simp only [addLink, Action.ensures_bind, Action.ensures_get, hget, Action.ensures_checked]
  cases word16 (node.links.toNat + 1) with
  | error t => trivial
  | ok links =>
    exact (modifyRecord_ensures hlive rfl).mono (fun _ _ h => h.1) (fun _ _ => False.elim)
      (fun _ => trivial)

theorem Edited.links_mode (h : Edited m v v') (hv : v.Whole) {node' : Inode}
    (hlive : v.live? n = some node) (hlive' : v'.live? n = some node') :
    node'.links = node.links ∧ node'.mode = node.mode := by
  by_cases hn : n = m
  · subst hn
    obtain ⟨old, w, hold, hsteps, rfl⟩ := h
    obtain rfl := Option.some.inj (hold.symm.trans hlive)
    obtain rfl := Option.some.inj ((live?_putBack hold).symm.trans hlive')
    exact ⟨OpenInode.Steps.links hsteps (hv.owns hold),
      (OpenInode.Steps.keeps hsteps (hv.owns hold)).identity.2⟩
  · rw [h.steps.live hv hn, hlive] at hlive'
    rw [Option.some.inj hlive']
    exact ⟨rfl, rfl⟩

theorem Edited.links (h : Edited m v v') (hv : v.Whole) {node' : Inode}
    (hlive : v.live? n = some node) (hlive' : v'.live? n = some node') :
    node'.links = node.links :=
  (h.links_mode hv hlive hlive').1

theorem Edited.isDirectory (h : Edited m v v') (hv : v.Whole) {node' : Inode}
    (hlive : v.live? n = some node) (hlive' : v'.live? n = some node') :
    node.isDirectory = node'.isDirectory := by
  rw [Inode.isDirectory, Inode.isDirectory, (h.links_mode hv hlive hlive').2]

theorem Edited.inode (h : Edited n v v') (hv : v.Whole) (hm : v.live? m = some node)
    (hnumber : node.number = m) :
    ∃ node', v'.live? m = some node' ∧ node'.number = m := by
  by_cases hne : m = n
  · subst hne
    obtain ⟨old, node', hold, hlive', hsame, -⟩ := h.live hv
    obtain rfl := Option.some.inj (hold.symm.trans hm)
    exact ⟨node', hlive', hsame.trans hnumber⟩
  · exact ⟨node, (h.steps.live hv hne).trans hm, hnumber⟩

theorem insert_ensures (h : v.Whole) (dir : UInt32) (name : String) (target : UInt32)
    (now : Int64) :
    Action.Ensures (insert dir name target now) v
      (fun _ v' => ∃ v₁, Edited dir v v₁ ∧ Relinked target v₁ v')
      (fun _ v' => v' = v ∨ Edited dir v v') False := by
  simp only [insert, Action.ensures_bind, Action.ensures_get, Action.ensures_lift]
  refine (inode_ensures h.sized target).mono ?_ (fun _ _ => .inl trivial) id
  rintro node ⟨hlive, hnumber⟩
  apply (addEntry_ensures h dir name target now).imp
  intro _ v₁ hedited
  obtain ⟨node₁, hlive₁, hnumber₁⟩ := hedited.inode h hlive hnumber
  have hwhole₁ := hedited.steps.whole h
  simp only [inode_of_live hwhole₁.sized hlive₁ hnumber₁, Fallible.ensures_ok,
    Action.ensures_modify]
  exact ⟨v₁, hedited, node₁, _, hlive₁, rfl⟩

/-- Creating a name is at the parent and at an inode that was not in use. -/
theorem create_ensures (h : v.Whole) (parent : UInt32) (name : String) (mode : Mode)
    (owner : Owner) (now : Int64) :
    Action.Ensures (create parent name mode owner now) v
      (fun _ => Turns (fun n => n = parent ∨ v.live? n = none) v)
      (fun _ => Turns (fun n => n = parent ∨ v.live? n = none) v) True := by
  simp only [create, Action.ensures_bind, Action.ensures_get, Action.ensures_lift,
    Action.ensures_refuseIf]
  refine (Directory.checkName_ensures name).mono ?_ (fun _ _ => .refl) (fun _ => trivial)
  intro _ _
  refine (lookup_ensures h parent name).mono ?_ (fun _ _ => .refl) (fun _ => trivial)
  rintro found ⟨node, hlive, hnumber⟩
  split
  · exact .refl
  refine (createInode_ensures h owner mode now).run.mono ?_ ?_ (fun _ => trivial)
  · rintro child v₁ ⟨hrun, hcreated⟩
    have hne : parent ≠ child.number := by
      rintro rfl
      rw [hcreated.fresh] at hlive
      cases hlive
    have hwhole₁ := hcreated.steps.whole h
    have hturns₁ : Turns (fun n => n = parent ∨ v.live? n = none) v v₁ :=
      .single ⟨child.number, .inr hcreated.fresh, .creation rfl hrun⟩
    have hkept : ∀ v₂, Edited parent v₁ v₂ → v₂.live? child.number = some child :=
      fun v₂ hedited => (hedited.steps.live hwhole₁ (Ne.symm hne)).trans hcreated.live
    rw [Action.ensures_attempt]
    refine (addEntry_ensures hwhole₁ parent name child.number now).mono ?_ ?_ (fun _ => trivial)
    · intro _ v₂ hedited
      have hturns₂ := hturns₁.trans (hedited.turns (.inl rfl))
      obtain ⟨-, dir, -, hdir, -⟩ := hedited.live hwhole₁
      have hwhole₂ := hedited.steps.whole hwhole₁
      simp only
      split
      · simp only [Action.ensures_bind, Action.ensures_pure]
        refine (modifyRecord_ensures (hkept v₂ hedited) rfl).mono ?_ (fun _ _ => False.elim)
          (fun _ => trivial)
        rintro _ v₃ ⟨hrelinked₃, -⟩
        have hdir₃ := (hrelinked₃.step.touches_whole hwhole₂).1.others.live hne ▸ hdir
        refine (addLink_ensures hdir₃).mono ?_ (fun _ _ => False.elim) id
        intro _ v₄ hrelinked₄
        exact (hturns₂.tail ⟨_, .inr hcreated.fresh,
          .step (hkept v₂ hedited) hrelinked₃.step⟩).tail ⟨_, .inl rfl, .step hdir₃ hrelinked₄.step⟩
      · exact hturns₂
    · intro e v₂ hentry
      have hlive₂ : v₂.live? child.number = some child := by
        obtain rfl | hedited := hentry
        · exact hcreated.live
        · exact hkept v₂ hedited
      have hturns₂ : Turns (fun n => n = parent ∨ v.live? n = none) v v₂ := by
        obtain rfl | hedited := hentry
        · exact hturns₁
        · exact hturns₁.trans (hedited.turns (.inl rfl))
      simp only [Action.ensures_bind, Action.ensures_fail]
      exact (hturns₂.releaseInode_ensures h (.inr hcreated.fresh) hlive₂).mono (fun _ _ h => h)
        (fun _ _ => False.elim) (fun _ => trivial)
  · rintro _ v' ⟨-, rfl, -⟩
    exact .refl

theorem checkUnused_ensures (h : v.Whole) (hlive : v.live? n = some node) (name : String) :
    (v.checkUnused node name).Ensures (fun _ => True) (fun _ => True) False := by
  unfold checkUnused
  split
  · simp only [Fallible.ensures_bind, Directory.isEmpty_eq (h.inside hlive), Fallible.ensures_ok,
      Fallible.ensures_refuseIf]
    split <;> trivial
  · trivial

theorem dropLink_ensures (h : v.Whole) (hlive : v.live? n = some node) (hnumber : node.number = n)
    (hlinks : 1 ≤ node.links) (now : Int64) :
    Action.Ensures (dropLink n now) v (fun _ => Step n v) (fun _ _ => False) False := by
  simp only [dropLink, Action.ensures_bind, Action.ensures_get, Action.ensures_lift,
    inode_of_live h.sized hlive hnumber, Fallible.ensures_ok, difference16, if_pos hlinks,
    Action.ensures_checked, Action.ensures_modify]
  have hstep : Step n v { v with table := v.table.set n { node with
      links := node.links - 1, accessed := now, modified := now, changed := now } } :=
    .relink hlive
  exact hstep

/-- Removing a name is at the parent and at the inode that the name was for. -/
theorem remove_ensures (h : v.Whole) (parent : UInt32) (name : String) (now : Int64) :
    Action.Ensures (remove parent name now) v
      (fun n v' => v.lookup parent name = .ok (some n) ∧ Turns (fun m => m = parent ∨ m = n) v v')
      (fun _ v' => v' = v) False := by
  simp only [remove, Action.ensures_bind, Action.ensures_get, Action.ensures_lift]
  have hlookup := lookup_ensures h parent name
  cases hfound : v.lookup parent name with
  | error stop =>
    rw [hfound] at hlookup
    cases stop with
    | failure e => trivial
    | trap t => exact hlookup
  | ok found =>
    cases found with
    | none => trivial
    | some n =>
      simp only [Fallible.ensures_ok, Action.ensures_bind, Action.ensures_lift]
      refine (inode_ensures h.sized n).mono ?_ (fun _ _ => trivial) id
      rintro target ⟨hlive, hnumber⟩
      refine (checkUnused_ensures h hlive name).mono ?_ (fun _ _ => trivial) id
      intro _ _
      refine (inode_ensures h.sized parent).mono ?_ (fun _ _ => trivial) id
      rintro dir ⟨hdir, -⟩
      refine (onRecord_ensures (Directory.remove_ensures (h.owns hdir) name now)).mono ?_ ?_ id
      · rintro _ v₁ ⟨w, rfl, hsteps⟩
        have hedited : Edited parent v (v.putBack parent w) := ⟨dir, w, hdir, hsteps, rfl⟩
        generalize v.putBack parent w = v₁ at hedited
        have hwhole₁ := hedited.steps.whole h
        have hturns₁ : Turns (fun m => m = parent ∨ m = n) v v₁ := hedited.turns (.inl rfl)
        obtain ⟨node₁, hlive₁, hnumber₁⟩ := hedited.inode h hlive hnumber
        obtain ⟨-, dir₁, -, hdir₁, -⟩ := hedited.live h
        split
        · split
          · simp only [Action.ensures_bind, Action.ensures_pure]
            refine (modifyRecord_ensures hdir₁ rfl).mono ?_ (fun _ _ => False.elim) id
            rintro _ v₂ ⟨hrelinked₂, hparent₂⟩
            have hlive₂ : ∃ node₂, v₂.live? n = some node₂ := by
              by_cases hn : n = parent
              · exact ⟨_, hn ▸ hparent₂⟩
              · exact ⟨node₁, (hrelinked₂.step.touches_whole hwhole₁).1.others.live hn ▸ hlive₁⟩
            obtain ⟨node₂, hlive₂⟩ := hlive₂
            have hturns₂ := hturns₁.tail ⟨parent, .inl rfl, .step hdir₁ hrelinked₂.step⟩
            exact (Turns.releaseInode_ensures hturns₂ h (.inr rfl) hlive₂).mono
              (fun _ _ hturns => ⟨trivial, hturns⟩) (fun _ _ => False.elim) id
          · simp only [Action.ensures_bind, Action.ensures_pure]
            exact (hturns₁.releaseInode_ensures h (.inr rfl) hlive₁).mono
              (fun _ _ hturns => ⟨trivial, hturns⟩) (fun _ _ => False.elim) id
        · rename_i hmore
          have hlinks₁ : 1 ≤ node₁.links := by
            rw [hedited.links h hlive hlive₁]
            exact Inode.one_le_links (Bool.eq_false_iff.2 hmore)
          simp only [Action.ensures_bind, Action.ensures_pure]
          refine (dropLink_ensures hwhole₁ hlive₁ hnumber₁ hlinks₁ now).mono ?_
            (fun _ _ => False.elim) id
          intro _ v₂ hstep₂
          exact ⟨trivial, hturns₁.tail ⟨n, .inr rfl, .step hlive₁ hstep₂⟩⟩
      · rintro e v' ⟨w, -, hfalse⟩
        exact hfalse.elim

end ExtentVolume.Volume
