import ExtentVolume.Proofs.Requests

namespace ExtentVolume

/-- The records are of the same inode and of the same kind of file. -/
structure Inode.Same (node node' : Inode) : Prop where
  number : node'.number = node.number
  mode : node'.mode = node.mode

namespace Inode

variable {node node' node'' : Inode}

theorem Same.refl (node : Inode) : node.Same node := ⟨rfl, rfl⟩

theorem Same.trans (h : node.Same node') (h' : node'.Same node'') : node.Same node'' :=
  ⟨h'.number.trans h.number, h'.mode.trans h.mode⟩

theorem Same.isDirectory (h : node.Same node') : node'.isDirectory = node.isDirectory := by
  rw [Inode.isDirectory, h.mode]
  rfl

theorem allocateExtent_same (node : Inode) (blocks : Bitmap) (count : UInt32) :
    Action.Leaves (allocateExtent count) (node, blocks) (node.Same ·.1) := by
  have hsame : ∀ extents size, node.Same { node with extents, blocks := size } :=
    fun _ _ => ⟨rfl, rfl⟩
  simp only [Action.Leaves, allocateExtent, Action.ensures_bind, Action.ensures_get]
  split
  · rw [Action.ensures_bind, Action.ensures_checked]
    split
    · split
      · simp only [Action.ensures_bind, Action.ensures_set, Action.ensures_checked,
          Action.ensures_pure]
        split
        · split
          · exact hsame _ _
          · trivial
        · trivial
      · exact .refl node
    · trivial
  · exact .refl node

end Inode

namespace OpenInode

variable (w : OpenInode)

theorem addExtent_same (count : UInt32) :
    Action.Leaves (addExtent count) w (w.node.Same ·.node) := by
  simp only [Action.Leaves, addExtent, Action.ensures_bind, Action.ensures_within,
    Action.ensures_get, Action.ensures_lift, Action.ensures_modify, Action.ensures_pure]
  apply (Inode.allocateExtent_same w.node w.blocks count).imp
  intro e r hsame
  exact Fallible.ensures_cases (fun _ _ => hsame) fun _ => hsame

theorem copy_same (offset : Nat) (bytes : List UInt8) :
    (∃ t, (w.copy offset bytes).stopped = some (.trap t)) ∨
      w.node.Same (w.copy offset bytes).inode.node := by
  fun_induction copy w offset bytes with
  | case1 w => exact .inr (.refl _)
  | case2 w offset bytes hne hm e w' ha ih =>
    exact ih.imp_right ((addExtent_same w 1).of_ok ha).trans
  | case3 w offset bytes hne hm stop w' ha =>
    cases stop with
    | failure e => exact .inr ((addExtent_same w 1).of_failure ha)
    | trap t => exact .inl ⟨t, rfl⟩
  | case4 w => exact .inr (.refl _)
  | case5 w offset bytes hne m hm here data hwrite size rest ih =>
    exact ih.imp_right fun hsame => ⟨hsame.number, hsame.mode⟩

theorem ensureExtent_same : Action.Leaves ensureExtent w (w.node.Same ·.node) := by
  simp only [ensureExtent, Action.ensures_bind, Action.ensures_get]
  split
  · exact Action.ensures_bind.2 (addExtent_same w 1)
  · exact .refl _

theorem write_same (now : Int64) (offset : Nat) (bytes : List UInt8) :
    Action.Leaves (write now offset bytes) w (w.node.Same ·.node) := by
  simp only [write, Action.ensures_bind, Action.ensures_restate, Action.ensures_get,
    Action.ensures_set]
  apply (ensureExtent_same w).imp
  intro _ w₁ hsame₁
  have hcopied := copy_same w₁ offset bytes
  generalize w₁.copy offset bytes = copied at hcopied
  obtain ⟨t, ht⟩ | hsame := hcopied
  · rw [ht]
    trivial
  · have hall : w.node.Same
        (if copied.written = 0 then copied.inode else copied.inode.touch now).node := by
      have hsame := hsame₁.trans hsame
      split
      · exact hsame
      · exact ⟨hsame.number, hsame.mode⟩
    match copied.stopped with
    | none => exact hall
    | some (.failure e) => exact hall
    | some (.trap t) => trivial

end OpenInode

namespace Directory

variable (w : OpenInode)

theorem place_same (entry : Entry) (now : Int64) :
    Action.Leaves (place entry now) w (w.node.Same ·.node) := by
  unfold Action.Leaves Action.Ensures
  fun_induction place entry now w with
  | case1 w stop hfind =>
    cases stop with
    | failure e => exact .refl _
    | trap t => trivial
  | case2 w slot hfind stop hwrite =>
    cases stop with
    | failure e => exact .refl _
    | trap t => trivial
  | case3 w slot hfind data hwrite size => exact ⟨rfl, rfl⟩
  | case4 w hfind stop w' ha =>
    cases stop with
    | failure e => exact (OpenInode.addExtent_same w 1).of_failure ha
    | trap t => trivial
  | case5 w hfind e w' ha ih =>
    have hsame := (OpenInode.addExtent_same w 1).of_ok ha
    have hrest : Action.Leaves (place entry now) w' (w'.node.Same ·.node) := ih
    exact hrest.mono (fun _ _ => hsame.trans) (fun _ _ => hsame.trans) id

theorem insert_same (name : String) (inode : UInt32) (now : Int64) :
    Action.Leaves (insert name inode now) w (w.node.Same ·.node) := by
  simp only [insert, Action.ensures_bind, Action.ensures_refuseIf]
  split
  · exact .refl _
  · refine Action.ensures_bind.2 (Action.ensures_lift.2 ?_)
    exact Fallible.ensures_cases (fun entry _ => place_same w entry now) fun _ => .refl _

theorem remove_same (name : String) (now : Int64) :
    Action.Leaves (remove name now) w (w.node.Same ·.node) := by
  simp only [remove, Action.ensures_bind, Action.ensures_get, Action.ensures_lift]
  refine Fallible.ensures_cases ?_ fun _ => .refl _
  intro found _
  cases found with
  | none => exact .refl _
  | some slot =>
    simp only [Action.ensures_bind, Action.ensures_lift, Action.ensures_set]
    exact Fallible.ensures_cases (fun _ _ => ⟨rfl, rfl⟩) fun _ => .refl _

end Directory

namespace Bitmap

variable {b b' : Bitmap} {n : UInt32} {k : Nat}

theorem isUsed_eq_true : b.isUsed n = .ok true ↔ b.used n.toNat = true := by
  unfold isUsed used
  by_cases hn : n.toNat < paddedBits b.total
  · simp [hn]
  · simp [hn]

/-- Only a number that is free is taken, and those in use stay so. -/
theorem used_of_take (h : b.take = .ok (some (n, b'))) :
    b.used n.toNat = false ∧ ∀ k, b.used k = true → b'.used k = true := by
  unfold take at h
  split at h
  · cases h
  · rename_i m hm
    obtain ⟨hle, hlt, hclear, -⟩ := firstFrom_some hm
    obtain ⟨hin, hfree⟩ := isClear_iff.1 hclear
    have hnat : (UInt32.ofNat m).toNat = m := Bitmap.toNat_ofNat_of_le b.total (by omega)
    cases hd : difference32 b.free 1 with
    | error t =>
      rw [hd] at h
      cases h
    | ok free =>
      rw [hd] at h
      obtain ⟨rfl, rfl⟩ := Prod.mk.inj (Option.some.inj (Except.ok.inj h))
      refine ⟨hnat.symm ▸ hfree, fun k hk => ?_⟩
      rw [used_set b m true free k hin, hk, ite_self]

end Bitmap

namespace FreeSpace

variable {a space : FreeSpace} {n : UInt32} {k : Nat}

theorem used_freeInode_ne (h : a.freeInode n = .ok space) (hk : k ≠ n.toNat) :
    space.inodes.used k = a.inodes.used k := by
  cases hreleased : a.inodes.release n with
  | error t =>
    simp only [freeInode, hreleased] at h
    cases h
  | ok inodes =>
    simp only [freeInode, hreleased] at h
    obtain rfl := Except.ok.inj h
    exact Bitmap.used_release_ne hreleased hk

theorem of_allocateInode (h : a.allocateInode = .ok (n, space)) :
    ∃ inodes, a.inodes.take = .ok (some (n, inodes)) ∧ space = { a with inodes } := by
  obtain ⟨taken, htaken, h⟩ := Fallible.of_bind_ok h
  have htake := Fallible.of_lift_ok htaken
  split at h
  · obtain ⟨rfl, rfl⟩ := Prod.mk.inj (Except.ok.inj h)
    exact ⟨_, htake, rfl⟩
  · cases h

end FreeSpace

namespace Volume

variable {v v' : Volume} {n root : UInt32} {node node' : Inode}

theorem inode_eq_ok : v.inode n = .ok node ↔ v.live? n = some node ∧ node.number = n := by
  constructor
  · intro h
    unfold inode at h
    split at h
    · rename_i found hget
      split at h
      · cases h
      · rename_i hnumber
        obtain ⟨used, hused, h⟩ := Fallible.of_bind_ok h
        cases used with
        | false => cases h
        | true =>
          obtain rfl := Except.ok.inj h
          have hbit := Bitmap.isUsed_eq_true.1 (Fallible.of_lift_ok hused)
          exact ⟨live?_eq_some.2 ⟨hbit, hget⟩, not_not.1 hnumber⟩
    · cases h
  · rintro ⟨hlive, hnumber⟩
    obtain ⟨hused, hget⟩ := live?_eq_some.1 hlive
    simp only [inode, hget, hnumber, Bitmap.isUsed_eq_true.2 hused, ne_eq, not_true, if_false]
    rfl

theorem get?_of_inode (h : v.inode n = .ok node) : v.table.get? n = some node :=
  (live?_eq_some.1 (inode_eq_ok.1 h).1).2

theorem directory_eq_ok :
    v.directory n = .ok node ↔ v.inode n = .ok node ∧ node.isDirectory = true := by
  constructor
  · intro h
    obtain ⟨found, hfound, h⟩ := Fallible.of_bind_ok h
    split at h
    · rename_i hdirectory
      obtain rfl := Except.ok.inj h
      exact ⟨hfound, hdirectory⟩
    · cases h
  · rintro ⟨hnode, hdirectory⟩
    simp only [directory, hnode, hdirectory, bind, Except.bind, pure, Except.pure, if_true]

def HasDirectory (v : Volume) (n : UInt32) : Prop := ∃ node, v.directory n = .ok node

theorem hasDirectory_iff : v.HasDirectory n ↔
    v.space.inodes.used n.toNat = true ∧
      ∃ node, v.table.get? n = some node ∧ node.number = n ∧ node.isDirectory = true := by
  simp only [HasDirectory, directory_eq_ok, inode_eq_ok, live?_eq_some]
  constructor
  · rintro ⟨node, ⟨⟨hused, hget⟩, hnumber⟩, hdirectory⟩
    exact ⟨hused, node, hget, hnumber, hdirectory⟩
  · rintro ⟨hused, node, hget, hnumber, hdirectory⟩
    exact ⟨node, ⟨⟨hused, hget⟩, hnumber⟩, hdirectory⟩

/-- The root has this number, and it is a directory in use. -/
structure RootedAt (v : Volume) (root : UInt32) : Prop where
  number : v.rootNumber = root
  directory : v.HasDirectory root

/-- The root stays where its bit is kept, and a record of the same inode. -/
theorem RootedAt.congr (h : v.RootedAt root) (hnumber : v'.rootNumber = v.rootNumber)
    (hused : v.space.inodes.used root.toNat = true → v'.space.inodes.used root.toNat = true)
    (hrecord : ∀ node, v.table.get? root = some node →
      ∃ node', v'.table.get? root = some node' ∧ node.Same node') : v'.RootedAt root := by
  obtain ⟨hroot, node, hget, hroot', hdirectory⟩ := hasDirectory_iff.1 h.directory
  obtain ⟨node', hget', hsame⟩ := hrecord node hget
  exact ⟨hnumber.trans h.number, hasDirectory_iff.2 ⟨hused hroot, node', hget',
    hsame.number.trans hroot', hsame.isDirectory.trans hdirectory⟩⟩

theorem RootedAt.same_table (h : v.RootedAt root) (hnumber : v'.rootNumber = v.rootNumber)
    (hused : v.space.inodes.used root.toNat = true → v'.space.inodes.used root.toNat = true)
    (htable : v'.table = v.table) : v'.RootedAt root :=
  h.congr hnumber hused fun node hget => ⟨node, htable ▸ hget, .refl node⟩

theorem RootedAt.set_other (h : v.RootedAt root) (hn : n ≠ root)
    (hnumber : v'.rootNumber = v.rootNumber)
    (hused : v.space.inodes.used root.toNat = true → v'.space.inodes.used root.toNat = true)
    (htable : v'.table = v.table.set n node') : v'.RootedAt root :=
  h.congr hnumber hused fun node hget =>
    ⟨node, by rw [htable, get?_set_ne (Ne.symm hn), hget], .refl node⟩

theorem RootedAt.set_same (h : v.RootedAt root) (hget : v.table.get? n = some node)
    (hnumber : v'.rootNumber = v.rootNumber)
    (hused : v.space.inodes.used root.toNat = true → v'.space.inodes.used root.toNat = true)
    (htable : v'.table = v.table.set n node') (hsame : node.Same node') : v'.RootedAt root := by
  by_cases hn : n = root
  · subst hn
    refine h.congr hnumber hused fun old hold => ?_
    obtain rfl := Option.some.inj (hget.symm.trans hold)
    exact ⟨node', by rw [htable, get?_set_self hget], hsame⟩
  · exact h.set_other hn hnumber hused htable

theorem RootedAt.onRecord {ε α : Type} {x : Action ε OpenInode α} (h : v.RootedAt root)
    (hnode : v.inode n = .ok node) (hx : Action.Leaves x (v.opened node) (node.Same ·.node)) :
    Action.Leaves (onRecord n node x) v (·.RootedAt root) := by
  have hback : ∀ w : OpenInode, node.Same w.node → (v.putBack n w).RootedAt root :=
    fun w hsame => h.set_same (get?_of_inode hnode) rfl (fun hused => hused) rfl hsame
  rw [Action.Leaves, Volume.onRecord, Action.ensures_within]
  exact Action.Ensures.mono hx (fun _ => hback) (fun _ => hback) id

theorem RootedAt.addEntry (h : v.RootedAt root) (dir : UInt32) (name : String) (target : UInt32)
    (now : Int64) : Action.Leaves (addEntry dir name target now) v (·.RootedAt root) := by
  simp only [Volume.addEntry, Action.ensures_bind, Action.ensures_get, Action.ensures_lift]
  refine Fallible.ensures_cases (fun node hnode => ?_) fun _ => h
  exact h.onRecord (directory_eq_ok.1 hnode).1 (Directory.insert_same _ name target now)

theorem RootedAt.modifyRecord (h : v.RootedAt root) (n : UInt32) {f : Inode → Inode}
    (hf : ∀ node : Inode, node.Same (f node)) :
    Action.Leaves (modifyRecord n f) v (·.RootedAt root) := by
  rw [Action.Leaves, Volume.modifyRecord, Action.ensures_modify]
  split
  · rename_i node hget
    exact h.set_same hget rfl (fun hused => hused) rfl (hf node)
  · exact h

theorem RootedAt.addLink (h : v.RootedAt root) (n : UInt32) :
    Action.Leaves (addLink n) v (·.RootedAt root) := by
  simp only [Volume.addLink, Action.ensures_bind, Action.ensures_get]
  split
  · rw [Action.ensures_bind, Action.ensures_checked]
    split
    · exact h.modifyRecord n fun _ => ⟨rfl, rfl⟩
    · trivial
  · exact h

/-- The number that is taken into use is another than that of the root. -/
theorem RootedAt.reserveInode (h : v.RootedAt root) (owner : Owner) (mode : Mode) (now : Int64) :
    Action.Ensures (reserveInode owner mode now) v
      (fun node v' => node.number ≠ root ∧ v'.RootedAt root) (fun _ v' => v'.RootedAt root) True := by
  have hroot := (hasDirectory_iff.1 h.directory).1
  simp only [Volume.reserveInode, Action.ensures_bind, Action.ensures_get, Action.ensures_refuseIf]
  split
  · exact h
  split
  · exact h
  refine Action.ensures_lift.2 (Fallible.ensures_cases ?_ fun _ => h)
  rintro ⟨n, space⟩ hspace
  obtain ⟨inodes, htake, rfl⟩ := FreeSpace.of_allocateInode hspace
  obtain ⟨hfree, hkept⟩ := Bitmap.used_of_take htake
  have hne : n ≠ root := by
    rintro rfl
    rw [hroot] at hfree
    cases hfree
  have hgiven : ∀ blocks space, FreeSpace.freeInode ⟨inodes, blocks⟩ n = .ok space →
      space.inodes.used root.toNat = true := fun blocks space hspace =>
    (FreeSpace.used_freeInode_ne hspace (hne.symm ∘ UInt32.toNat_inj.1)).trans (hkept _ hroot)
  dsimp only
  split
  · rw [Action.ensures_bind, Action.ensures_checked]
    split
    · rename_i space hspace
      exact h.same_table rfl (fun _ => hgiven _ space hspace) rfl
    · trivial
  · have halloc := Inode.allocateExtent_same (.ofOwner n owner mode now) v.space.blocks 1
    split
    · rename_i e node blocks hok
      rw [Action.ensures_bind, Action.ensures_set, Action.ensures_pure]
      have hsame := halloc.of_ok hok
      have hnumber : node.number ≠ root := fun hn => hne (hsame.number.symm.trans hn)
      exact ⟨hnumber, h.set_other hne rfl (hkept _) rfl⟩
    · rename_i stop left blocks hrefused
      rw [Action.ensures_bind, Action.ensures_checked]
      split
      · rename_i space hspace
        have hback : RootedAt { v with space, table := v.table.set n .blank } root :=
          h.set_other hne rfl (fun _ => hgiven blocks space hspace) rfl
        cases stop with
        | failure e => exact hback
        | trap t => trivial
      · trivial

theorem RootedAt.createInode (h : v.RootedAt root) (owner : Owner) (mode : Mode) (now : Int64) :
    Action.Ensures (createInode owner mode now) v
      (fun node v' => node.number ≠ root ∧ v'.RootedAt root) (fun _ v' => v'.RootedAt root) True := by
  rw [Volume.createInode, Action.ensures_bind]
  apply (h.reserveInode owner mode now).imp
  rintro node v₁ ⟨hne, h₁⟩
  rw [Action.ensures_bind]
  refine (Action.leaves_forM (R := (·.RootedAt root)) ?_ node.extents.inUse h₁).mono
    (fun _ _ h' => ⟨hne, h'⟩) (fun _ _ h' => h') id
  intro e v' h'
  simp only [Action.Leaves, Action.ensures_bind, Action.ensures_get, Action.ensures_lift,
    Action.ensures_modify]
  exact Fallible.ensures_cases (fun _ _ => h'.same_table rfl (fun hused => hused) rfl) fun _ => h'

theorem RootedAt.releaseInode (h : v.RootedAt root) (hn : n ≠ root) :
    Action.Leaves (releaseInode n) v (·.RootedAt root) := by
  simp only [Volume.releaseInode, Action.ensures_bind, Action.ensures_get]
  split
  · rename_i node hget
    rw [Action.ensures_bind, Action.ensures_checked]
    split
    · rename_i r hblocks
      obtain ⟨extents, node', blocks⟩ := r
      rw [Action.ensures_bind, Action.ensures_checked]
      split
      · rename_i inodes hinodes
        refine h.set_other hn rfl (fun hused => ?_) rfl
        exact (Bitmap.used_release_ne hinodes (hn.symm ∘ UInt32.toNat_inj.1)).trans hused
      · trivial
    · trivial
  · exact h

theorem RootedAt.dropLink (h : v.RootedAt root) (n : UInt32) (now : Int64) :
    Action.Leaves (dropLink n now) v (·.RootedAt root) := by
  simp only [Volume.dropLink, Action.ensures_bind, Action.ensures_get, Action.ensures_lift,
    Action.ensures_checked, Action.ensures_modify]
  refine Fallible.ensures_cases (fun node hnode => ?_) fun _ => h
  split
  · exact h.set_same (get?_of_inode hnode) rfl (fun hused => hused) rfl ⟨rfl, rfl⟩
  · trivial

theorem RootedAt.insert (h : v.RootedAt root) (dir : UInt32) (name : String) (target : UInt32)
    (now : Int64) : Action.Leaves (insert dir name target now) v (·.RootedAt root) := by
  simp only [Volume.insert, Action.ensures_bind, Action.ensures_get, Action.ensures_lift,
    Action.ensures_modify]
  refine Fallible.ensures_cases (fun _ _ => ?_) fun _ => h
  apply (h.addEntry dir name target now).imp
  intro _ v₁ h₁
  refine Fallible.ensures_cases (fun node hnode => ?_) fun _ => h₁
  exact h₁.set_same (get?_of_inode hnode) rfl (fun hused => hused) rfl ⟨rfl, rfl⟩

theorem RootedAt.create (h : v.RootedAt root) (parent : UInt32) (name : String) (mode : Mode)
    (owner : Owner) (now : Int64) :
    Action.Ensures (create parent name mode owner now) v
      (fun n v' => n ≠ root ∧ v'.RootedAt root) (fun _ v' => v'.RootedAt root) True := by
  simp only [Volume.create, Action.ensures_bind, Action.ensures_get, Action.ensures_lift,
    Action.ensures_refuseIf]
  refine Fallible.ensures_cases (fun _ _ => ?_) fun _ => h
  refine Fallible.ensures_cases (fun found _ => ?_) fun _ => h
  split
  · exact h
  apply (h.createInode owner mode now).imp
  rintro node v₁ ⟨hne, h₁⟩
  rw [Action.ensures_attempt]
  refine (h₁.addEntry parent name node.number now).mono ?_ ?_ id
  · intro _ v₂ h₂
    dsimp only
    split
    · simp only [Action.ensures_bind, Action.ensures_pure]
      apply (h₂.modifyRecord node.number ?_).imp
      · intro _ v₃ h₃
        exact (h₃.addLink parent).imp fun _ _ h₄ => ⟨hne, h₄⟩
      · exact fun _ => ⟨rfl, rfl⟩
    · exact ⟨hne, h₂⟩
  · intro e v₂ h₂
    simp only [Action.ensures_bind, Action.ensures_fail]
    exact h₂.releaseInode hne

/-- Removing a name frees the root only if it is the last name of the root. -/
theorem RootedAt.remove (h : v.RootedAt root) {parent : UInt32} {name : String}
    (hkeeps : v.lookup parent name = .ok (some root) →
      ∀ node, v.inode root = .ok node → node.hasOneName = false) (now : Int64) :
    Action.Leaves (remove parent name now) v (·.RootedAt root) := by
  simp only [Volume.remove, Action.ensures_bind, Action.ensures_get, Action.ensures_lift]
  refine Fallible.ensures_cases (fun found hfound => ?_) fun _ => h
  cases found with
  | none => exact h
  | some n =>
    simp only [Action.ensures_bind, Action.ensures_lift]
    refine Fallible.ensures_cases (fun target htarget => ?_) fun _ => h
    refine Fallible.ensures_cases (fun _ _ => ?_) fun _ => h
    refine Fallible.ensures_cases (fun dir hdir => ?_) fun _ => h
    apply (h.onRecord hdir (Directory.remove_same _ name now)).imp
    intro _ v₁ h₁
    split
    · rename_i hlast
      have hne : n ≠ root := by
        rintro rfl
        rw [hkeeps hfound target htarget] at hlast
        cases hlast
      split
      · simp only [Action.ensures_bind, Action.ensures_pure]
        apply (h₁.modifyRecord parent ?_).imp
        · intro _ v₂ h₂
          exact h₂.releaseInode hne
        · exact fun _ => ⟨rfl, rfl⟩
      · simp only [Action.ensures_bind, Action.ensures_pure]
        exact h₁.releaseInode hne
    · simp only [Action.ensures_bind, Action.ensures_pure]
      exact h₁.dropLink n now

theorem RootedAt.write (h : v.RootedAt root) (n : UInt32) (offset : Nat) (bytes : List UInt8)
    (now : Int64) : Action.Leaves (write n offset bytes now) v (·.RootedAt root) := by
  simp only [Volume.write, Action.ensures_bind, Action.ensures_get, Action.ensures_lift,
    Fallible.ensures_restate, Action.ensures_refuseIf]
  refine Fallible.ensures_cases (fun node hnode => ?_) fun _ => h
  split
  · exact h
  · exact h.onRecord hnode (OpenInode.write_same _ now offset bytes)

theorem RootedAt.allocateExtent (h : v.RootedAt root) (n count : UInt32) :
    Action.Leaves (allocateExtent n count) v (·.RootedAt root) := by
  simp only [Volume.allocateExtent, Action.ensures_bind, Action.ensures_get, Action.ensures_lift]
  refine Fallible.ensures_cases (fun node hnode => ?_) fun _ => h
  exact h.onRecord hnode (OpenInode.addExtent_same _ count)

end Volume

/-- The call removes a name of the inode, and it is the last one. -/
def Request.Frees (v : Volume) (n : UInt32) : Request → Prop
  | .remove parent name _ => v.lookup parent name = .ok (some n) ∧
      ∃ node, v.inode n = .ok node ∧ node.hasOneName = true
  | _ => False

theorem Volume.RootedAt.request {v v' : Volume} {root : UInt32} (h : v.RootedAt root) {r : Request}
    (hkeeps : ¬r.Frees v root) (hr : r.Returns v v') : v'.RootedAt root := by
  cases r with
  | create parent name mode owner now =>
    exact ((h.create parent name mode owner now).imp fun _ _ h => h.2).of_returns hr
  | createInode owner mode now =>
    exact ((h.createInode owner mode now).imp fun _ _ h => h.2).of_returns hr
  | insert dir name target now => exact (h.insert dir name target now).of_returns hr
  | remove parent name now =>
    refine (h.remove (fun hfound node hnode => ?_) now).of_returns hr
    by_contra hlast
    exact hkeeps ⟨hfound, node, hnode, Bool.not_eq_false _ ▸ hlast⟩
  | write n offset bytes now => exact (h.write n offset bytes now).of_returns hr
  | allocateExtent n count => exact (h.allocateExtent n count).of_returns hr

end ExtentVolume
