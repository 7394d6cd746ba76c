import ExtentVolume.Proofs.Namespace
import ExtentVolume.Proofs.View

namespace ExtentVolume

open Directory (blankEntry cleared slots_grow)

def Inode.member (node : Inode) (data : BlockCache) : Member where
  links := node.links.toNat
  slots := if node.isDirectory then some (Directory.slots data node) else none

namespace Volume

def members (v : Volume) : Namespace := fun n => (v.live? n).map (·.member v.data)

variable {v v' : Volume} {n m : UInt32} {node : Inode}

theorem isDirectory_member (node : Inode) (data : BlockCache) :
    (node.member data).isDirectory = node.isDirectory := by
  cases h : node.isDirectory <;> simp [Member.isDirectory, Inode.member, h]

theorem hasOneName_member (node : Inode) (data : BlockCache) :
    (node.member data).hasOneName = node.hasOneName := by
  rw [Member.hasOneName, isDirectory_member, Inode.hasOneName, decide_eq_decide,
    UInt16.le_iff_toNat_le]
  cases node.isDirectory <;> rfl

theorem entries_member (data : BlockCache) (h : node.isDirectory = true) :
    (node.member data).entries = Directory.slots data node := by
  simp [Member.entries, Inode.member, h]

theorem members_live (hlive : v.live? n = some node) :
    v.members n = some (node.member v.data) := by
  rw [members, hlive, Option.map_some]

theorem members_eq_some {t : Member} (h : v.members n = some t) :
    ∃ node, v.live? n = some node ∧ t = node.member v.data := by
  obtain ⟨node, hlive, ht⟩ := Option.map_eq_some_iff.1 h
  exact ⟨node, hlive, ht.symm⟩

theorem members_eq_none : v.members n = none ↔ v.live? n = none := Option.map_eq_none_iff

theorem members_zero (v : Volume) : v.members 0 = none := by
  rw [members_eq_none, live?]
  split <;> rfl

theorem number_of_members (h : v.members n ≠ none) : n ≠ 0 := by
  rintro rfl
  exact h v.members_zero

theorem isDirectory_live (hlive : v.live? n = some node) :
    v.members.isDirectory n = node.isDirectory := by
  rw [Namespace.isDirectory, members_live hlive, Option.any_some, isDirectory_member]

theorem Sized.used_members (h : v.Sized) {k : Nat} (hpos : 0 < k)
    (hlt : k < v.space.inodes.total.toNat) :
    v.space.inodes.used k = (v.members (.ofNat k)).isSome := by
  have hk : (UInt32.ofNat k).toNat = k :=
    Bitmap.toNat_ofNat_of_le v.space.inodes.total (Nat.le_of_lt hlt)
  have hne : UInt32.ofNat k ≠ 0 := by
    intro hzero
    rw [hzero] at hk
    exact Nat.ne_of_lt hpos hk
  obtain ⟨node, hnode⟩ := exists_get? h hne (by rw [hk]; exact hlt)
  rw [members, Option.isSome_map, live?, hk, hnode]
  cases v.space.inodes.used k <;> rfl

theorem Steps.members_eq {S : UInt32 → Prop} (hsteps : Steps S v v') (h : v.Whole) (hm : ¬S m) :
    v'.members m = v.members m := by
  rw [members, members, hsteps.live h hm]
  cases hlive : v.live? m with
  | none => simp only [Option.map_none]
  | some node =>
    simp only [Option.map_some, Inode.member, (hsteps.sameAt h hm).slots hlive]

theorem Steps.members (hsteps : Steps (· = n) v v') (h : v.Whole) :
    v'.members = v.members.set n (v'.members n) := by
  funext m
  by_cases hm : m = n
  · subst hm
    rw [Namespace.set_self]
  · rw [Namespace.set_ne hm, hsteps.members_eq h hm]

theorem SameFiles.members (h : SameFiles v v') (hv : v.Whole) : v'.members = v.members := by
  funext n
  rw [Volume.members, Volume.members, h.live]
  cases hlive : v.live? n with
  | none => simp only [Option.map_none]
  | some node => simp only [Option.map_some, Inode.member, (h.sameAt hv n).slots hlive]

theorem Whole.members_putBack (h : v.Whole) (hlive : v.live? n = some node) {w : OpenInode}
    (hsteps : OpenInode.Steps (v.opened node) w) {g : List Entry → List Entry}
    (hg : node.isDirectory = true →
      Directory.slots w.data w.node = g (Directory.slots v.data node)) :
    (v.putBack n w).members = v.members.edit n (.onSlots g) := by
  have howns := h.owns hlive
  have hmode : w.node.mode = node.mode := (OpenInode.Steps.keeps hsteps howns).identity.2
  have hlinks : w.node.links = node.links := OpenInode.Steps.links hsteps howns
  have hdirectory : w.node.isDirectory = node.isDirectory := by
    rw [Inode.isDirectory, hmode, Inode.isDirectory]
  have hedited : Edited n v (v.putBack n w) := ⟨node, w, hlive, hsteps, rfl⟩
  rw [hedited.steps.members h, members_live (live?_putBack hlive),
    Namespace.edit_eq (members_live hlive)]
  congr 2
  rw [Inode.member, hlinks, hdirectory, Member.onSlots, Inode.member]
  cases hd : node.isDirectory with
  | false => rfl
  | true => exact congrArg (Member.mk _ ∘ some) (hg hd)

/-- A change of links and times changes no more than the links of the member. -/
theorem Whole.members_relink (h : v.Whole) (hlive : v.live? n = some node) (links : UInt16)
    (accessed modified changed : Int64) :
    ({ v with table := v.table.set n { node with links, accessed, modified, changed } } :
        Volume).members =
      v.members.edit n (.onLinks fun _ => links.toNat) := by
  have hstep : Steps (· = n) v { v with
      table := v.table.set n { node with links, accessed, modified, changed } } :=
    .single ⟨n, rfl, .relink hlive⟩
  have hlive' := live?_set hlive { node with links, accessed, modified, changed }
  rw [hstep.members h, members_live hlive', Namespace.edit_eq (members_live hlive)]
  rfl

theorem live_of_isDirectory (h : v.members.isDirectory n = true) :
    ∃ node, v.live? n = some node ∧ node.isDirectory = true := by
  obtain ⟨t, ht, hdirectory⟩ := Namespace.isDirectory_iff.1 h
  obtain ⟨node, hlive, rfl⟩ := members_eq_some ht
  exact ⟨node, hlive, isDirectory_member node v.data ▸ hdirectory⟩

theorem Sound.directory_eq (h : v.Sound) (hlive : v.live? n = some node)
    (hdirectory : node.isDirectory = true) : v.directory n = .ok node := by
  rw [directory, h.inode_eq hlive]
  exact if_pos hdirectory

theorem Sound.directory_members (h : v.Sound) (n : UInt32) :
    (v.directory n).Ensures (fun node => v.live? n = some node ∧ node.isDirectory = true)
      (fun _ => v.members.isDirectory n = false) False := by
  cases hdirectory : v.members.isDirectory n with
  | true =>
    obtain ⟨node, hlive, hnode⟩ := live_of_isDirectory hdirectory
    rw [h.directory_eq hlive hnode]
    exact ⟨hlive, hnode⟩
  | false =>
    exact (directory_ensures h.whole.sized n).mono (fun node hnode => ⟨hnode.1, hnode.2.2⟩)
      (fun _ _ => rfl) id

theorem lookup_live (hlive : v.live? n = some node) (hdirectory : node.isDirectory = true)
    (name : String) :
    v.members.lookup n name =
      ((Directory.slots v.data node).find? (·.isFor name)).map (·.inode) := by
  rw [Namespace.lookup, members_live hlive, Option.bind_some, Member.lookup,
    entries_member v.data hdirectory]

theorem Sound.lookup_members (h : v.Sound) (dir : UInt32) (name : String) :
    (v.lookup dir name).Ensures
      (fun found => v.members.isDirectory dir = true ∧ found = v.members.lookup dir name)
      (fun _ => v.members.isDirectory dir = false) False := by
  apply (h.directory_members dir).bind
  rintro node ⟨hlive, hdirectory⟩
  rw [Directory.lookup_eq (h.whole.inside hlive), lookup_live hlive hdirectory]
  exact ⟨(isDirectory_live hlive).trans hdirectory, rfl⟩

theorem Sound.lookup_ok (h : v.Sound) {dir : UInt32}
    (hdirectory : v.members.isDirectory dir = true) (name : String) :
    v.lookup dir name = .ok (v.members.lookup dir name) := by
  have hens : (v.lookup dir name).Ensures (fun found => found = v.members.lookup dir name)
      (fun _ => False) False :=
    (h.lookup_members dir name).mono (fun _ h => h.2) (fun _ hfile => by simp [hdirectory] at hfile)
      id
  obtain ⟨_, hok, rfl⟩ := hens.exists_ok
  exact hok

/-- Why a directory in use takes no further entry. -/
def Full (v : Volume) (dir : UInt32) (e : VolumeError) : Prop :=
  ∃ node, v.live? dir = some node ∧ Directory.Full (v.opened node) e

structure Entered (dir : UInt32) (name : String) (target : UInt32) (v v' : Volume) : Prop where
  edited : Edited dir v v'
  members : v'.members = v.members.enter dir name target
  directory : v.members.isDirectory dir = true
  valid : Entry.checkName name = .ok ()
  room : ∀ e, ¬v.Full dir e
  space : (v.members.entries dir).any (·.isFree) = true → v'.space = v.space

/-- Where the directory and the name would do, the error says why the directory is full. -/
def EntryRefused (v : Volume) (dir : UInt32) (name : String) (target : UInt32) (e : VolumeError) :
    Prop :=
  v.members.isDirectory dir = true → Entry.checkName name = .ok () → target ≠ 0 → v.Full dir e

theorem addEntry_members (h : v.Sound) (dir : UInt32) (name : String) (target : UInt32)
    (now : Int64) :
    Action.Ensures (addEntry dir name target now) v (fun _ => Entered dir name target v)
      (fun e v' => v' = v ∧ v.EntryRefused dir name target e) False := by
  simp only [addEntry, Action.ensures_bind, Action.ensures_get, Action.ensures_lift]
  refine (h.directory_members dir).mono ?_ ?_ id
  · rintro node ⟨hlive, hdirectory⟩
    have howns := h.whole.owns hlive
    have hentries : v.members.entries dir = Directory.slots v.data node := by
      rw [Namespace.entries, members_live hlive]
      exact entries_member v.data hdirectory
    refine (onRecord_ensures ((Directory.insert_ensures howns name target now).and
      (Directory.insert_slots howns (h.content dir node hlive).packed name target now))).mono
      ?_ ?_ And.left
    · rintro _ _ ⟨w, rfl, hsteps, -, hname, hroom, hslots, hblocks⟩
      refine ⟨⟨node, w, hlive, hsteps, rfl⟩, h.whole.members_putBack hlive hsteps fun _ => hslots,
        (isDirectory_live hlive).trans hdirectory, hname, ?_, fun hfree => ?_⟩
      · rintro e ⟨node', hlive', hfull⟩
        obtain rfl := Option.some.inj (hlive.symm.trans hlive')
        exact hroom e hfull
      · rw [hentries] at hfree
        simp only [putBack, hblocks hfree]
        rfl
    · rintro e _ ⟨w, rfl, -, rfl, hfull⟩
      exact ⟨putBack_opened hlive, fun _ hname hnumber => ⟨node, hlive, hfull hnumber hname⟩⟩
  · intro e hfile
    refine ⟨trivial, fun hdirectory => ?_⟩
    rw [hfile] at hdirectory
    cases hdirectory

theorem insert_members (h : v.Sound) (dir : UInt32) (name : String) (target : UInt32)
    (now : Int64) :
    Action.Ensures (insert dir name target now) v
      (fun _ v' => v.members target ≠ none ∧ v'.members = v.members.insert dir name target ∧
        ∃ v₁, Entered dir name target v v₁ ∧ v'.space = v₁.space)
      (fun e v' => v' = v ∧ (v.members target ≠ none → v.EntryRefused dir name target e)) False := by
  simp only [insert, Action.ensures_bind, Action.ensures_get, Action.ensures_lift]
  cases htarget : v.live? target with
  | none =>
    rw [inode_eq h.whole.sized, htarget]
    exact ⟨trivial, fun hlive => absurd (members_eq_none.2 htarget) hlive⟩
  | some node =>
    rw [h.inode_eq htarget]
    have hmember : v.members target ≠ none := by
      rw [members_live htarget]
      exact Option.some_ne_none _
    refine (addEntry_members h dir name target now).mono ?_ ?_ id
    · intro _ v₁ hentered
      obtain ⟨node₁, hlive₁, hnumber₁⟩ :=
        hentered.edited.inode h.whole htarget (h.number target node htarget)
      have hwhole₁ := hentered.edited.steps.whole h.whole
      simp only [inode_of_live hwhole₁.sized hlive₁ hnumber₁, Fallible.ensures_ok,
        Action.ensures_modify]
      refine ⟨hmember, ?_, v₁, hentered, rfl⟩
      have hrelinked := hwhole₁.members_relink hlive₁
        (.ofNat (min (node₁.links.toNat + 1) (UInt16.size - 1))) node₁.accessed node₁.modified
        node₁.changed
      refine hrelinked.trans ?_
      rw [hentered.members, Namespace.insert]
      apply Namespace.edit_congr
      intro t ht
      rw [← hentered.members, members_live hlive₁] at ht
      obtain rfl := Option.some.inj ht
      rw [Member.onLinks, Member.onLinks, UInt16.toNat_ofNat_of_lt']
      · rfl
      · simp only [UInt16.size]
        omega
    · rintro e v' ⟨rfl, hrefused⟩
      exact ⟨rfl, fun _ => hrefused⟩

theorem modifyRecord_members (h : v.Whole) (hlive : v.live? n = some node) {f : Inode → Inode}
    {links : UInt16} (hf : f node = { node with links }) :
    Action.Ensures (modifyRecord n f) v
      (fun _ v' => Relinked n v v' ∧ v'.live? n = some { node with links } ∧
        v'.members = v.members.edit n (.onLinks fun _ => links.toNat) ∧ v'.space = v.space)
      (fun _ _ => False) False := by
  have hrelinked := modifyRecord_ensures hlive hf
  simp only [modifyRecord, Action.ensures_modify, (live?_eq_some.1 hlive).2, hf] at hrelinked ⊢
  exact ⟨hrelinked.1, hrelinked.2, h.members_relink hlive links _ _ _, trivial⟩

theorem addLink_members (h : v.Whole) (hlive : v.live? n = some node) :
    Action.Ensures (addLink n) v
      (fun _ v' => Relinked n v v' ∧ v'.members = v.members.edit n (.onLinks (· + 1)) ∧
        v'.space = v.space)
      (fun _ _ => False) (node.links.toNat + 1 = UInt16.size) := by
  simp only [addLink, Action.ensures_bind, Action.ensures_get, (live?_eq_some.1 hlive).2,
    Action.ensures_checked]
  by_cases hlt : node.links.toNat + 1 < UInt16.size
  · rw [word16, if_pos hlt]
    refine (modifyRecord_members h hlive rfl).mono ?_ (fun _ _ => False.elim) False.elim
    rintro _ v' ⟨hrelinked, -, hmembers, hspace⟩
    refine ⟨hrelinked, hmembers.trans (Namespace.edit_congr ?_), hspace⟩
    intro t ht
    obtain rfl := Option.some.inj ((members_live hlive).symm.trans ht)
    rw [Member.onLinks, UInt16.toNat_ofNat_of_lt' hlt]
    rfl
  · have hle := node.links.toNat_lt
    rw [word16, if_neg hlt]
    simp only [UInt16.size] at hlt ⊢
    omega

theorem Sound.members_grow (h : v.Sound) (hlive : v.live? n = some node) {count : UInt32}
    {e : Extent} {node' : Inode} {blocks : Bitmap}
    (ha : Inode.allocateExtent count (node, v.space.blocks) = .ok e (node', blocks)) :
    (v.putBack n ⟨node', blocks,
        ⟨BlockCache.zeroBlocks v.data.cells e.start.toNat e.count.toNat, v.data.start⟩⟩).members =
      v.members.edit n (.onSlots
        (· ++ List.replicate (count.toNat * Entry.slotsPerBlock) blankEntry)) := by
  obtain rfl := (Inode.of_allocateExtent ha).2.1
  exact h.whole.members_putBack hlive (.single (.grow ha)) fun _ =>
    slots_grow (h.whole.owns hlive) (h.content n node hlive).packed ha

theorem Whole.number_of_take (h : v.Whole) {inodes : Bitmap}
    (htake : v.space.inodes.take = .ok (some (n, inodes))) : n ≠ 0 := by
  rintro rfl
  obtain ⟨⟨old, hold⟩, -⟩ := h.take htake
  simp [InodeTable.get?] at hold

theorem createInode_members (h : v.Sound) (owner : Owner) (mode : Mode) (now : Int64) :
    Action.Ensures (createInode owner mode now) v
      (fun node v' => Created v owner mode now node v' ∧
        v'.members = v.members.set node.number (some (.ofMode mode)) ∧
        v'.space.blocks.free.toNat + 1 = v.space.blocks.free.toNat)
      (fun e v' => v' = v ∧ v.CannotCreate mode e) False := by
  refine ((createInode_ensures h.whole owner mode now).and
    (createInode_grown h.whole owner mode now)).mono ?_ (fun _ _ => And.left) And.left
  rintro node _ ⟨hcreated, e, inodes, blocks, htake, ha, rfl⟩
  have hstep : Step node.number v
      (v.taken node.number inodes (Inode.ofOwner node.number owner mode now)) :=
    .take htake rfl ⟨rfl, rfl, rfl⟩
  have hlive := h.whole.live?_taken htake (Inode.ofOwner node.number owner mode now)
  have hsound := hstep.sound h
  have htaken : (v.taken node.number inodes (Inode.ofOwner node.number owner mode now)).members =
      v.members.set node.number
        (some ((Inode.ofOwner node.number owner mode now).member v.data)) := by
    rw [Steps.members (.single ⟨_, rfl, hstep⟩) h.whole, members_live hlive]
    rfl
  refine ⟨hcreated, ?_, ((hsound.whole.owns hlive).blocks.room_of_block ha).2.2⟩
  refine (hsound.members_grow hlive ha).trans ?_
  rw [htaken, Namespace.edit, Namespace.set_self, Namespace.set_set, Option.map_some]
  congr 2
  have hnone : Directory.slots v.data (Inode.ofOwner node.number owner mode now) = [] := rfl
  have hdirectory : (Inode.ofOwner node.number owner mode now).isDirectory = mode.isDirectory := rfl
  rw [Inode.member, hnone, hdirectory, Member.ofMode]
  cases mode.isDirectory <;> rfl

/-- The inode is out of use with a blank record, and of the blocks in use those of others are left. -/
structure Freed (n : UInt32) (v v' : Volume) : Prop where
  unused : v'.space.inodes.used n.toNat = false
  blank : v'.table.get? n = some .blank
  blocks : v.space.blocks.Becomes (v.foreign n) v'.space.blocks

theorem Freed.free_le (h : Freed n v v') (hv : v.Whole) :
    v.space.blocks.free.toNat ≤ v'.space.blocks.free.toNat :=
  h.blocks.free_le hv.exactBlocks fun b hb => (hv.used_iff b).2 ((owned_iff n).2 (.inr hb))

theorem releaseInode_members (h : v.Whole) (hlive : v.live? n = some node) :
    Action.Ensures (releaseInode n) v
      (fun _ v' => Step n v v' ∧ v'.members = v.members.set n none ∧ Freed n v v')
      (fun _ _ => False) False := by
  obtain ⟨inodes, blocks, hinodes, hblocks, hbecomes, hforeign⟩ := h.release hlive
  simp only [releaseInode, Action.ensures_bind, Action.ensures_get, (live?_eq_some.1 hlive).2,
    Action.ensures_checked, hblocks, hinodes, Action.ensures_set, Action.ensures_pure]
  have hstep : Step n v { v with space := ⟨inodes, blocks⟩, table := v.table.set n .blank } :=
    .release hlive hinodes hblocks
  have hunused : inodes.used n.toNat = false := by
    rw [← Bool.not_eq_true, hbecomes.used_iff]
    exact fun hused => hused.2 rfl
  refine ⟨hstep, ?_, hunused, get?_set_self (live?_eq_some.1 hlive).2, hforeign⟩
  rw [Steps.members (.single ⟨n, rfl, hstep⟩) h]
  congr 1
  rw [members_eq_none, live?, hunused]
  rfl

theorem checkUnused_members (h : v.Whole) (hlive : v.live? n = some node) (name : String) :
    (v.checkUnused node name).Ensures (fun _ => (node.member v.data).maySpareName = true)
      (fun e => e = .directoryNotEmpty name ∧ (node.member v.data).maySpareName = false) False := by
  rw [checkUnused, Member.maySpareName, isDirectory_member, hasOneName_member]
  cases hlast : node.isDirectory && node.hasOneName with
  | false => exact rfl
  | true =>
    have hdirectory : node.isDirectory = true := (Bool.and_eq_true_iff.1 hlast).1
    rw [entries_member v.data hdirectory]
    simp only [if_true, Fallible.ensures_bind, Directory.isEmpty_eq_all (h.inside hlive),
      Fallible.ensures_ok, Fallible.ensures_refuseIf, Bool.not_true, Bool.false_or]
    cases (Directory.slots v.data node).all (·.isFree) with
    | false => exact ⟨trivial, rfl⟩
    | true => exact rfl

theorem dropLink_members (h : v.Whole) (hlive : v.live? n = some node) (hnumber : node.number = n)
    (hlinks : 1 ≤ node.links) (now : Int64) :
    Action.Ensures (dropLink n now) v
      (fun _ v' => v'.members = v.members.edit n (.onLinks (· - 1)) ∧ v' = { v with
        table := v.table.set n ({ node with links := node.links - 1 }.setTimes now) })
      (fun _ _ => False) False := by
  simp only [dropLink, Action.ensures_bind, Action.ensures_get, Action.ensures_lift,
    inode_of_live h.sized hlive hnumber, Fallible.ensures_ok, difference16, if_pos hlinks,
    Action.ensures_checked, Action.ensures_modify]
  refine ⟨(h.members_relink hlive (node.links - 1) now now now).trans ?_, trivial⟩
  apply Namespace.edit_congr
  intro t ht
  obtain rfl := Option.some.inj ((members_live hlive).symm.trans ht)
  have hsub : (node.links - 1).toNat = node.links.toNat - 1 := UInt16.toNat_sub_of_le _ _ hlinks
  rw [Member.onLinks, hsub]
  rfl

theorem clear_members (h : v.Sound) (hlive : v.live? n = some node) (name : String)
    (now : Int64) :
    Action.Ensures (onRecord n node (Directory.remove name now)) v
      (fun _ v' => Edited n v v' ∧ v'.members = v.members.edit n (.onSlots (cleared name)) ∧
        v'.space = v.space)
      (fun _ _ => False) False := by
  have howns := h.whole.owns hlive
  refine (onRecord_ensures ((Directory.remove_ensures howns name now).and
    (Directory.remove_slots howns name now))).mono ?_ ?_ And.left
  · rintro _ _ ⟨w, rfl, hsteps, -, hslots, hblocks⟩
    refine ⟨⟨node, w, hlive, hsteps, rfl⟩, h.whole.members_putBack hlive hsteps fun _ => hslots, ?_⟩
    simp only [putBack, hblocks]
    rfl
  · rintro e _ ⟨w, -, -, hfalse⟩
    exact hfalse

/-- The count of a directory's links is one less, and that of no other inode. -/
theorem unlink_members (h : v.Whole) (hlive : v.live? n = some node) :
    Action.Ensures
      (modifyRecord n fun node => { node with links := .ofNat (node.links.toNat - 1) }) v
      (fun _ v' => Relinked n v v' ∧ (∃ node', v'.live? n = some node') ∧
        v'.members = v.members.edit n (.onLinks (· - 1)) ∧ v'.space = v.space)
      (fun _ _ => False) False := by
  refine (modifyRecord_members h hlive rfl).mono ?_ (fun _ _ => id) id
  rintro _ v' ⟨hrelinked, hlive', hmembers, hspace⟩
  refine ⟨hrelinked, ⟨_, hlive'⟩, hmembers.trans (Namespace.edit_congr ?_), hspace⟩
  intro t ht
  obtain rfl := Option.some.inj ((members_live hlive).symm.trans ht)
  have hlinks : (UInt16.ofNat (node.links.toNat - 1)).toNat = node.links.toNat - 1 := by
    have hlt := node.links.toNat_lt
    apply UInt16.toNat_ofNat_of_lt'
    simp only [UInt16.size]
    omega
  rw [Member.onLinks, hlinks]
  rfl

/-- What became of the inode that was left by a name: a file is given back with its last name, and
what keeps a name has a new record. -/
structure Left (n : UInt32) (node : Inode) (now : Int64) (v v' : Volume) : Prop where
  freed : node.isDirectory = false → node.hasOneName = true → Freed n v v'
  kept : node.hasOneName = false → v' = { v with
    table := v.table.set n ({ node with links := node.links - 1 }.setTimes now) }

/-- The last name of a directory: the parent counts one link less, and the inode is given back. -/
theorem giveBack_members (h : v.Whole) {parent : UInt32} {dir : Inode}
    (hparent : v.live? parent = some dir) (hlive : v.live? n = some node) :
    Action.Ensures (do
        modifyRecord parent fun dir => { dir with links := .ofNat (dir.links.toNat - 1) }
        let _ ← releaseInode n
        return n) v
      (fun m v' => m = n ∧ v'.members = (v.members.edit parent (.onLinks (· - 1))).set n none ∧
        v.space.blocks.free.toNat ≤ v'.space.blocks.free.toNat ∧
        (parent ≠ n → v'.blocksOf parent = v.blocksOf parent))
      (fun _ _ => False) False := by
  rw [Action.ensures_bind]
  refine (unlink_members h hparent).mono ?_ (fun _ _ => id) id
  rintro _ v₁ ⟨hrelinked, hparent₁, hmembers₁, hspace₁⟩
  obtain ⟨htouches, hwhole₁⟩ := hrelinked.step.touches_whole h
  have hlive₁ : ∃ node₁, v₁.live? n = some node₁ := by
    by_cases hn : n = parent
    · exact hn ▸ hparent₁
    · exact ⟨node, htouches.others.live hn ▸ hlive⟩
  obtain ⟨node₁, hlive₁⟩ := hlive₁
  rw [Action.ensures_bind]
  refine (releaseInode_members hwhole₁ hlive₁).mono ?_ (fun _ _ => id) id
  rintro _ v₂ ⟨hstep, hmembers₂, hfreed⟩
  refine ⟨rfl, ?_, hspace₁ ▸ hfreed.free_le hwhole₁, fun hne => ?_⟩
  · rw [hmembers₂, hmembers₁]
  · exact ((hstep.touches_whole hwhole₁).1.others.blocksOf hne).trans (hrelinked.blocksOf parent)

theorem leave_members (h : v.Whole) {parent : UInt32} {dir : Inode} {target : Member}
    (hparent : v.live? parent = some dir) (hlive : v.live? n = some node)
    (hnumber : node.number = n) (hkind : target.isDirectory = node.isDirectory)
    (hnames : target.hasOneName = node.hasOneName) (now : Int64) :
    Action.Ensures
      (if target.hasOneName then
        if target.isDirectory then do
          modifyRecord parent fun dir => { dir with links := .ofNat (dir.links.toNat - 1) }
          let _ ← releaseInode n
          return n
        else do
          let _ ← releaseInode n
          return n
      else do
        dropLink n now
        return n) v
      (fun m v' => m = n ∧ v'.members = v.members.leave parent n target ∧
        v.space.blocks.free.toNat ≤ v'.space.blocks.free.toNat ∧ Left n node now v v' ∧
        (parent ≠ n → v'.blocksOf parent = v.blocksOf parent))
      (fun _ _ => False) False := by
  cases hone : target.hasOneName with
  | true =>
    cases hd : target.isDirectory with
    | true =>
      rw [if_pos rfl, if_pos rfl]
      refine (giveBack_members h hparent hlive).mono ?_ (fun _ _ => id) id
      rintro _ v' ⟨rfl, hmembers, hfree, hblocks⟩
      refine ⟨rfl, ?_, hfree, ⟨?_, ?_⟩, hblocks⟩
      · rw [hmembers, Namespace.leave, hone, hd]
        rfl
      · intro hfile
        rw [← hkind, hd] at hfile
        cases hfile
      · intro hmore
        rw [← hnames, hone] at hmore
        cases hmore
    | false =>
      simp only [if_true, Bool.false_eq_true, if_false, Action.ensures_bind, Action.ensures_pure]
      refine (releaseInode_members h hlive).mono ?_ (fun _ _ => id) id
      rintro _ v₁ ⟨hstep, hmembers₁, hfreed⟩
      refine ⟨trivial, ?_, hfreed.free_le h, ⟨fun _ _ => hfreed, ?_⟩,
        (hstep.touches_whole h).1.others.blocksOf⟩
      · rw [hmembers₁, Namespace.leave, hone, hd]
        rfl
      · intro hmore
        rw [← hnames, hone] at hmore
        cases hmore
  | false =>
    have hpos : 1 ≤ node.links := Inode.one_le_links (hnames.symm.trans hone)
    simp only [Bool.false_eq_true, if_false, Action.ensures_bind, Action.ensures_pure]
    refine (dropLink_members h hlive hnumber hpos now).mono ?_ (fun _ _ => id) id
    rintro _ v₁ ⟨hmembers₁, hkept⟩
    refine ⟨trivial, ?_, Nat.le_of_eq (by rw [hkept]), ⟨?_, fun _ => hkept⟩, fun hne => ?_⟩
    · rw [hmembers₁, Namespace.leave, hone]
      rfl
    · intro _ hlast
      rw [← hnames, hone] at hlast
      cases hlast
    · rw [hkept, blocksOf, blocksOf, live?, live?, get?_set_ne hne]

inductive RemoveRefused (ns : Namespace) (parent : UInt32) (name : String) : VolumeError → Prop where
  | absent (hfound : ns.lookup parent name = none) : RemoveRefused ns parent name (.notFound name)
  | dangling {n : UInt32} (hfound : ns.lookup parent name = some n) (htarget : ns n = none) :
      RemoveRefused ns parent name (.invalidInode n)
  | notEmpty {n : UInt32} {target : Member} (hfound : ns.lookup parent name = some n)
      (htarget : ns n = some target) (hspare : target.maySpareName = false) :
      RemoveRefused ns parent name (.directoryNotEmpty name)

structure Removed (parent : UInt32) (name : String) (now : Int64) (v : Volume) (n : UInt32)
    (v' : Volume) : Prop where
  found : v.members.lookup parent name = some n
  target : ∃ target, v.members n = some target ∧ target.maySpareName = true ∧
    v'.members = v.members.remove parent name n target
  free : v.space.blocks.free.toNat ≤ v'.space.blocks.free.toNat
  left : ∃ v₁ node, Edited parent v v₁ ∧ v₁.space = v.space ∧ v₁.live? n = some node ∧
    Left n node now v₁ v'
  blocks : parent ≠ n → v.blocksOf parent ⊆ v'.blocksOf parent

theorem remove_members (h : v.Sound) (parent : UInt32) (name : String) (now : Int64) :
    Action.Ensures (remove parent name now) v (Removed parent name now v)
      (fun e v' => v' = v ∧
        (v.members.isDirectory parent = true → RemoveRefused v.members parent name e))
      False := by
  have hlookup := h.lookup_members parent name
  simp only [remove, Action.ensures_bind, Action.ensures_get, Action.ensures_lift]
  refine hlookup.mono ?_ ?_ id
  · rintro _ ⟨hdirectory, rfl⟩
    obtain ⟨dir, hparent, -⟩ := live_of_isDirectory hdirectory
    cases hfound : v.members.lookup parent name with
    | none => exact ⟨rfl, fun _ => .absent hfound⟩
    | some n =>
      simp only [Action.ensures_bind, Action.ensures_lift]
      cases htarget : v.live? n with
      | none =>
        rw [inode_eq h.whole.sized, htarget]
        exact ⟨trivial, fun _ => .dangling hfound (members_eq_none.2 htarget)⟩
      | some target =>
        rw [h.inode_eq htarget]
        refine (checkUnused_members h.whole htarget name).mono ?_ ?_ id
        · intro _ hspare
          rw [h.inode_eq hparent]
          refine (clear_members h hparent name now).mono ?_ (fun _ _ => False.elim) id
          rintro _ v₁ ⟨hedited, hmembers₁, hspace₁⟩
          obtain ⟨node₁, hlive₁, hnumber₁⟩ :=
            hedited.inode h.whole htarget (h.number n target htarget)
          obtain ⟨-, dir₁, -, hdir₁, -⟩ := hedited.live h.whole
          have hkind₁ : (target.member v.data).isDirectory = node₁.isDirectory :=
            (isDirectory_member target v.data).trans (hedited.isDirectory h.whole htarget hlive₁)
          have hnames₁ : (target.member v.data).hasOneName = node₁.hasOneName := by
            rw [← hasOneName_member node₁ v₁.data, Member.hasOneName, Member.hasOneName, hkind₁,
              isDirectory_member]
            exact congrArg (fun links => decide (links.toNat ≤ _))
              (hedited.links h.whole htarget hlive₁).symm
          have hleave := leave_members (hedited.steps.whole h.whole) hdir₁ hlive₁ hnumber₁ hkind₁
            hnames₁ now
          rw [hasOneName_member, isDirectory_member] at hleave
          refine hleave.mono ?_ (fun _ _ => False.elim) id
          rintro _ v₂ ⟨rfl, hmembers₂, hfree, hleft, hblocks⟩
          rw [hspace₁] at hfree
          rw [hmembers₁] at hmembers₂
          exact ⟨hfound, ⟨_, members_live htarget, hspare, hmembers₂⟩, hfree,
            ⟨v₁, node₁, hedited, hspace₁, hlive₁, hleft⟩,
            fun hne => (hblocks hne).symm ▸ hedited.blocks h.whole⟩
        · rintro e ⟨rfl, hspare⟩
          exact ⟨trivial, fun _ => .notEmpty hfound (members_live htarget) hspare⟩
  · intro e hfile
    refine ⟨trivial, fun hdirectory => ?_⟩
    rw [hfile] at hdirectory
    cases hdirectory

theorem Sound.remove_ok (h : v.Sound) {parent : UInt32} {name : String} {target : Member}
    (hfound : v.members.lookup parent name = some n) (htarget : v.members n = some target)
    (hspare : target.maySpareName = true) (now : Int64) :
    ∃ v', remove parent name now v = .ok n v' ∧
      v'.members = v.members.remove parent name n target ∧
      v.space.blocks.free.toNat ≤ v'.space.blocks.free.toNat := by
  obtain ⟨dir, hdir, hdirectory, -⟩ := Namespace.directory_of_lookup hfound
  obtain ⟨m, v', hrun, hremoved⟩ := (remove_members h parent name now).exists_ok
    (fun e v' hfailed => by
      have hcause := hfailed.2 (Namespace.isDirectory_iff.2 ⟨dir, hdir, hdirectory⟩)
      cases hcause <;> simp_all) fun h => h
  obtain rfl := Option.some.inj (hfound.symm.trans hremoved.found)
  obtain ⟨target', htarget', -, hmembers⟩ := hremoved.target
  obtain rfl := Option.some.inj (htarget.symm.trans htarget')
  exact ⟨v', hrun, hmembers, hremoved.free⟩

theorem Sound.remove_refused (h : v.Sound) {parent : UInt32} {name : String} {target : Member}
    (hfound : v.members.lookup parent name = some n) (htarget : v.members n = some target)
    (hspare : target.maySpareName = false) (now : Int64) :
    remove parent name now v = .error (.failure (.directoryNotEmpty name)) v := by
  obtain ⟨dir, hdir, hdirectory, -⟩ := Namespace.directory_of_lookup hfound
  have hens := remove_members h parent name now
  cases hrun : remove parent name now v with
  | ok m v' =>
    have hremoved := hens.of_ok hrun
    obtain rfl := Option.some.inj (hfound.symm.trans hremoved.found)
    obtain ⟨target', htarget', hspare', -⟩ := hremoved.target
    obtain rfl := Option.some.inj (htarget.symm.trans htarget')
    rw [hspare] at hspare'
    cases hspare'
  | error stop v' =>
    cases stop with
    | trap t => exact (hens.of_trap hrun).elim
    | failure e =>
      obtain ⟨rfl, hcause⟩ := hens.of_failure hrun
      have hcause := hcause (Namespace.isDirectory_iff.2 ⟨dir, hdir, hdirectory⟩)
      cases hcause with
      | notEmpty => rfl
      | absent => simp_all
      | dangling => simp_all

/-- Why a file cannot be created under a new name in a directory. -/
inductive CreateRefused (v : Volume) (parent : UInt32) (mode : Mode) (owner : Owner) (now : Int64)
    (e : VolumeError) : Prop where
  | inode (h : v.CannotCreate mode e)
  | entry {child : Inode} {v₁ : Volume} (h : createInode owner mode now v = .ok child v₁)
      (hfull : v₁.Full parent e)

structure CreatedAs (parent : UInt32) (name : String) (mode : Mode) (owner : Owner) (now : Int64)
    (v : Volume) (n : UInt32) (v' : Volume) : Prop where
  directory : v.members.isDirectory parent = true
  valid : Entry.checkName name = .ok ()
  new : v.members.lookup parent name = none
  taken : ∃ inodes, v.space.inodes.take = .ok (some (n, inodes))
  fresh : v.members n = none
  room : ∃ child v₁, createInode owner mode now v = .ok child v₁ ∧ ∀ e, ¬v₁.Full parent e
  members : v'.members = v.members.create parent name mode n
  free : (v.members.entries parent).any (·.isFree) = true →
    v'.space.blocks.free.toNat + 1 = v.space.blocks.free.toNat
  blocks : v.blocksOf parent ⊆ v'.blocksOf parent

/-- The directory that is to hold the name is as it was when the new inode is in use. -/
theorem Sound.parent_kept (h : v.Sound) {parent : UInt32} {owner : Owner} {mode : Mode}
    {now : Int64} {child : Inode} {v₁ : Volume}
    (hrun : createInode owner mode now v = .ok child v₁)
    (hdirectory : v.members.isDirectory parent = true) :
    parent ≠ child.number ∧ v₁.members parent = v.members parent := by
  obtain ⟨hcreated, hmembers, -⟩ := (createInode_members h owner mode now).of_ok hrun
  have hne := Namespace.ne_of_isDirectory hdirectory (members_eq_none.2 hcreated.fresh)
  refine ⟨hne, ?_⟩
  rw [hmembers, Namespace.set_ne hne]

theorem CreatedAs.of_entered (h : v.Sound) {parent : UInt32} {name : String} {mode : Mode}
    {owner : Owner} {now : Int64} {child : Inode} {v₁ v₂ v₃ : Volume}
    (hrun : createInode owner mode now v = .ok child v₁)
    (hdirectory : v.members.isDirectory parent = true)
    (hnew : v.members.lookup parent name = none)
    (hentered : Entered parent name child.number v₁ v₂)
    (hmembers : v₃.members = v.members.create parent name mode child.number)
    (hspace : v₃.space = v₂.space) (hblocks : ∀ m, v₃.blocksOf m = v₂.blocksOf m) :
    CreatedAs parent name mode owner now v child.number v₃ := by
  obtain ⟨hcreated, -, hfree⟩ := (createInode_members h owner mode now).of_ok hrun
  obtain ⟨hne, hparent⟩ := h.parent_kept hrun hdirectory
  have hentries : v₁.members.entries parent = v.members.entries parent := by
    rw [Namespace.entries, hparent, Namespace.entries]
  refine ⟨hdirectory, hentered.valid, hnew, hcreated.taken, members_eq_none.2 hcreated.fresh,
    ⟨child, v₁, hrun, hentered.room⟩, hmembers, fun hslot => ?_, ?_⟩
  · rw [hspace, hentered.space (hentries ▸ hslot)]
    exact hfree
  · rw [hblocks, ← hcreated.steps.blocksOf h.whole hne]
    exact hentered.edited.blocks (hcreated.steps.whole h.whole)

theorem linkChild_members (h : v.Whole) {parent : UInt32} {dir : Inode} (hne : parent ≠ n)
    (hparent : v.live? parent = some dir) (hlive : v.live? n = some node) :
    Action.Ensures
      (if node.isDirectory then do
        modifyRecord n fun node => { node with links := 2 }
        addLink parent
        return n
      else return n) v
      (fun m v' => m = n ∧ v'.members =
          (if node.isDirectory then
            (v.members.edit n (.onLinks fun _ => 2)).edit parent (.onLinks (· + 1))
          else v.members) ∧
        v'.space = v.space ∧ ∀ k, v'.blocksOf k = v.blocksOf k)
      (fun _ _ => False) (node.isDirectory = true ∧ dir.links.toNat + 1 = UInt16.size) := by
  cases hd : node.isDirectory with
  | true =>
    simp only [if_true, Action.ensures_bind, Action.ensures_pure]
    refine (modifyRecord_members h hlive rfl).mono ?_ (fun _ _ => id) False.elim
    rintro _ v₁ ⟨hrelinked₁, -, hmembers₁, hspace₁⟩
    obtain ⟨htouches, hwhole₁⟩ := hrelinked₁.step.touches_whole h
    have hparent₁ := (htouches.others.live hne).trans hparent
    refine (addLink_members hwhole₁ hparent₁).mono ?_ (fun _ _ => id) fun hfull => ⟨trivial, hfull⟩
    rintro _ v₂ ⟨hrelinked₂, hmembers₂, hspace₂⟩
    rw [hmembers₂, hmembers₁]
    exact ⟨trivial, rfl, hspace₂.trans hspace₁,
      fun k => (hrelinked₂.blocksOf k).trans (hrelinked₁.blocksOf k)⟩
  | false =>
    simp only [Bool.false_eq_true, if_false, Action.ensures_pure]
    exact ⟨trivial, trivial, trivial, fun _ => trivial⟩

/-- An existing name is refused, and a failed call leaves no trace in the namespace. The count of
the parent's links may exceed a word. -/
theorem create_members (h : v.Sound) (parent : UInt32) (name : String) (mode : Mode)
    (owner : Owner) (now : Int64) :
    Action.Ensures (create parent name mode owner now) v (CreatedAs parent name mode owner now v)
      (fun e v' => v'.members = v.members ∧
        (v.members.isDirectory parent = true → Entry.checkName name = .ok () →
          (v.members.lookup parent name ≠ none ∧ e = .alreadyExists name) ∨
          (v.members.lookup parent name = none ∧ v.CreateRefused parent mode owner now e)))
      (mode.isDirectory = true ∧ ∃ m, v.members parent = some m ∧ m.links + 1 = UInt16.size) := by
  have hchecked := Directory.checkName_ensures name
  simp only [create, Action.ensures_bind, Action.ensures_get, Action.ensures_lift,
    Action.ensures_refuseIf]
  cases hname : Entry.checkName name with
  | error stop =>
    rw [hname] at hchecked
    cases stop with
    | trap t => exact hchecked.elim
    | failure e => exact ⟨trivial, fun _ hcontra => by cases hcontra⟩
  | ok u =>
  refine (h.lookup_members parent name).mono ?_ ?_ False.elim
  · rintro _ ⟨hdirectory, rfl⟩
    cases hnew : v.members.lookup parent name with
    | some n => exact ⟨trivial, fun _ _ => .inl ⟨Option.some_ne_none n, trivial⟩⟩
    | none =>
    refine (createInode_members h owner mode now).run.mono ?_ ?_ False.elim
    · rintro child v₁ ⟨hrun, hcreated, hmembers₁, -⟩
      have hsound₁ := hcreated.steps.sound h
      obtain ⟨hne, hparent₁⟩ := h.parent_kept hrun hdirectory
      rw [Action.ensures_attempt]
      refine (addEntry_members hsound₁ parent name child.number now).mono ?_ ?_ False.elim
      · intro _ v₂ hentered
        have hlive₂ : v₂.live? child.number = some child :=
          (hentered.edited.steps.live hsound₁.whole (Ne.symm hne)).trans hcreated.live
        obtain ⟨dir₁, dir₂, hdir₁, hdir₂, -⟩ := hentered.edited.live hsound₁.whole
        have hkind : child.isDirectory = mode.isDirectory := by
          rw [hcreated.record]
          rfl
        refine (linkChild_members (hentered.edited.steps.whole hsound₁.whole) hne hdir₂ hlive₂).mono
          ?_ (fun _ _ => False.elim) ?_
        · rintro _ v₃ ⟨rfl, hmembers₃, hspace₃, hblocks₃⟩
          refine .of_entered h hrun hdirectory hnew hentered ?_ hspace₃ hblocks₃
          rw [hmembers₃, hentered.members, hmembers₁, hkind]
          rfl
        · rintro ⟨hd, hfull⟩
          refine ⟨hkind ▸ hd, dir₁.member v₁.data, ?_, ?_⟩
          · rw [← hparent₁, members_live hdir₁]
          · rw [hentered.edited.links hsound₁.whole hdir₁ hdir₂] at hfull
            exact hfull
      -- the name has found no place, and the new inode is given back
      · rintro e v₁ ⟨rfl, hrefused⟩
        have hfresh : v.members child.number = none := members_eq_none.2 hcreated.fresh
        have hdirectory₁ : v₁.members.isDirectory parent = true := by
          rw [Namespace.isDirectory, hparent₁]
          exact hdirectory
        obtain ⟨inodes, htake⟩ := hcreated.taken
        have hfull := hrefused hdirectory₁ hname (h.whole.number_of_take htake)
        simp only [Action.ensures_bind, Action.ensures_fail]
        refine (releaseInode_members hsound₁.whole hcreated.live).mono ?_ (fun _ _ => False.elim)
          False.elim
        rintro _ v₂ ⟨-, hmembers₂, -⟩
        refine ⟨?_, fun _ _ => .inr ⟨trivial, .entry hrun hfull⟩⟩
        rw [hmembers₂, hmembers₁, Namespace.set_set, Namespace.set_eq_self hfresh]
    · rintro e _ ⟨-, rfl, hcannot⟩
      exact ⟨rfl, fun _ _ => .inr ⟨rfl, .inode hcannot⟩⟩
  · intro e hfile
    refine ⟨trivial, fun hdirectory => ?_⟩
    rw [hfile] at hdirectory
    cases hdirectory

theorem write_members (h : v.Sound) (n : UInt32) (offset : Nat) (bytes : List UInt8)
    (now : Int64) :
    Action.Ensures (write n offset bytes now) v (fun _ v' => v'.members = v.members)
      (fun _ v' => v'.members = v.members) False := by
  simp only [write, Action.ensures_bind, Action.ensures_get, Action.ensures_refuseIf,
    Action.ensures_lift, Fallible.ensures_restate]
  refine (inode_ensures h.whole.sized n).mono ?_ (fun _ _ => trivial) id
  rintro node ⟨hlive, -⟩
  have hkeep : node.isDirectory = false → ∀ w, OpenInode.Steps (v.opened node) w →
      (v.putBack n w).members = v.members := by
    intro hfile w hsteps
    have hslots : node.isDirectory = true → Directory.slots w.data w.node =
        id (Directory.slots v.data node) := by
      rw [hfile]
      exact fun hcontra => by cases hcontra
    rw [h.whole.members_putBack hlive hsteps hslots]
    apply Namespace.edit_id
    intro m _
    rw [Member.onSlots, Option.map_id]
    rfl
  cases hfile : node.isDirectory with
  | true => exact trivial
  | false =>
    simp only [Bool.false_eq_true, if_false]
    refine (onRecord_ensures (OpenInode.write_ensures (h.whole.owns hlive) now offset bytes)).mono
      ?_ ?_ id
    · rintro _ _ ⟨w, rfl, -, hsteps, -⟩
      exact hkeep hfile w hsteps
    · rintro _ _ ⟨w, rfl, -, hsteps, -⟩
      exact hkeep hfile w hsteps

theorem allocateExtent_members (h : v.Sound) (n count : UInt32) :
    Action.Ensures (allocateExtent n count) v
      (fun _ v' => v.members n ≠ none ∧ v'.members = v.members.edit n (.onSlots
        (· ++ List.replicate (count.toNat * Entry.slotsPerBlock) blankEntry)))
      (fun _ v' => v' = v) False := by
  refine (allocateExtent_ensures h.whole n count).mono ?_ (fun _ _ => id) id
  rintro e _ ⟨node, node', blocks, hlive, halloc, rfl⟩
  refine ⟨?_, h.members_grow hlive halloc⟩
  rw [members_live hlive]
  exact Option.some_ne_none _

end Volume

theorem Request.effect {v v' : Volume} {r : Request} (h : v.Sound) (hr : r.Returns v v') :
    v.members.Effect r v'.members := by
  have hkeep : v'.members = v.members → v.members.Effect r v'.members := by
    intro hsame
    rw [hsame]
    exact .keep r
  cases r with
  | create parent name mode owner now =>
    have hens := Volume.create_members h parent name mode owner now
    obtain ⟨n, hok⟩ | ⟨e, hfailed⟩ := hr
    · have hcreated := hens.of_ok hok
      obtain ⟨inodes, htake⟩ := hcreated.taken
      rw [hcreated.members]
      exact .create hcreated.directory hcreated.valid hcreated.fresh (h.whole.number_of_take htake)
        hcreated.new
    · exact hkeep (hens.of_failure hfailed).1
  | createInode owner mode now =>
    have hens := Volume.createInode_members h owner mode now
    obtain ⟨node, hok⟩ | ⟨e, hfailed⟩ := hr
    · obtain ⟨hcreated, hmembers, -⟩ := hens.of_ok hok
      obtain ⟨inodes, htake⟩ := hcreated.taken
      rw [hmembers]
      exact .createInode (Volume.members_eq_none.2 hcreated.fresh) (h.whole.number_of_take htake)
    · exact hkeep (congrArg Volume.members (hens.of_failure hfailed).1)
  | insert dir name target now =>
    have hens := Volume.insert_members h dir name target now
    obtain ⟨u, hok⟩ | ⟨e, hfailed⟩ := hr
    · obtain ⟨hlive, hmembers, v₁, hentered, -⟩ := hens.of_ok hok
      obtain ⟨t, ht⟩ := Option.ne_none_iff_exists'.1 hlive
      rw [hmembers]
      exact .insert hentered.directory hentered.valid ht (Volume.number_of_members hlive)
    · exact hkeep (congrArg Volume.members (hens.of_failure hfailed).1)
  | remove parent name now =>
    have hens := Volume.remove_members h parent name now
    obtain ⟨n, hok⟩ | ⟨e, hfailed⟩ := hr
    · have hremoved := hens.of_ok hok
      obtain ⟨target, htarget, hspare, hmembers⟩ := hremoved.target
      rw [hmembers]
      exact .remove hremoved.found htarget hspare
    · exact hkeep (congrArg Volume.members (hens.of_failure hfailed).1)
  | write number offset bytes now =>
    have hens := Volume.write_members h number offset bytes now
    obtain ⟨n, hok⟩ | ⟨e, hfailed⟩ := hr
    · exact hkeep (hens.of_ok hok)
    · exact hkeep (hens.of_failure hfailed)
  | allocateExtent number count =>
    have hens := Volume.allocateExtent_members h number count
    obtain ⟨e, hok⟩ | ⟨e, hfailed⟩ := hr
    · obtain ⟨hlive, hmembers⟩ := hens.of_ok hok
      obtain ⟨m, hm⟩ := Option.ne_none_iff_exists'.1 hlive
      rw [hmembers]
      exact .grow hm
    · exact hkeep (congrArg Volume.members (hens.of_failure hfailed))

end ExtentVolume
