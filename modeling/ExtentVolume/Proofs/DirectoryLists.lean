import ExtentVolume.Proofs.SlotList
import ExtentVolume.Proofs.Rehearsal

namespace ExtentVolume

namespace Volume

def slotLists (v : Volume) : SlotLists := fun n =>
  (v.live? n).bind fun node =>
    if node.isDirectory then some ((Directory.slots v.data node).map Entry.slot) else none

/-- Why a directory takes no further entry when so many blocks are free: no slot is empty, and there
is no block, or no place for another extent. -/
def NoRoom (v : Volume) (dir : UInt32) (free : Nat) (e : VolumeError) : Prop :=
  ∃ node l, v.live? dir = some node ∧ v.slotLists dir = some l ∧ none ∉ l ∧
    ((e = .noSpace ∧ free = 0) ∨
      (e = .noExtentSlots ∧ free ≠ 0 ∧ node.extents.inUse.length = 4))

/-- The name went into the list of the directory; all other lists are the given ones. There was room
for it with so many blocks free. -/
structure Filled (v : Volume) (lists : SlotLists) (free : Nat) (dir : UInt32) (name : String)
    (n : UInt32) (v' : Volume) : Prop where
  valid : Entry.checkName name = .ok ()
  directory : ∃ l, v.slotLists dir = some l
  lists : v'.slotLists = lists.edit dir (.put name n)
  room : ∀ e, ¬v.NoRoom dir free e

/-- The name was taken out of its list. An inode is given back with its last name, and then the list
of a directory is gone; nothing was in it. -/
structure Emptied (v : Volume) (parent : UInt32) (name : String) (n : UInt32) (v' : Volume) :
    Prop where
  found : ∃ l, v.slotLists parent = some l ∧ SlotList.lookup name l = some n
  lists : v'.slotLists =
    if (v'.live? n).isNone then (v.slotLists.edit parent (.clear name)).set n none
    else v.slotLists.edit parent (.clear name)
  unused : (v'.live? n).isNone = true → ∀ l, v.slotLists n = some l → SlotList.occupied l = []

/-- Why no file is created under a valid name in a directory with the list. -/
inductive NotCreated (v : Volume) (parent : UInt32) (l : SlotList) (name : String) (mode : Mode) :
    VolumeError → Prop where
  | taken (h : SlotList.lookup name l ≠ none) : NotCreated v parent l name mode (.alreadyExists name)
  | inode {e : VolumeError} (h : SlotList.lookup name l = none) (hcannot : v.CannotCreate mode e) :
      NotCreated v parent l name mode e
  | slot {e : VolumeError} (h : SlotList.lookup name l = none)
      (hfull : v.NoRoom parent (v.space.blocks.free.toNat - 1) e) :
      NotCreated v parent l name mode e

inductive NotEmptied (v : Volume) (l : SlotList) (name : String) : VolumeError → Prop where
  | absent (h : SlotList.lookup name l = none) : NotEmptied v l name (.notFound name)
  | dangling {n : UInt32} (h : SlotList.lookup name l = some n) (hdead : v.live? n = none) :
      NotEmptied v l name (.invalidInode n)
  | inUse {n : UInt32} {node : Inode} {held : SlotList} (h : SlotList.lookup name l = some n)
      (hlive : v.live? n = some node) (hlast : node.hasOneName = true)
      (hheld : v.slotLists n = some held) (hused : SlotList.occupied held ≠ []) :
      NotEmptied v l name (.directoryNotEmpty name)

structure Listed (v : Volume) : Prop where
  lookup : ∀ dir l, v.slotLists dir = some l → ∀ name,
    v.lookup dir name = .ok (SlotList.lookup name l)
  list : ∀ dir l, v.slotLists dir = some l → ∀ limit, ∃ listing,
    v.list dir 0 limit = .ok listing ∧ listing.stopped = none ∧
      listing.entries.map (fun e => (e.name, e.inode)) = (SlotList.occupied l).take limit
  insert : ∀ dir name target now,
    Action.Ensures (Volume.insert dir name target now) v
      (fun _ => v.Filled v.slotLists v.space.blocks.free.toNat dir name target)
      (fun e v' => v' = v ∧ ∀ l, v.slotLists dir = some l → Entry.checkName name = .ok () →
        v.live? target ≠ none → v.NoRoom dir v.space.blocks.free.toNat e)
      False
  create : ∀ parent name mode owner now,
    Action.Ensures (Volume.create parent name mode owner now) v
      (fun n v' => v.live? n = none ∧
        (∀ l, v.slotLists parent = some l → SlotList.lookup name l = none) ∧
        v.Filled (v.slotLists.set n mode.slotList?) (v.space.blocks.free.toNat - 1) parent name n v')
      (fun e v' => v'.slotLists = v.slotLists ∧ ∀ l, v.slotLists parent = some l →
        Entry.checkName name = .ok () → v.NotCreated parent l name mode e)
      (mode.isDirectory = true ∧
        ∃ node, v.live? parent = some node ∧ node.links.toNat + 1 = UInt16.size)
  remove : ∀ parent name now,
    Action.Ensures (Volume.remove parent name now) v (v.Emptied parent name)
      (fun e v' => v' = v ∧ ∀ l, v.slotLists parent = some l → v.NotEmptied l name e) False
  createInode : ∀ owner mode now,
    Action.Ensures (Volume.createInode owner mode now) v
      (fun node v' => v.live? node.number = none ∧
        v'.slotLists = v.slotLists.set node.number mode.slotList?)
      (fun _ v' => v' = v) False
  write : ∀ n offset bytes now,
    Action.Ensures (Volume.write n offset bytes now) v (fun _ v' => v'.slotLists = v.slotLists)
      (fun _ v' => v'.slotLists = v.slotLists) False
  allocateExtent : ∀ n count,
    Action.Ensures (Volume.allocateExtent n count) v
      (fun _ v' => v'.slotLists = v.slotLists.edit n (· ++ .blank (count.toNat * 128)))
      (fun _ v' => v' = v) False

variable {v v' : Volume} {n dir : UInt32} {node : Inode} {l : SlotList}

theorem slotLists_eq (v : Volume) : v.slotLists = v.members.slotLists := by
  funext n
  rw [slotLists, Namespace.slotLists]
  cases hlive : v.live? n with
  | none => rw [members_eq_none.2 hlive, Option.bind_none, Option.bind_none]
  | some node =>
    rw [members_live hlive, Option.bind_some, Option.bind_some, Member.slotList?, Inode.member]
    cases node.isDirectory with
    | true => rw [if_pos rfl, if_pos rfl, Option.map_some]
    | false => rw [if_neg Bool.false_ne_true, if_neg Bool.false_ne_true, Option.map_none]

theorem directory_of_slotLists (h : v.slotLists dir = some l) :
    ∃ node, v.live? dir = some node ∧ node.isDirectory = true ∧
      l = (Directory.slots v.data node).map Entry.slot := by
  obtain ⟨node, hlive, hl⟩ := Option.bind_eq_some_iff.1 h
  split at hl
  · rename_i hdirectory
    exact ⟨node, hlive, hdirectory, (Option.some.inj hl).symm⟩
  · cases hl

theorem slotLists_live (hlive : v.live? dir = some node) (hdirectory : node.isDirectory = true) :
    v.slotLists dir = some ((Directory.slots v.data node).map Entry.slot) := by
  rw [slotLists, hlive, Option.bind_some, if_pos hdirectory]

theorem isDirectory_iff_slotLists :
    v.members.isDirectory dir = true ↔ ∃ l, v.slotLists dir = some l := by
  constructor
  · intro h
    obtain ⟨node, hlive, hdirectory⟩ := live_of_isDirectory h
    exact ⟨_, slotLists_live hlive hdirectory⟩
  · rintro ⟨l, hl⟩
    obtain ⟨node, hlive, hdirectory, -⟩ := directory_of_slotLists hl
    exact (isDirectory_live hlive).trans hdirectory

theorem full_iff_noRoom (hdirectory : v.members.isDirectory dir = true) {e : VolumeError} :
    v.Full dir e ↔ v.NoRoom dir v.space.blocks.free.toNat e := by
  obtain ⟨node, hlive, hnode⟩ := live_of_isDirectory hdirectory
  have hfree : v.space.blocks.free.toNat = 0 ↔ v.space.blocks.free = 0 :=
    UInt32.toNat_inj (b := 0)
  have hslots : none ∉ (Directory.slots v.data node).map Entry.slot ↔
      (Directory.slots v.data node).any (·.isFree) = false := by
    rw [none_mem_iff, Bool.not_eq_true]
  constructor
  · rintro ⟨node', hlive', hfull, hcause⟩
    obtain rfl := Option.some.inj (hlive.symm.trans hlive')
    refine ⟨node, _, hlive, slotLists_live hlive hnode, hslots.2 hfull, ?_⟩
    rw [ne_eq, hfree]
    exact hcause
  · rintro ⟨node', l, hlive', hl, hfull, hcause⟩
    obtain rfl := Option.some.inj (hlive.symm.trans hlive')
    obtain rfl := Option.some.inj ((slotLists_live hlive hnode).symm.trans hl)
    rw [ne_eq, hfree] at hcause
    exact ⟨node, hlive, hslots.1 hfull, hcause⟩

section Calls

variable (h : v.Sound) (hl : v.members.Legible)

include hl in
theorem lookup_members_eq (hdir : v.slotLists dir = some l) (name : String) :
    v.members.lookup dir name = SlotList.lookup name l := by
  obtain ⟨node, hlive, hdirectory, rfl⟩ := directory_of_slotLists hdir
  have hlegible := hl dir _ (members_live hlive)
  rw [Member.Legible, entries_member v.data hdirectory] at hlegible
  rw [lookup_live hlive hdirectory, lookup_map_slot hlegible]

include h hl in
theorem lookup_slotLists (hdir : v.slotLists dir = some l) (name : String) :
    v.lookup dir name = .ok (SlotList.lookup name l) := by
  have hdirectory := isDirectory_iff_slotLists.2 ⟨l, hdir⟩
  rw [h.lookup_ok hdirectory, lookup_members_eq hl hdir]

include h in
theorem list_slotLists (hdir : v.slotLists dir = some l) (limit : Nat) :
    ∃ listing, v.list dir 0 limit = .ok listing ∧ listing.stopped = none ∧
      listing.entries.map (fun e => (e.name, e.inode)) = (SlotList.occupied l).take limit := by
  obtain ⟨node, hlive, hdirectory, rfl⟩ := directory_of_slotLists hdir
  obtain ⟨hentries, hstopped⟩ := Directory.list_entries (h.whole.inside hlive) 0 limit
  refine ⟨Directory.list v.data node 0 limit, ?_, hstopped, ?_⟩
  · rw [list, h.directory_eq hlive hdirectory]
    rfl
  · rw [hentries, List.drop_zero, List.map_take, occupied_map_slot]

include h hl in
theorem insert_slotLists (dir : UInt32) (name : String) (target : UInt32) (now : Int64) :
    Action.Ensures (insert dir name target now) v
      (fun _ => v.Filled v.slotLists v.space.blocks.free.toNat dir name target)
      (fun e v' => v' = v ∧ ∀ l, v.slotLists dir = some l → Entry.checkName name = .ok () →
        v.live? target ≠ none → v.NoRoom dir v.space.blocks.free.toNat e)
      False := by
  refine (insert_members h dir name target now).mono ?_ ?_ id
  · rintro _ v' ⟨hlive, hmembers, v₁, hentered, -⟩
    refine ⟨hentered.valid, isDirectory_iff_slotLists.1 hentered.directory, ?_, fun e => ?_⟩
    · rw [slotLists_eq, slotLists_eq, hmembers,
        Namespace.slotLists_insert hl dir hentered.valid (number_of_members hlive)]
    · rw [← full_iff_noRoom hentered.directory]
      exact hentered.room e
  · rintro e v' ⟨rfl, hrefused⟩
    refine ⟨rfl, fun l hdir hname htarget => ?_⟩
    have hdirectory := isDirectory_iff_slotLists.2 ⟨l, hdir⟩
    have hlive : v'.members target ≠ none := members_eq_none.not.2 htarget
    rw [← full_iff_noRoom hdirectory]
    exact hrefused hlive hdirectory hname (number_of_members hlive)

include h in
theorem full_after_createInode {parent : UInt32} {owner : Owner} {mode : Mode} {now : Int64}
    {child : Inode} {v₁ : Volume} {e : VolumeError}
    (hrun : createInode owner mode now v = .ok child v₁)
    (hdirectory : v.members.isDirectory parent = true) :
    v₁.Full parent e ↔ v.NoRoom parent (v.space.blocks.free.toNat - 1) e := by
  obtain ⟨hcreated, -, hfree⟩ := (createInode_members h owner mode now).of_ok hrun
  obtain ⟨hne, hkept⟩ := h.parent_kept hrun hdirectory
  have hlive : v₁.live? parent = v.live? parent := hcreated.steps.live h.whole hne
  have hlists : v₁.slotLists parent = v.slotLists parent := by
    rw [slotLists_eq, slotLists_eq, Namespace.slotLists, Namespace.slotLists, hkept]
  have hdirectory₁ : v₁.members.isDirectory parent = true := by
    rw [Namespace.isDirectory, hkept]
    exact hdirectory
  rw [full_iff_noRoom hdirectory₁, NoRoom, NoRoom, hlive, hlists, ← hfree, Nat.add_sub_cancel]

include h hl in
theorem create_slotLists (parent : UInt32) (name : String) (mode : Mode) (owner : Owner)
    (now : Int64) :
    Action.Ensures (create parent name mode owner now) v
      (fun n v' => v.live? n = none ∧
        (∀ l, v.slotLists parent = some l → SlotList.lookup name l = none) ∧
        v.Filled (v.slotLists.set n mode.slotList?) (v.space.blocks.free.toNat - 1) parent name n v')
      (fun e v' => v'.slotLists = v.slotLists ∧ ∀ l, v.slotLists parent = some l →
        Entry.checkName name = .ok () → v.NotCreated parent l name mode e)
      (mode.isDirectory = true ∧
        ∃ node, v.live? parent = some node ∧ node.links.toNat + 1 = UInt16.size) := by
  refine (create_members h parent name mode owner now).mono ?_ ?_ ?_
  · intro n v' hcreated
    obtain ⟨inodes, htake⟩ := hcreated.taken
    obtain ⟨child, v₁, hrun, hroom⟩ := hcreated.room
    refine ⟨members_eq_none.1 hcreated.fresh, fun l hdir => ?_, hcreated.valid,
      isDirectory_iff_slotLists.1 hcreated.directory, ?_, fun e => ?_⟩
    · rw [← lookup_members_eq hl hdir, hcreated.new]
    · rw [slotLists_eq, slotLists_eq, hcreated.members,
        Namespace.slotLists_create hl parent hcreated.valid (h.whole.number_of_take htake)]
    · rw [← full_after_createInode h hrun hcreated.directory]
      exact hroom e
  · rintro e v' ⟨hmembers, hcause⟩
    refine ⟨by rw [slotLists_eq, slotLists_eq, hmembers], fun l hdir hname => ?_⟩
    have hdirectory := isDirectory_iff_slotLists.2 ⟨l, hdir⟩
    have hlookup := lookup_members_eq hl hdir name
    obtain ⟨hexists, rfl⟩ | ⟨hnew, hrefused⟩ := hcause hdirectory hname
    · exact .taken (hlookup ▸ hexists)
    · cases hrefused with
      | inode hcannot => exact .inode (hlookup ▸ hnew) hcannot
      | entry hrun hfull =>
        exact .slot (hlookup ▸ hnew) ((full_after_createInode h hrun hdirectory).1 hfull)
  · rintro ⟨hmode, m, hm, hlinks⟩
    obtain ⟨node, hlive, rfl⟩ := members_eq_some hm
    exact ⟨hmode, node, hlive, hlinks⟩

theorem occupied_slotLists {target : Member} (htarget : v.members n = some target)
    (hdir : v.slotLists n = some l) :
    SlotList.occupied l = [] ↔ target.entries.all (·.isFree) = true := by
  rw [slotLists_eq, Namespace.slotLists, htarget, Option.bind_some] at hdir
  rw [Member.slotList?_eq_some hdir, occupied_eq_nil_iff]

include h hl in
theorem remove_slotLists (parent : UInt32) (name : String) (now : Int64) :
    Action.Ensures (remove parent name now) v (v.Emptied parent name)
      (fun e v' => v' = v ∧ ∀ l, v.slotLists parent = some l → v.NotEmptied l name e) False := by
  refine (remove_members h parent name now).mono ?_ ?_ id
  · intro n v' hremoved
    obtain ⟨target, htarget, hspare, hmembers⟩ := hremoved.target
    obtain ⟨dir, hdir, hdirectory, -⟩ := Namespace.directory_of_lookup hremoved.found
    obtain ⟨l, hparent⟩ := isDirectory_iff_slotLists.1
      (Namespace.isDirectory_iff.2 ⟨dir, hdir, hdirectory⟩)
    have hgone : (v'.live? n).isNone = true ↔ target.hasOneName = true := by
      rw [Option.isNone_iff_eq_none, ← members_eq_none, hmembers,
        Namespace.remove_self_eq_none_iff htarget]
    refine ⟨⟨l, hparent, ?_⟩, ?_, fun hnone held hheld => ?_⟩
    · rw [← lookup_members_eq hl hparent, hremoved.found]
    · rw [slotLists_eq, slotLists_eq, hmembers, Namespace.slotLists_remove hl]
      simp only [hgone]
    · rw [occupied_slotLists htarget hheld]
      exact Member.entries_free hspare (hgone.1 hnone)
  · rintro e v' ⟨rfl, hcause⟩
    refine ⟨rfl, fun l hparent => ?_⟩
    have hdirectory := isDirectory_iff_slotLists.2 ⟨l, hparent⟩
    have hlookup := lookup_members_eq hl hparent name
    cases hcause hdirectory with
    | absent hfound => exact .absent (hlookup ▸ hfound)
    | dangling hfound htarget => exact .dangling (hlookup ▸ hfound) (members_eq_none.1 htarget)
    | @notEmpty n target hfound htarget hspare =>
      rw [Member.maySpareName, Bool.or_eq_false_iff, Bool.not_eq_false', Bool.and_eq_true] at hspare
      obtain ⟨⟨hd, hone⟩, hused⟩ := hspare
      obtain ⟨held, hheld⟩ := isDirectory_iff_slotLists.1
        (Namespace.isDirectory_iff.2 ⟨target, htarget, hd⟩)
      obtain ⟨node, hlive, rfl⟩ := members_eq_some htarget
      rw [hasOneName_member] at hone
      refine .inUse (hlookup ▸ hfound) hlive hone hheld ?_
      rw [ne_eq, occupied_slotLists htarget hheld, hused]
      exact Bool.false_ne_true

include h in
theorem createInode_slotLists (owner : Owner) (mode : Mode) (now : Int64) :
    Action.Ensures (createInode owner mode now) v
      (fun node v' => v.live? node.number = none ∧
        v'.slotLists = v.slotLists.set node.number mode.slotList?)
      (fun _ v' => v' = v) False := by
  refine (createInode_members h owner mode now).mono ?_ (fun _ _ => And.left) id
  rintro node v' ⟨hcreated, hmembers, -⟩
  refine ⟨hcreated.fresh, ?_⟩
  rw [slotLists_eq, slotLists_eq, hmembers, Namespace.slotLists_set, Option.bind_some,
    Namespace.slotList?_ofMode]

include h in
theorem write_slotLists (n : UInt32) (offset : Nat) (bytes : List UInt8) (now : Int64) :
    Action.Ensures (write n offset bytes now) v (fun _ v' => v'.slotLists = v.slotLists)
      (fun _ v' => v'.slotLists = v.slotLists) False := by
  have hkeep : ∀ v' : Volume, v'.members = v.members → v'.slotLists = v.slotLists := by
    intro v' hmembers
    rw [slotLists_eq, slotLists_eq, hmembers]
  exact (write_members h n offset bytes now).mono (fun _ => hkeep) (fun _ => hkeep) id

include h hl in
theorem allocateExtent_slotLists (n count : UInt32) :
    Action.Ensures (allocateExtent n count) v
      (fun _ v' => v'.slotLists = v.slotLists.edit n (· ++ .blank (count.toNat * 128)))
      (fun _ v' => v' = v) False := by
  refine (allocateExtent_members h n count).mono ?_ (fun _ _ => id) id
  rintro e v' ⟨-, hmembers⟩
  rw [slotLists_eq, slotLists_eq, hmembers, Namespace.slotLists_grow hl,
    show Entry.slotsPerBlock = 128 from rfl]

include h hl in
theorem Sound.listed : v.Listed where
  lookup _ _ := lookup_slotLists h hl
  list _ _ := list_slotLists h
  insert := insert_slotLists h hl
  create := create_slotLists h hl
  remove := remove_slotLists h hl
  createInode := createInode_slotLists h
  write := write_slotLists h
  allocateExtent := allocateExtent_slotLists h hl

end Calls

end Volume

theorem Request.Run.legible {v v' : Volume} (hrun : Run v v') (h : v.Sound)
    (hl : v.members.Legible) : v'.members.Legible := by
  induction hrun with
  | refl => exact hl
  | tail hrun hr ih =>
    obtain ⟨r, hr⟩ := hr
    exact ih.effect (Request.effect (Run.sound hrun h) hr)

/-- In every state that calls lead to from a format, the directories behave as lists of slots. -/
theorem directories_are_slot_lists {D : Type} [BlockDevice D] (g : Geometry) (id : VolumeId)
    (now : Int64) (d d' : D) (v₀ v : Volume) (hformat : Volume.format g id now d = .ok v₀ d')
    (hrun : Request.Run v₀ v) : v.Listed := by
  have hformatted := Volume.formatted_of_format hformat
  have hlegible : v₀.members.Legible := by
    rw [hformatted.members]
    exact Namespace.legible_rooted
  exact (hrun.sound hformatted.sound).listed (hrun.legible hformatted.sound hlegible)

theorem created_name_is_listed : ∃ (v₀ v : Volume) (d' : MemoryDisk) (l : SlotList),
    Volume.format ⟨4, 4⟩ ⟨.replicate 16 0⟩ 0 (MemoryDisk.blank 8) = .ok v₀ d' ∧
      Request.Run v₀ v ∧ v.Listed ∧ v.slotLists 1 = some l ∧ SlotList.lookup "a" l = some 2 := by
  obtain ⟨v₀, d', hformat⟩ := Volume.format_memoryDisk
  have hdraft : ((Draft.fresh ⟨4, 4⟩).run? [.create 1 "a" .defaultFile default 0]).any
      (fun p => p.ns.isDirectory 1 && p.ns.lookup 1 "a" == some 2) = true := by decide +kernel
  obtain ⟨v, p, hsequence, hfits, hp⟩ :=
    Draft.run_formatted (Volume.formatted_of_format hformat) hdraft
  rw [Bool.and_eq_true, beq_iff_eq, ← hfits.members] at hp
  obtain ⟨hdirectory, hfound⟩ := hp
  obtain ⟨l, hl⟩ := Volume.isDirectory_iff_slotLists.1 hdirectory
  have hlisted := directories_are_slot_lists ⟨4, 4⟩ ⟨.replicate 16 0⟩ 0 (MemoryDisk.blank 8) d' v₀ v
    hformat hsequence.run
  have hlookup := hlisted.lookup 1 l hl "a"
  rw [hfits.sound.lookup_ok hdirectory, hfound] at hlookup
  exact ⟨v₀, v, d', l, hformat, hsequence.run, hlisted, hl, (Except.ok.inj hlookup).symm⟩

end ExtentVolume
