import ExtentVolume.Proofs.LinkCount
import ExtentVolume.Proofs.Persistence
import ExtentVolume.Proofs.Rehearsal

namespace ExtentVolume

open BlockDevice

namespace Volume

def IsNamed (v : Volume) (n : UInt32) : Prop :=
  ∃ dir node e, v.live? dir = some node ∧ node.isDirectory = true ∧
    e ∈ Directory.slots v.data node ∧ e.isFree = false ∧ e.inode = n

variable {v v' : Volume} {n : UInt32}

theorem isNamed_iff (hn : n ≠ 0) : v.IsNamed n ↔ 0 < v.members.names n := by
  rw [Nat.pos_iff_ne_zero, Namespace.names, Ne, tally_eq_zero_iff]
  constructor
  · rintro ⟨dir, node, e, hlive, hdirectory, he, -, rfl⟩ hzero
    have hnone := hzero dir
    rw [members_live hlive, mentions, Option.elim_some, entries_member v.data hdirectory,
      List.countP_eq_zero] at hnone
    exact hnone e he (beq_self_eq_true _)
  · intro hsome
    rw [not_forall] at hsome
    obtain ⟨dir, hdir⟩ := hsome
    cases hm : v.members dir with
    | none =>
      rw [hm] at hdir
      exact absurd rfl hdir
    | some m =>
      obtain ⟨node, hlive, rfl⟩ := members_eq_some hm
      rw [hm, mentions, Option.elim_some, List.countP_eq_zero] at hdir
      push Not at hdir
      obtain ⟨e, he, hinode⟩ := hdir
      have hdirectory : node.isDirectory = true := by
        by_contra hfile
        rw [Member.entries, Inode.member, if_neg hfile] at he
        cases he
      rw [entries_member v.data hdirectory] at he
      refine ⟨dir, node, e, hlive, hdirectory, he, ?_, eq_of_beq hinode⟩
      rw [Entry.isFree, eq_of_beq hinode]
      exact beq_eq_false_iff_ne.2 hn

theorem slot_of_lookup {dir : UInt32} {name : String} (h : v.members.lookup dir name = some n) :
    ∃ node e, v.live? dir = some node ∧ node.isDirectory = true ∧
      e ∈ Directory.slots v.data node ∧ e.isFree = false ∧ e.inode = n := by
  obtain ⟨m, hm, hdirectory, hfound⟩ := Namespace.directory_of_lookup h
  obtain ⟨node, hlive, rfl⟩ := members_eq_some hm
  rw [isDirectory_member] at hdirectory
  obtain ⟨e, he, hinode⟩ := Option.map_eq_some_iff.1 hfound
  rw [entries_member v.data hdirectory] at he
  refine ⟨node, e, hlive, hdirectory, List.mem_of_find?_eq_some he, ?_, hinode⟩
  rw [Entry.isFree, hinode]
  exact beq_eq_false_iff_ne.2 (Namespace.lookup_ne_zero h)

end Volume

namespace History

variable {D : Type} [BlockDevice D] {s : History}

theorem balanced_of_format {g : Geometry} {id : VolumeId} {now : Int64} {d d' : D} {v₀ : Volume}
    (hformat : Volume.format g id now d = .ok v₀ d') (hrun : Run ⟨v₀, .root⟩ s) :
    s.volume.Sound ∧ Balanced s.volume.members s.origin := by
  have hformatted := Volume.formatted_of_format hformat
  refine hrun.balanced hformatted.sound ?_
  rw [hformatted.members]
  exact .rooted

theorem Run.usage {s s' : History} (hrun : Run s s') (disk : D) (w : Option Volume) :
    Usage.Run ⟨s.volume, disk, w⟩ ⟨s'.volume, disk, w⟩ := by
  induction hrun with
  | refl => exact .refl
  | tail _ hstep ih =>
    obtain ⟨r, -, hr, -⟩ := hstep
    exact ih.tail (.call hr)

end History

section Names

variable {v : Volume} {o : Origins} {parent n : UInt32} {name : String} {target : Member}

theorem Balanced.links_of_directory {ns : Namespace} (h : Balanced ns o) (hn : n ≠ 0)
    (htarget : ns n = some target) (hdirectory : target.isDirectory = true) :
    target.links = ns.names n + 1 + o.children n := by
  have hcounts := h.counts n hn
  rw [Namespace.kind, htarget, Option.map_some, hdirectory] at hcounts
  exact hcounts

theorem Balanced.remove_of_child (hv : v.Sound) (h : Balanced v.members o)
    (hfound : v.members.lookup parent name = some n) (htarget : v.members n = some target)
    (hdirectory : target.isDirectory = true) {c : UInt32} (hc : o c = some n) (time : Int64) :
    ∃ v', Volume.remove parent name time v = .ok n v' ∧
      (v.members.names n = 1 → ¬v'.IsNamed n) := by
  have hn := Namespace.lookup_ne_zero hfound
  have hlinks := h.links_of_directory hn htarget hdirectory
  have hpos := Namespace.names_pos hfound
  have hchild : o.children n ≠ 0 := fun hzero => Origins.children_eq_zero_iff.1 hzero c hc
  have hone : target.hasOneName = false := by
    rw [Member.hasOneName, hdirectory, if_pos rfl, decide_eq_false_iff_not]
    omega
  have hspare : target.maySpareName = true := by
    rw [Member.maySpareName, hone, Bool.and_false]
    rfl
  obtain ⟨v', hok, hmembers, -⟩ := hv.remove_ok hfound htarget hspare time
  refine ⟨v', hok, fun hlast => ?_⟩
  have hnames := Namespace.names_remove hn hfound htarget fun hcontra => by
    rw [hone] at hcontra
    cases hcontra
  rw [if_pos rfl, ← hmembers] at hnames
  rw [Volume.isNamed_iff hn]
  omega

theorem Balanced.remove_of_childless (hv : v.Sound) (h : Balanced v.members o)
    (hfound : v.members.lookup parent name = some n) (htarget : v.members n = some target)
    (hdirectory : target.isDirectory = true) (hentries : target.entries.all (·.isFree) = false)
    (hc : ∀ c, o c ≠ some n) (time : Int64) :
    (∀ m v', Volume.remove parent name time v = .ok m v' → v'.IsNamed n) ∧
      (v.members.names n = 1 →
        Volume.remove parent name time v = .error (.failure (.directoryNotEmpty name)) v) := by
  have hn := Namespace.lookup_ne_zero hfound
  have hlinks := h.links_of_directory hn htarget hdirectory
  rw [Origins.children_eq_zero_iff.2 hc] at hlinks
  have hspare : target.maySpareName = !target.hasOneName := by
    rw [Member.maySpareName, hdirectory, hentries]
    simp
  constructor
  · intro m v' hok
    have hremoved := (Volume.remove_members hv parent name time).of_ok hok
    obtain rfl := Option.some.inj (hfound.symm.trans hremoved.found)
    obtain ⟨target', htarget', hspare', hmembers⟩ := hremoved.target
    obtain rfl := Option.some.inj (htarget.symm.trans htarget')
    have hone : target.hasOneName = false := by
      rw [hspare] at hspare'
      simpa using hspare'
    have hnames := Namespace.names_remove hn hfound htarget fun hcontra => by
      rw [hone] at hcontra
      cases hcontra
    rw [if_pos rfl, ← hmembers] at hnames
    rw [Member.hasOneName, hdirectory, if_pos rfl, decide_eq_false_iff_not] at hone
    rw [Volume.isNamed_iff hn]
    omega
  · intro hlast
    have hone : target.hasOneName = true := by
      rw [Member.hasOneName, hdirectory, if_pos rfl, decide_eq_true_eq]
      omega
    refine hv.remove_refused hfound htarget ?_ time
    rw [hspare, hone]
    rfl

end Names

section Histories

variable {D : Type} [BlockDevice D]

/-- A directory with entries keeps its last name, unless directories in use were created in it: then
its last name is removed like any other. -/
theorem last_name_of_directory (g : Geometry) (id : VolumeId) (now : Int64) (d d' : D)
    (v₀ : Volume) (s : History) (hformat : Volume.format g id now d = .ok v₀ d')
    (hrun : History.Run ⟨v₀, .root⟩ s) (parent n : UInt32) (name : String) (node : Inode)
    (hfound : s.volume.lookup parent name = .ok (some n)) (hlive : s.volume.live? n = some node)
    (hdirectory : node.isDirectory = true)
    (hentries : Directory.isEmpty s.volume.data node = .ok false) (time : Int64) :
    ((∀ c, s.origin c ≠ some n) →
      (∀ m v', Volume.remove parent name time s.volume = .ok m v' → v'.IsNamed n) ∧
      (s.volume.members.names n = 1 → Volume.remove parent name time s.volume =
        .error (.failure (.directoryNotEmpty name)) s.volume)) ∧
    (∀ c, s.origin c = some n → ∃ v', Volume.remove parent name time s.volume = .ok n v' ∧
      (s.volume.members.names n = 1 → ¬v'.IsNamed n)) := by
  obtain ⟨hsound, hbalanced⟩ := History.balanced_of_format hformat hrun
  obtain ⟨-, hlookup⟩ := (hsound.lookup_members parent name).of_ok hfound
  have htarget := Volume.members_live hlive
  have hd := (Volume.isDirectory_member node s.volume.data).trans hdirectory
  rw [Directory.isEmpty_eq_all (hsound.whole.inside hlive)] at hentries
  have hsome : (node.member s.volume.data).entries.all (·.isFree) = false := by
    rw [Volume.entries_member s.volume.data hdirectory]
    exact Except.ok.inj hentries
  exact ⟨fun hc => hbalanced.remove_of_childless hsound hlookup.symm htarget hd hsome hc time,
    fun c hc => hbalanced.remove_of_child hsound hlookup.symm htarget hd hc time⟩

def nested (mode : Mode) : List Request :=
  [.create 1 "a" .defaultDirectory default 0, .create 2 "b" mode default 0]

structure Nested (mode : Mode) (v₀ : Volume) (s : History) : Prop where
  run : History.Run ⟨v₀, .root⟩ s
  sequence : Request.Sequence (nested mode) v₀ s.volume
  children : ∀ c, s.origin c = some 2 → mode.isDirectory = true
  child : mode.isDirectory = true → s.origin 3 = some 2
  lookup : s.volume.lookup 1 "a" = .ok (some 2)
  names : s.volume.members.names 2 = 1
  directory : ∃ node, s.volume.live? 2 = some node ∧ node.isDirectory = true ∧
    Directory.isEmpty s.volume.data node = .ok false

def nestedDraft (mode : Mode) : Bool :=
  ((Draft.fresh ⟨4, 4⟩).next? (.create 1 "a" .defaultDirectory default 0)).any fun p =>
    (p.ns 3).isNone && (p.next? (.create 2 "b" mode default 0)).any fun q =>
      q.ns.lookup 1 "a" == some 2 && (q.ns 3).isSome && (q.ns 2).any fun m =>
        m.isDirectory && m.links == (if mode.isDirectory then 3 else 2) && !m.entries.all (·.isFree)

def Origins.nested (mode : Mode) (ns₀ ns₁ ns₂ : Namespace) : Origins :=
  (Origins.root.after ns₀ (.create 1 "a" .defaultDirectory default 0) ns₁).after ns₁
    (.create 2 "b" mode default 0) ns₂

theorem Origins.mode_of_nested {mode : Mode} {ns₀ ns₁ ns₂ : Namespace} {c : UInt32}
    (hc : Origins.nested mode ns₀ ns₁ ns₂ c = some 2) : mode.isDirectory = true := by
  by_contra hfile
  have hne : some (1 : UInt32) ≠ some 2 := by decide
  simp only [Origins.nested, Origins.after, Request.origin?, if_neg hfile, Origins.root,
    Function.update_apply] at hc
  split_ifs at hc <;> exact hne hc

theorem Origins.nested_new {mode : Mode} {ns₀ ns₁ ns₂ : Namespace} {c : UInt32}
    (hmode : mode.isDirectory = true) (hfresh : ns₁ c = none) (hlive : ns₂ c ≠ none) :
    Origins.nested mode ns₀ ns₁ ns₂ c = some 2 := by
  rw [Origins.nested, Origins.after, if_neg (by simpa using hlive), hfresh, Request.origin?,
    if_pos hmode]
  rfl

theorem exists_nested {id : VolumeId} {now : Int64} {d d' : D} {v₀ : Volume}
    (hformat : Volume.format ⟨4, 4⟩ id now d = .ok v₀ d') {mode : Mode}
    (hdraft : nestedDraft mode = true) : ∃ s, Nested mode v₀ s := by
  obtain ⟨p, hp, hp3⟩ := (Option.any_eq_true _ _).1 hdraft
  rw [Bool.and_eq_true, Option.isNone_iff_eq_none] at hp3
  obtain ⟨q, hq, hfacts⟩ := (Option.any_eq_true _ _).1 hp3.2
  obtain ⟨v₁, hr₁, hfits₁⟩ :=
    (Draft.fits_of_formatted (Volume.formatted_of_format hformat)).next hp
  obtain ⟨v₂, hr₂, hfits₂⟩ := hfits₁.next hq
  simp only [Bool.and_eq_true, beq_iff_eq, Option.any_eq_true, Bool.not_eq_true',
    Option.isSome_iff_ne_none, ← hfits₂.members] at hfacts
  obtain ⟨⟨hlookup, h3⟩, m, hm, ⟨hd, hlinks⟩, hentries⟩ := hfacts
  have hrun : History.Run ⟨v₀, .root⟩
      ⟨v₂, Origins.nested mode v₀.members v₁.members v₂.members⟩ :=
    .tail (.single (.create hr₁ .root)) (.create hr₂ _)
  have hchild : mode.isDirectory = true →
      Origins.nested mode v₀.members v₁.members v₂.members 3 = some 2 :=
    fun hmode => Origins.nested_new hmode (hfits₁.members ▸ hp3.1) h3
  have hnames : v₂.members.names 2 = 1 := by
    have htotal := (History.balanced_of_format hformat hrun).2.links_of_directory (by decide) hm hd
    have hpos := Namespace.names_pos hlookup
    simp only [hlinks] at htotal
    by_cases hmode : mode.isDirectory = true
    · have hsome : (Origins.nested mode v₀.members v₁.members v₂.members).children 2 ≠ 0 :=
        fun hzero => Origins.children_eq_zero_iff.1 hzero 3 (hchild hmode)
      rw [if_pos hmode] at htotal
      omega
    · have hzero : (Origins.nested mode v₀.members v₁.members v₂.members).children 2 = 0 :=
        Origins.children_eq_zero_iff.2 fun _ hc => hmode (Origins.mode_of_nested hc)
      rw [if_neg hmode, hzero] at htotal
      omega
  obtain ⟨node, hlive, rfl⟩ := Volume.members_eq_some hm
  rw [Volume.isDirectory_member] at hd
  rw [Volume.entries_member v₂.data hd] at hentries
  obtain ⟨root, hroot, hdirectory, -⟩ := Namespace.directory_of_lookup hlookup
  refine ⟨_, hrun, ⟨v₁, hr₁, v₂, hr₂, rfl⟩, fun c => Origins.mode_of_nested, hchild, ?_, hnames,
    node, hlive, hd, ?_⟩
  · rw [← hlookup]
    exact hfits₂.sound.lookup_ok (Namespace.isDirectory_iff.2 ⟨root, hroot, hdirectory⟩) "a"
  · rw [Directory.isEmpty_eq_all (hfits₂.sound.whole.inside hlive), hentries]

theorem last_name_of_nested : ∃ (v₀ : Volume) (d' : MemoryDisk) (s : History),
    Volume.format ⟨4, 4⟩ ⟨.replicate 16 0⟩ 0 (MemoryDisk.blank 8) = .ok v₀ d' ∧
      History.Run ⟨v₀, .root⟩ s ∧ s.volume.lookup 1 "a" = .ok (some 2) ∧
      Volume.remove 1 "a" 0 s.volume = .error (.failure (.directoryNotEmpty "a")) s.volume := by
  obtain ⟨v₀, d', hformat⟩ := Volume.format_memoryDisk
  obtain ⟨s, h⟩ := exists_nested hformat (show nestedDraft .defaultFile = true by decide +kernel)
  obtain ⟨node, hlive, hdirectory, hempty⟩ := h.directory
  have hc : ∀ c, s.origin c ≠ some 2 := fun c hc => absurd (h.children c hc) (by decide)
  exact ⟨v₀, d', s, hformat, h.run, h.lookup, ((last_name_of_directory ⟨4, 4⟩ ⟨.replicate 16 0⟩ 0
    (MemoryDisk.blank 8) d' v₀ s hformat h.run 1 2 "a" node h.lookup hlive hdirectory hempty 0).1
    hc).2 h.names⟩

/-- Removing the name of a directory in which another one was created. -/
theorem nameless_directory : ∃ (v₀ v v' : Volume) (d' : MemoryDisk) (node : Inode),
    Volume.format ⟨4, 4⟩ ⟨.replicate 16 0⟩ 0 (MemoryDisk.blank 8) = .ok v₀ d' ∧
      Request.Sequence (nested .defaultDirectory) v₀ v ∧ v.live? 2 = some node ∧
      node.isDirectory = true ∧ Directory.isEmpty v.data node = .ok false ∧
      Volume.remove 1 "a" 0 v = .ok 2 v' ∧ ¬v'.IsNamed 2 := by
  obtain ⟨v₀, d', hformat⟩ := Volume.format_memoryDisk
  obtain ⟨s, h⟩ := exists_nested hformat (show nestedDraft .defaultDirectory = true by decide +kernel)
  obtain ⟨node, hlive, hdirectory, hempty⟩ := h.directory
  obtain ⟨hsound, hbalanced⟩ := History.balanced_of_format hformat h.run
  obtain ⟨-, hlookup⟩ := (hsound.lookup_members 1 "a").of_ok h.lookup
  obtain ⟨v', hok, hunnamed⟩ := hbalanced.remove_of_child hsound hlookup.symm
    (Volume.members_live hlive) ((Volume.isDirectory_member node s.volume.data).trans hdirectory)
    (h.child (by decide)) 0
  exact ⟨v₀, s.volume, v', d', node, hformat, h.sequence, hlive, hdirectory, hempty, hok,
    hunnamed h.names⟩

/-- In a balanced volume every entry is for an inode in use. -/
theorem entries_lead_to_inodes (g : Geometry) (id : VolumeId) (now : Int64) (d d' : D)
    (v₀ : Volume) (s : History) (hformat : Volume.format g id now d = .ok v₀ d')
    (hrun : History.Run ⟨v₀, .root⟩ s) (dir : UInt32) (node : Inode) (e : Entry)
    (hlive : s.volume.live? dir = some node) (hdirectory : node.isDirectory = true)
    (he : e ∈ Directory.slots s.volume.data node) (hused : e.isFree = false) :
    ∃ target, s.volume.live? e.inode = some target ∧ target.number = e.inode := by
  obtain ⟨hsound, hbalanced⟩ := History.balanced_of_format hformat hrun
  have hn : e.inode ≠ 0 := beq_eq_false_iff_ne.1 hused
  have hpos := (Volume.isNamed_iff hn).1 ⟨dir, node, e, hlive, hdirectory, he, hused, rfl⟩
  cases htarget : s.volume.live? e.inode with
  | some target => exact ⟨target, rfl, hsound.number e.inode target htarget⟩
  | none =>
    have hcounts := hbalanced.counts e.inode hn
    rw [Namespace.kind_eq_none_iff.2 (Volume.members_eq_none.2 htarget)] at hcounts
    rw [hcounts.1] at hpos
    exact absurd hpos (Nat.lt_irrefl 0)

theorem nested_entry_leads_to_inode : ∃ (v₀ : Volume) (d' : MemoryDisk) (s : History) (root : Inode)
    (e : Entry), Volume.format ⟨4, 4⟩ ⟨.replicate 16 0⟩ 0 (MemoryDisk.blank 8) = .ok v₀ d' ∧
      History.Run ⟨v₀, .root⟩ s ∧ s.volume.live? 1 = some root ∧ root.isDirectory = true ∧
      e ∈ Directory.slots s.volume.data root ∧ e.isFree = false ∧
      ∃ target, s.volume.live? e.inode = some target ∧ target.number = e.inode := by
  obtain ⟨v₀, d', hformat⟩ := Volume.format_memoryDisk
  obtain ⟨s, h⟩ := exists_nested hformat (show nestedDraft .defaultDirectory = true by decide +kernel)
  have hsound := (History.balanced_of_format hformat h.run).1
  obtain ⟨-, hlookup⟩ := (hsound.lookup_members 1 "a").of_ok h.lookup
  obtain ⟨root, e, hroot, hdirectory, he, hused, -⟩ := Volume.slot_of_lookup hlookup.symm
  exact ⟨v₀, d', s, root, e, hformat, h.run, hroot, hdirectory, he, hused,
    entries_lead_to_inodes ⟨4, 4⟩ ⟨.replicate 16 0⟩ 0 (MemoryDisk.blank 8) d' v₀ s hformat h.run 1
      root e hroot hdirectory he hused⟩

/-- Removing a directory's last name under another directory than the one it was created in takes a
link from that one, whose own name then counts as its last. -/
def foreignRemove : List Request :=
  [.create 1 "a" .defaultDirectory default 0, .create 1 "b" .defaultDirectory default 0,
    .insert 3 "c" 2 0, .remove 1 "a" 0, .remove 3 "c" 0, .insert 1 "d" 3 0, .remove 1 "b" 0]

theorem entry_for_released_inode : ∃ (v₀ v : Volume) (d' : MemoryDisk) (root : Inode) (e : Entry),
    Volume.format ⟨4, 4⟩ ⟨.replicate 16 0⟩ 0 (MemoryDisk.blank 8) = .ok v₀ d' ∧
      Request.Sequence foreignRemove v₀ v ∧ v.live? 1 = some root ∧ root.isDirectory = true ∧
      e ∈ Directory.slots v.data root ∧ e.isFree = false ∧ v.live? e.inode = none := by
  obtain ⟨v₀, d', hformat⟩ := Volume.format_memoryDisk
  have hdraft : ((Draft.fresh ⟨4, 4⟩).run? foreignRemove).any (fun p =>
      p.ns.lookup 1 "d" == some 3 && (p.ns 3).isNone) = true := by decide +kernel
  obtain ⟨v, p, hsequence, hfits, hp⟩ :=
    Draft.run_formatted (Volume.formatted_of_format hformat) hdraft
  rw [Bool.and_eq_true, beq_iff_eq, Option.isNone_iff_eq_none, ← hfits.members] at hp
  obtain ⟨hlookup, hnone⟩ := hp
  obtain ⟨root, e, hroot, hdirectory, he, hused, hinode⟩ := Volume.slot_of_lookup hlookup
  refine ⟨v₀, v, d', root, e, hformat, hsequence, hroot, hdirectory, he, hused, ?_⟩
  rw [hinode, ← Volume.members_eq_none, hnone]

theorem Balanced.isRooted {v : Volume} {o : Origins} (h : Balanced v.members o) : v.Rooted := by
  have hdirectory : v.members.isDirectory 1 = true := by
    by_contra hfile
    rw [Bool.not_eq_true] at hfile
    have hroot := h.root
    rw [h.origin 1 hfile] at hroot
    cases hroot
  exact Volume.live_of_isDirectory hdirectory

end Histories

/-- In a balanced volume the root is a directory in use, and after a sync the device can be
mounted. -/
theorem root_is_permanent {D : Type} [BlockDevice D] [FaithfulDevice D] (g : Geometry)
    (id : VolumeId) (now : Int64) (d d' : D) (v₀ : Volume) (s : History)
    (hvalid : FaithfulDevice.Valid d) (hformat : Volume.format g id now d = .ok v₀ d')
    (hrun : History.Run ⟨v₀, .root⟩ s) :
    s.volume.Rooted ∧ ∀ m, Mounted.sync ⟨s.volume, d'⟩ = .ok () m → Readable m.disk →
      ∃ v, Volume.mount m.disk = .ok v ∧ v.Rooted := by
  obtain ⟨-, hbalanced⟩ := History.balanced_of_format hformat hrun
  have hrooted := hbalanced.isRooted
  refine ⟨hrooted, fun m hsync hread => ?_⟩
  have hsafe := (Usage.safe_of_format hvalid hformat).run (hrun.usage d' (some v₀))
  obtain ⟨hsynced, hsettled, -⟩ := hsafe.sync_ensures.of_ok hsync
  obtain ⟨hfits, hstored⟩ := hsynced.synced m.volume rfl
  obtain ⟨root, hlive, hdirectory⟩ := hrooted
  have hroot : m.volume.live? SuperBlock.rootNumber = some root :=
    (hsettled.toSameFiles.live _).trans hlive
  have hnumber : m.volume.superBlock.root = SuperBlock.rootNumber := by
    rw [hfits.layout.superBlock]
    rfl
  refine ⟨m.volume.reloaded (FaithfulDevice.held m.disk), ?_, root, ?_, hdirectory⟩
  · rw [hsynced.mount_eq rfl (hsynced.shows rfl hread), hnumber,
      (Volume.live?_eq_some.1 hroot).2]
    exact if_pos hdirectory
  · exact ((hstored.sameFiles hfits.sound.whole).live _).trans hroot

theorem root_kept_by_create : ∃ (v₀ v : Volume) (d' : MemoryDisk) (s : History)
    (m : Mounted MemoryDisk),
    Volume.format ⟨4, 4⟩ ⟨.replicate 16 0⟩ 0 (MemoryDisk.blank 8) = .ok v₀ d' ∧
      History.Run ⟨v₀, .root⟩ s ∧ s.volume.members.lookup 1 "a" = some 2 ∧ s.volume.Rooted ∧
      Mounted.sync ⟨s.volume, d'⟩ = .ok () m ∧ Volume.mount m.disk = .ok v ∧ v.Rooted := by
  obtain ⟨v₀, d', hformat⟩ := Volume.format_memoryDisk
  have hdraft : ((Draft.fresh ⟨4, 4⟩).next? (.create 1 "a" .defaultDirectory default 0)).any
      (fun p => p.ns.lookup 1 "a" == some 2) = true := by decide +kernel
  obtain ⟨p, hp, hfound⟩ := (Option.any_eq_true _ _).1 hdraft
  obtain ⟨v₁, hr, hfits⟩ :=
    (Draft.fits_of_formatted (Volume.formatted_of_format hformat)).next hp
  have hrun : History.Run ⟨v₀, .root⟩ ⟨v₁, _⟩ := .single (.create hr .root)
  obtain ⟨m, hsync⟩ :=
    ((Usage.safe_of_format trivial hformat).run (hrun.usage d' (some v₀))).sync_ok
  obtain ⟨hrooted, hmounts⟩ := root_is_permanent ⟨4, 4⟩ ⟨.replicate 16 0⟩ 0 (MemoryDisk.blank 8) d'
    v₀ _ trivial hformat hrun
  obtain ⟨v, hmount, hroot⟩ := hmounts m hsync fun n hn => ReliableDevice.read_ok trivial hn
  rw [beq_iff_eq, ← hfits.members] at hfound
  exact ⟨v₀, v, d', _, m, hformat, hrun, hfound, hrooted, hsync, hmount, hroot⟩

def rootRemove : List Request :=
  [.create 1 "a" .defaultDirectory default 0,
    .create 2 "b" .defaultDirectory default 0, .insert 1 "b" 3 0, .remove 2 "b" 0, .remove 1 "b" 0,
    .create 2 "b" .defaultDirectory default 0, .insert 1 "b" 3 0, .remove 2 "b" 0, .remove 1 "b" 0,
    .remove 1 "a" 0, .insert 2 "r" 1 0, .remove 2 "r" 0]

theorem root_given_back : ∃ (v₀ v : Volume) (d' : MemoryDisk),
    Volume.format ⟨4, 4⟩ ⟨.replicate 16 0⟩ 0 (MemoryDisk.blank 8) = .ok v₀ d' ∧
      Request.Sequence rootRemove v₀ v ∧ v.live? 1 = none := by
  obtain ⟨v₀, d', hformat⟩ := Volume.format_memoryDisk
  have hdraft : ((Draft.fresh ⟨4, 4⟩).run? rootRemove).any (fun p => (p.ns 1).isNone) = true := by
    decide +kernel
  obtain ⟨v, p, hsequence, hfits, hp⟩ :=
    Draft.run_formatted (Volume.formatted_of_format hformat) hdraft
  rw [Option.isNone_iff_eq_none, ← hfits.members, Volume.members_eq_none] at hp
  exact ⟨v₀, v, d', hformat, hsequence, hp⟩

end ExtentVolume
