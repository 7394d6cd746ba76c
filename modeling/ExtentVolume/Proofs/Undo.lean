import Mathlib.Data.List.Perm.Subperm
import ExtentVolume.Proofs.Isolation
import ExtentVolume.Proofs.Rollback
import ExtentVolume.Proofs.SlotList

namespace ExtentVolume

namespace Directory

variable {l : List Entry} {entry : Entry} {name : String}

theorem used_cleared_placed (hentry : entry.isFor name = true)
    (hl : l.find? (·.isFor name) = none) (position : Nat) :
    ((cleared name (placed entry l)).drop position).filter (!·.isFree) =
      (l.drop position).filter (!·.isFree) := by
  induction l generalizing position with
  | nil =>
    have hblank : cleared name (placed entry []) =
        List.replicate Entry.slotsPerBlock blankEntry := by
      rw [placed, if_neg (by simp), List.nil_append, cleared_cons, if_pos hentry]
      rfl
    rw [hblank, List.drop_replicate, List.drop_nil, List.filter_replicate_of_neg (by decide)]
    rfl
  | cons e l ih =>
    rw [List.find?_eq_none, List.forall_mem_cons, ← List.find?_eq_none] at hl
    rw [placed_cons]
    cases hfree : e.isFree with
    | true =>
      rw [if_pos rfl, cleared_cons, if_pos hentry]
      cases position with
      | zero => simp [hfree, show blankEntry.isFree = true from rfl]
      | succ position => rfl
    | false =>
      rw [if_neg Bool.false_ne_true, cleared_cons, if_neg hl.1]
      cases position with
      | zero =>
        have hrest := ih hl.2 0
        rw [List.drop_zero, List.drop_zero] at hrest
        simp [hfree, hrest]
      | succ position => exact ih hl.2 position

theorem length_cleared_placed (entry : Entry) (name : String) (l : List Entry) :
    (cleared name (placed entry l)).length =
      if l.any (·.isFree) then l.length else l.length + Entry.slotsPerBlock := by
  rw [cleared, List.length_set, placed]
  split
  · exact List.length_set
  · rw [List.length_append, List.length_cons, List.length_replicate]
    rfl

end Directory

open Directory (placed cleared)

structure Member.New (mode : Mode) (t : Member) : Prop where
  links : t.links = if mode.isDirectory then 2 else 1
  kind : t.isDirectory = mode.isDirectory
  free : t.entries.all (·.isFree) = true

namespace Member.New

variable {mode : Mode} {t : Member}

theorem hasOneName (h : New mode t) : t.hasOneName = true := by
  rw [Member.hasOneName, h.links, h.kind]
  cases mode.isDirectory <;> rfl

theorem maySpareName (h : New mode t) : t.maySpareName = true := by
  rw [Member.maySpareName, h.free, Bool.or_true]

theorem ofMode (mode : Mode) :
    New mode { Member.ofMode mode with links := if mode.isDirectory then 2 else 1 } := by
  refine ⟨rfl, isDirectory_ofMode mode, ?_⟩
  rw [entries, Member.ofMode]
  cases mode.isDirectory with
  | true => decide
  | false => rfl

theorem grow (h : New mode t) (count : Nat) :
    New mode (t.onSlots (· ++ List.replicate count Directory.blankEntry)) := by
  have hblank : Directory.blankEntry.isFree = true := rfl
  refine ⟨h.links, ?_, ?_⟩
  · rw [← h.kind]
    exact Option.isSome_map
  · have hfree := h.free
    rw [entries] at hfree ⊢
    cases hslots : t.slots with
    | none => simp [Member.onSlots, hslots]
    | some l =>
      rw [hslots, Option.getD_some] at hfree
      simp [Member.onSlots, hslots, hfree, hblank]

end Member.New

namespace Namespace

variable {ns : Namespace} {parent n : UInt32} {name : String} {mode : Mode} {m t : Member}

theorem remove_created (hm : ns parent = some m) (hfresh : ns n = none) (ht : t.New mode) :
    ((ns.create parent name mode n).set n (some t)).remove parent name n t =
      ns.edit parent (.onSlots fun l => cleared name (placed ⟨Entry.fieldOf name, n⟩ l)) := by
  have hne : n ≠ parent := by
    rintro rfl
    rw [hfresh] at hm
    cases hm
  funext k
  rw [remove, leave, ht.hasOneName, ht.kind, if_pos rfl]
  by_cases hkn : k = n
  · rw [hkn, set_self, edit_ne hne, hfresh]
  rw [set_ne hkn]
  by_cases hkp : k = parent
  · rw [hkp, edit_self, hm, Option.map_some]
    cases hd : mode.isDirectory with
    | true =>
      rw [if_pos rfl, edit_self, edit_self, set_ne hne.symm, create_parent hne hm, hd]
      simp [Member.onLinks, Member.onSlots, Function.comp_def]
    | false =>
      rw [if_neg Bool.false_ne_true, edit_self, set_ne hne.symm, create_parent hne hm, hd]
      simp [Member.onLinks, Member.onSlots, Function.comp_def]
  · rw [edit_ne hkp]
    split
    · rw [edit_ne hkp, edit_ne hkp, set_ne hkn, create_ne hkn hkp]
    · rw [edit_ne hkp, set_ne hkn, create_ne hkn hkp]

theorem lookup_created (hm : ns parent = some m) (hdirectory : m.isDirectory = true)
    (hne : n ≠ parent) (hname : Entry.checkName name = .ok ()) (hn : n ≠ 0)
    (hnew : ns.lookup parent name = none) :
    (ns.create parent name mode n).lookup parent name = some n := by
  obtain ⟨l, hslots⟩ := Option.isSome_iff_exists.1 hdirectory
  rw [lookup, hm, Option.bind_some, Member.lookup, Option.map_eq_none_iff, Member.entries, hslots,
    Option.getD_some] at hnew
  rw [lookup, create_parent hne hm, Option.bind_some, Member.lookup, Member.entries, Member.onLinks,
    Member.onSlots, hslots, Option.map_some, Option.getD_some,
    find?_placed (Entry.isFor_fieldOf hname hn) hnew, Option.map_some]

end Namespace

namespace Request

inductive Fills (n : UInt32) : Request → Prop where
  | write (offset : Nat) (bytes : List UInt8) (now : Int64) : Fills n (.write n offset bytes now)
  | allocateExtent (count : UInt32) : Fills n (.allocateExtent n count)

/-- Calls that fill an inode, successful or not, led from `v` to `v'`. -/
abbrev Filling (n : UInt32) : Volume → Volume → Prop :=
  Relation.ReflTransGen fun v v' => ∃ r : Request, r.Fills n ∧ r.Returns v v'

variable {v v' : Volume} {n : UInt32} {mode : Mode} {r : Request}

theorem Fills.steps (hr : r.Fills n) (h : v.Whole) (hreturns : r.Returns v v') :
    Volume.Steps (· = n) v v' := by
  have hsteps := Request.steps h hreturns
  cases hr with
  | write => exact hsteps
  | allocateExtent => exact hsteps

theorem Fills.new (hr : r.Fills n) (h : v.Sound) (hreturns : r.Returns v v')
    (ht : ∃ t, v.members n = some t ∧ t.New mode) : ∃ t, v'.members n = some t ∧ t.New mode := by
  have heffect := Request.effect h hreturns
  obtain ⟨t, hlive, hnew⟩ := ht
  cases hr with
  | write =>
    generalize v'.members = ns at heffect ⊢
    cases heffect with
    | keep => exact ⟨t, hlive, hnew⟩
  | allocateExtent =>
    generalize v'.members = ns at heffect ⊢
    cases heffect with
    | keep => exact ⟨t, hlive, hnew⟩
    | grow =>
      rw [Namespace.edit_self, hlive]
      exact ⟨_, rfl, hnew.grow _⟩

theorem Filling.steps (hcalls : Filling n v v') (h : v.Whole) : Volume.Steps (· = n) v v' := by
  induction hcalls with
  | refl => exact .refl
  | tail _ hr ih =>
    obtain ⟨r, hr, hreturns⟩ := hr
    exact ih.trans (hr.steps (ih.whole h) hreturns)

theorem Filling.new (hcalls : Filling n v v') (h : v.Sound)
    (ht : ∃ t, v.members n = some t ∧ t.New mode) : ∃ t, v'.members n = some t ∧ t.New mode := by
  induction hcalls with
  | refl => exact ht
  | tail hcalls hr ih =>
    obtain ⟨r, hr, hreturns⟩ := hr
    exact hr.new ((Filling.steps hcalls h.whole).sound h) hreturns ih

end Request

namespace Volume

variable {v v' : Volume} {p n m : UInt32} {f : List Entry → List Entry}

/-- Of all names and inodes in use, only slots of the directory are different, and its blocks are
still its own. -/
structure Reslotted (p : UInt32) (f : List Entry → List Entry) (v v' : Volume) : Prop where
  steps : Steps (fun m => m = p ∨ v.live? m = none) v v'
  members : v'.members = v.members.edit p (.onSlots f)
  blocks : v.blocksOf p ⊆ v'.blocksOf p

theorem Step.number_ne_zero (hstep : Step n v v') (h : v.Whole) : n ≠ 0 := by
  have hdead : v.live? 0 = none := members_eq_none.1 v.members_zero
  rintro rfl
  cases hstep with
  | edit hlive => simp [hdead] at hlive
  | relink hlive => simp [hdead] at hlive
  | take htake => exact h.number_of_take htake rfl
  | release hlive => simp [hdead] at hlive

theorem Steps.used_zero {S : UInt32 → Prop} (hsteps : Steps S v v') (h : v.Whole) :
    v'.space.inodes.used 0 = v.space.inodes.used 0 := by
  induction hsteps with
  | refl => rfl
  | tail hsteps hstep ih =>
    obtain ⟨n, -, hstep⟩ := hstep
    have hwhole := Steps.whole hsteps h
    have hothers := (hstep.touches_whole hwhole).1.others
    exact (hothers.used 0 (hstep.number_ne_zero hwhole).symm).trans ih

theorem Tidy.get?_dead (ht : v.Tidy) (hv : v.Sized) (hdead : v.live? m = none) :
    v.table.get? m = if m = 0 ∨ v.space.inodes.total ≤ m then none else some .blank := by
  split
  · rename_i hout
    rw [← hv.table] at hout
    exact if_pos hout
  · rename_i hin
    rw [not_or, UInt32.not_le, UInt32.lt_iff_toNat_lt] at hin
    obtain ⟨node, hget⟩ := exists_get? hv hin.1 hin.2
    have hunused : v.space.inodes.used m.toNat = false := by
      rw [live?, hget] at hdead
      simpa using hdead
    rw [hget, ht m node hget hunused]

namespace Reslotted

theorem isSome (h : Reslotted p f v v') (m : UInt32) :
    (v'.members m).isSome = (v.members m).isSome := by
  rw [h.members]
  by_cases hm : m = p
  · rw [hm, Namespace.edit_self, Option.isSome_map]
  · rw [Namespace.edit_ne hm]

theorem dead (h : Reslotted p f v v') (hdead : v.live? m = none) : v'.live? m = none := by
  have hnone := h.isSome m
  rw [members_eq_none.2 hdead, Option.isSome_none, Option.isSome_eq_false_iff,
    Option.isNone_iff_eq_none] at hnone
  exact members_eq_none.1 hnone

theorem inodes (h : Reslotted p f v v') (hv : v.Whole) (hv' : v'.Whole) :
    v'.space.inodes = v.space.inodes := by
  obtain ⟨hreserved, htotal, hstart⟩ := (h.steps.shape hv).inodes
  refine Bitmap.Becomes.eq_self ⟨hv'.exactInodes, hreserved, htotal, hstart, fun _ => Iff.rfl⟩
    hv.exactInodes fun k => Bool.eq_iff_iff.1 ?_
  obtain rfl | hpos := Nat.eq_zero_or_pos k
  · exact h.steps.used_zero hv
  by_cases hlt : k < v.space.inodes.total.toNat
  · rw [hv.sized.used_members hpos hlt, hv'.sized.used_members hpos (htotal ▸ hlt), h.isSome]
  · rw [hv.inodePadding k (Nat.not_lt.1 hlt), hv'.inodePadding k (htotal ▸ Nat.not_lt.1 hlt)]

theorem records (h : Reslotted p f v v') (hv : v.Regular) (hv' : v'.Regular) (hm : m ≠ p) :
    v'.table.get? m = v.table.get? m := by
  cases hlive : v.live? m with
  | some node =>
    exact (h.steps.untouched hv.sound.whole (not_or.2 ⟨hm, hlive.trans_ne (Option.some_ne_none _)⟩)).1
  | none =>
    rw [hv.tidy.get?_dead hv.sound.whole.sized hlive,
      hv'.tidy.get?_dead hv'.sound.whole.sized (h.dead hlive),
      (h.steps.shape hv.sound.whole).inodes.2.1]

theorem blocksOf (h : Reslotted p f v v') (hv : v.Whole) (hm : m ≠ p) :
    v'.blocksOf m = v.blocksOf m := by
  cases hlive : v.live? m with
  | some node =>
    exact h.steps.blocksOf hv (not_or.2 ⟨hm, hlive.trans_ne (Option.some_ne_none _)⟩)
  | none => rw [Volume.blocksOf, Volume.blocksOf, hlive, h.dead hlive]

theorem used_iff (h : Reslotted p f v v') (hv : v.Whole) (hv' : v'.Whole) {gained : List Nat}
    (hgained : (v'.blocksOf p).Perm (gained ++ v.blocksOf p)) (b : Nat) :
    v'.space.blocks.used b = true ↔ v.space.blocks.used b = true ∨ b ∈ gained := by
  have hforeign : v'.foreign p b ↔ v.foreign p b :=
    exists_congr fun m => and_congr_right fun hm => by rw [h.blocksOf hv hm]
  rw [hv'.used_iff, hv.used_iff, owned_iff p, owned_iff p, hforeign, hgained.mem_iff,
    List.mem_append]
  tauto

theorem exists_gained (h : Reslotted p f v v') (hv : v.Whole) (hv' : v'.Whole) :
    ∃ gained, (v'.blocksOf p).Perm (gained ++ v.blocksOf p) ∧
      ∀ b ∈ gained, v.space.blocks.used b = false := by
  refine ⟨(v'.blocksOf p).filter fun b => !decide (b ∈ v.blocksOf p), ?_, fun b hb => ?_⟩
  · have hold : ((v'.blocksOf p).filter fun b => decide (b ∈ v.blocksOf p)).Perm (v.blocksOf p) := by
      rw [List.perm_ext_iff_of_nodup ((hv'.consistent.nodup p).filter _) (hv.consistent.nodup p)]
      intro b
      rw [List.mem_filter, decide_eq_true_iff]
      exact ⟨And.right, fun hb => ⟨h.blocks hb, hb⟩⟩
    exact (List.filter_append_perm _ _).symm.trans
      (List.perm_append_comm.trans (hold.append_left _))
  · obtain ⟨hb, hnew⟩ := List.mem_filter.1 hb
    rw [← Bool.not_eq_true, hv.used_iff]
    rintro ⟨m, hm⟩
    by_cases hmp : m = p
    · simp [← hmp, hm] at hnew
    · rw [← h.blocksOf hv hmp] at hm
      exact hmp (hv'.consistent.unshared m p b hm hb)

end Reslotted

theorem Whole.length_entries (h : v.Whole) (hdirectory : v.members.isDirectory n = true) :
    (v.members.entries n).length = (v.blocksOf n).length * Entry.slotsPerBlock := by
  obtain ⟨node, hlive, hnode⟩ := live_of_isDirectory hdirectory
  rw [Namespace.entries, members_live hlive, Option.elim_some, entries_member v.data hnode,
    (h.inside hlive).length_slots, Directory.slotCount, Directory.blockCount_eq, blocksOf_live hlive]

theorem Reslotted.entries (h : Reslotted p f v v') (hdirectory : v.members.isDirectory p = true) :
    v'.members.isDirectory p = true ∧ v'.members.entries p = f (v.members.entries p) := by
  obtain ⟨m, hm, hkind⟩ := Namespace.isDirectory_iff.1 hdirectory
  obtain ⟨l, hslots⟩ := Option.isSome_iff_exists.1 hkind
  rw [Namespace.isDirectory, Namespace.entries, Namespace.entries, h.members, Namespace.edit_self, hm]
  simp [Member.isDirectory, Member.entries, Member.onSlots, hslots]

/-- Of a name that was made and taken away nothing is left. A directory that had no free slot for it
keeps the block that it gained. -/
structure Undone (p n : UInt32) (v v' : Volume) : Prop where
  other : n ≠ p
  inodes : v'.space.inodes = v.space.inodes
  records : ∀ m, m ≠ p → v'.table.get? m = v.table.get? m
  blocks : v'.space.blocks = v.space.blocks ∨
    (v.members.entries p).any (·.isFree) = false ∧ ∃ b ∈ v'.blocksOf p,
      v.space.blocks.used b = false ∧
        v.space.blocks.Becomes (fun k => v.space.blocks.used k = true ∨ k = b) v'.space.blocks
  links : ∃ dir dir', v.live? p = some dir ∧ v'.live? p = some dir' ∧ dir'.links = dir.links
  met : v'.met p = v.met p

theorem Reslotted.blocks_undone {name : String} {entry : Entry}
    (h : Reslotted p (fun l => cleared name (placed entry l)) v v') (hv : v.Whole) (hv' : v'.Whole)
    (hdirectory : v.members.isDirectory p = true) :
    v'.space.blocks = v.space.blocks ∨
      (v.members.entries p).any (·.isFree) = false ∧ ∃ b ∈ v'.blocksOf p,
        v.space.blocks.used b = false ∧
          v.space.blocks.Becomes (fun k => v.space.blocks.used k = true ∨ k = b) v'.space.blocks := by
  obtain ⟨gained, hperm, hunused⟩ := h.exists_gained hv hv'
  obtain ⟨hreserved, htotal, hstart⟩ := (h.steps.shape hv).blocks
  obtain ⟨hdirectory', hentries⟩ := h.entries hdirectory
  have hbecomes : v.space.blocks.Becomes
      (fun b => v.space.blocks.used b = true ∨ b ∈ gained) v'.space.blocks :=
    ⟨hv'.exactBlocks, hreserved, htotal, hstart, h.used_iff hv hv' hperm⟩
  have hlength := hv'.length_entries hdirectory'
  rw [hentries, Directory.length_cleared_placed, hv.length_entries hdirectory, hperm.length_eq,
    List.length_append] at hlength
  cases hfree : (v.members.entries p).any (·.isFree) with
  | true =>
    rw [hfree, if_pos rfl] at hlength
    obtain rfl : gained = [] := by
      apply List.eq_nil_of_length_eq_zero
      simp only [Entry.slotsPerBlock, blockSize, Entry.slotSize] at hlength
      omega
    exact .inl (hbecomes.eq_self hv.exactBlocks fun b => by simp)
  | false =>
    rw [hfree, if_neg Bool.false_ne_true] at hlength
    obtain ⟨b, rfl⟩ : ∃ b, gained = [b] := by
      apply List.length_eq_one_iff.1
      simp only [Entry.slotsPerBlock, blockSize, Entry.slotSize] at hlength
      omega
    refine .inr ⟨rfl, b, ?_, hunused b (List.mem_singleton_self b),
      hbecomes.congr fun k => by rw [List.mem_singleton]⟩
    rw [hperm.mem_iff]
    exact List.mem_cons_self

theorem Reslotted.undone {name : String} {entry : Entry}
    (h : Reslotted p (fun l => cleared name (placed entry l)) v v') (hv : v.Regular)
    (hdirectory : v.members.isDirectory p = true) (hne : n ≠ p)
    (hentry : entry.isFor name = true) (hnew : v.members.lookup p name = none) :
    Undone p n v v' := by
  have hv' := h.steps.regular hv
  have hwhole := hv.sound.whole
  have hwhole' := hv'.sound.whole
  obtain ⟨dir, hlive, hdir⟩ := live_of_isDirectory hdirectory
  obtain ⟨dir', hlive', hdir'⟩ := live_of_isDirectory (h.entries hdirectory).1
  have hmember := congrFun h.members p
  rw [Namespace.edit_self, members_live hlive, members_live hlive', Option.map_some,
    Option.some_inj] at hmember
  refine ⟨hne, h.inodes hwhole hwhole', fun m => h.records hv hv',
    h.blocks_undone hwhole hwhole' hdirectory, ⟨dir, dir', hlive, hlive', ?_⟩, ?_⟩
  · exact UInt16.toNat_inj.1 (congrArg Member.links hmember)
  · refine hv.sound.met_congr hv'.sound hlive hlive' (hdir'.trans hdir.symm) fun position => ?_
    have hslots := (h.entries hdirectory).2
    rw [Namespace.entries, Namespace.entries, members_live hlive, members_live hlive',
      Option.elim_some, Option.elim_some, entries_member _ hdir, entries_member _ hdir'] at hslots
    rw [lookup_live hlive hdir, Option.map_eq_none_iff] at hnew
    rw [hslots, Directory.used_cleared_placed hentry hnew]

/-- The inode was not in use in `v`, and it was created under the name and filled since. -/
structure MadeUnder (p n : UInt32) (name : String) (mode : Mode) (v v' : Volume) : Prop where
  fresh : v.members n = none
  steps : Steps (fun m => m = p ∨ v.live? m = none) v v'
  members : ∃ t, t.New mode ∧ v'.members = (v.members.create p name mode n).set n (some t)
  found : v'.members.lookup p name = some n
  blocks : v.blocksOf p ⊆ v'.blocksOf p

variable {v₁ : Volume} {name : String} {mode : Mode}

theorem madeUnder_of_create {owner : Owner} {now : Int64} (h : v.Sound)
    (hcreate : create p name mode owner now v = .ok n v₁) (hcalls : Request.Filling n v₁ v') :
    MadeUnder p n name mode v v' := by
  have hcreated := (create_members h p name mode owner now).of_ok hcreate
  obtain ⟨inodes, htake⟩ := hcreated.taken
  have hne := (Namespace.ne_of_isDirectory hcreated.directory hcreated.fresh).symm
  obtain ⟨m, hm, hdirectory⟩ := Namespace.isDirectory_iff.1 hcreated.directory
  have hsteps₁ : Steps (fun m => m = p ∨ v.live? m = none) v v₁ :=
    Request.steps h.whole (r := .create p name mode owner now) (.inl ⟨n, hcreate⟩)
  have hsound₁ := hsteps₁.sound h
  have hsteps := hcalls.steps hsound₁.whole
  have hmade : ∃ t, v₁.members n = some t ∧ t.New mode :=
    ⟨_, by rw [hcreated.members, Namespace.create_self hne], .ofMode mode⟩
  obtain ⟨t, ht, hnew⟩ := hcalls.new hsound₁ hmade
  have hmembers := hsteps.members hsound₁.whole
  rw [ht, hcreated.members] at hmembers
  refine ⟨hcreated.fresh, hsteps₁.trans (hsteps.mono ?_), ⟨t, hnew, hmembers⟩, ?_, ?_⟩
  · rintro _ rfl
    exact .inr (members_eq_none.1 hcreated.fresh)
  · rw [hmembers, Namespace.lookup, Namespace.set_ne hne.symm]
    exact Namespace.lookup_created hm hdirectory hne hcreated.valid (h.whole.number_of_take htake)
      hcreated.new
  · rw [hsteps.blocksOf hsound₁.whole hne.symm]
    exact hcreated.blocks

theorem MadeUnder.remove (hmade : MadeUnder p n name mode v v') (h : v.Sound)
    (hdirectory : v.members.isDirectory p = true) (now : Int64) :
    ∃ v'', Volume.remove p name now v' = .ok n v'' ∧
      Reslotted p (fun l => cleared name (placed ⟨Entry.fieldOf name, n⟩ l)) v v'' := by
  have hsound := hmade.steps.sound h
  have hne := (Namespace.ne_of_isDirectory hdirectory hmade.fresh).symm
  obtain ⟨m, hm, -⟩ := Namespace.isDirectory_iff.1 hdirectory
  obtain ⟨t, hnew, hmembers⟩ := hmade.members
  have ht : v'.members n = some t := by rw [hmembers, Namespace.set_self]
  obtain ⟨v'', hremove, hmembers', -⟩ := hsound.remove_ok hmade.found ht hnew.maySpareName now
  have hlookup := ((remove_ensures hsound.whole p name now).of_ok hremove).1
  have hremoved := (remove_members hsound p name now).of_ok hremove
  have hsteps := Request.steps hsound.whole (r := .remove p name now) (.inl ⟨n, hremove⟩)
  refine ⟨v'', hremove, hmade.steps.trans (hsteps.mono ?_), ?_,
    List.Subset.trans hmade.blocks (hremoved.blocks hne.symm)⟩
  · rintro k (hk | hk)
    · exact .inl hk
    · obtain rfl := Option.some.inj (Except.ok.inj (hlookup.symm.trans hk))
      exact .inr (members_eq_none.1 hmade.fresh)
  · rw [hmembers', hmembers]
    exact Namespace.remove_created hm hmade.fresh hnew

end Volume

/-- In every state that calls can reach on a formatted volume, a file or directory that was created
is removed again whatever calls tried to fill it, and nothing is left of it. -/
theorem remove_undoes_create {D : Type} [BlockDevice D] (g : Geometry) (id : VolumeId) (now : Int64)
    (d d' : D) (v₀ v v₁ v₂ : Volume) (p n : UInt32) (name : String) (mode : Mode) (owner : Owner)
    (created removed : Int64) (hformat : Volume.format g id now d = .ok v₀ d')
    (hrun : Request.Run v₀ v) (hcreate : Volume.create p name mode owner created v = .ok n v₁)
    (hcalls : Request.Filling n v₁ v₂) :
    ∃ v₃, Volume.remove p name removed v₂ = .ok n v₃ ∧ Volume.Undone p n v v₃ := by
  have hregular := Volume.regular_of_run hrun (Volume.regular_of_format hformat)
  have hcreated := (Volume.create_members hregular.sound p name mode owner created).of_ok hcreate
  obtain ⟨inodes, htake⟩ := hcreated.taken
  have hentry := Entry.isFor_fieldOf hcreated.valid (hregular.sound.whole.number_of_take htake)
  have hne := (Namespace.ne_of_isDirectory hcreated.directory hcreated.fresh).symm
  have hmade := Volume.madeUnder_of_create hregular.sound hcreate hcalls
  obtain ⟨v₃, hremove, hreslotted⟩ := hmade.remove hregular.sound hcreated.directory removed
  exact ⟨v₃, hremove, hreslotted.undone hregular hcreated.directory hne hentry hcreated.new⟩

/-- A file in the root, with or without a second block. -/
theorem remove_undoes_first_create : ∃ (v₀ v₁ v₂ v₃ : Volume) (d' : MemoryDisk) (n : UInt32),
    Volume.format ⟨4, 4⟩ ⟨.replicate 16 0⟩ 0 (MemoryDisk.blank 8) = .ok v₀ d' ∧
      Volume.create 1 "a" .defaultFile default 0 v₀ = .ok n v₁ ∧
      (Request.allocateExtent n 1).Returns v₁ v₂ ∧
      Volume.remove 1 "a" 0 v₂ = .ok n v₃ ∧ Volume.Undone 1 n v₀ v₃ := by
  obtain ⟨v₀, d', hformat⟩ := Volume.format_memoryDisk
  have hdraft : ((Draft.fresh ⟨4, 4⟩).next? (.create 1 "a" .defaultFile default 0)).isSome = true := by
    decide +kernel
  obtain ⟨p, hp⟩ := Option.isSome_iff_exists.1 hdraft
  obtain ⟨n, v₁, hcreate, hfits⟩ :=
    (Draft.fits_of_formatted (Volume.formatted_of_format hformat)).create hp
  obtain ⟨v₂, hgrown⟩ := (Volume.allocateExtent_ensures hfits.sound.whole n 1).returns
  obtain ⟨v₃, hremove, hundone⟩ := remove_undoes_create ⟨4, 4⟩ ⟨.replicate 16 0⟩ 0
    (MemoryDisk.blank 8) d' v₀ v₀ v₁ v₂ 1 n "a" .defaultFile default 0 0 hformat .refl hcreate
    (.single ⟨.allocateExtent n 1, .allocateExtent 1, hgrown⟩)
  exact ⟨v₀, v₁, v₂, v₃, d', n, hformat, hcreate, hgrown, hremove, hundone⟩

end ExtentVolume
