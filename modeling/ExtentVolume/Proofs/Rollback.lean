import ExtentVolume.Proofs.Rehearsal
import ExtentVolume.Proofs.Requests

namespace ExtentVolume

namespace Bitmap

theorem Becomes.eq_self {b b' : Bitmap} {p : Nat → Prop} (h : b.Becomes p b') (hb : b.Exact)
    (hp : ∀ n, p n ↔ b.used n = true) : b' = b := by
  have hused : ∀ n, b'.used n = b.used n := fun n => Bool.eq_iff_iff.2 ((h.used_iff n).trans (hp n))
  obtain ⟨⟨haccounted, hpadding⟩, hreserved, htotal, hstart, -⟩ := h
  have hcount := popcount_eq hb.padding
  rw [← funext hused, ← htotal, ← popcount_eq hpadding] at hcount
  have hfree : b'.free = b.free := by
    have hold := hb.accounted
    apply UInt32.toNat_inj.1
    rw [← htotal] at hold
    omega
  obtain ⟨reserved, total, free, start, bits⟩ := b
  obtain ⟨reserved', total', free', start', bits'⟩ := b'
  simp only at hreserved htotal hstart hfree
  subst hreserved htotal hstart hfree
  congr 1
  ext i hi
  have hbit := hused i
  simp only [used, Vector.getElem?_eq_getElem hi, Option.getD_some] at hbit
  exact hbit

theorem Exact.release_taken {b b₁ b₂ : Bitmap} (hb : b.Exact) {n : UInt32}
    (htake : b.take = .ok (some (n, b₁))) (hrelease : b₁.release n = .ok b₂) : b₂ = b := by
  obtain ⟨hnone, -⟩ | ⟨k, b', hsome, hres, -, hclear, htaken, -⟩ := hb.take
  · rw [hnone] at htake
    cases htake
  · rw [hsome] at htake
    obtain ⟨rfl, rfl⟩ := Prod.mk.inj (Option.some.inj (Except.ok.inj htake))
    obtain ⟨b'', hsome', hreleased⟩ :=
      htaken.exact.release (htaken.reserved ▸ hres) ((htaken.used_iff _).2 (.inr rfl))
    obtain rfl := Except.ok.inj (hsome'.symm.trans hrelease)
    refine (htaken.trans hreleased).eq_self hb fun m => ?_
    rw [htaken.used_iff]
    constructor
    · rintro ⟨hm | hm, hne⟩
      · exact hm
      · exact absurd hm hne
    · intro hm
      refine ⟨.inl hm, ?_⟩
      rintro rfl
      rw [hclear] at hm
      cases hm

end Bitmap

namespace Volume

def Tidy (v : Volume) : Prop :=
  ∀ n node, v.table.get? n = some node → v.space.inodes.used n.toNat = false → node = .blank

/-- Nothing in use is different: the bitmaps with their counters, every record, and the content of
every block that is marked as used. -/
structure Kept (v v' : Volume) : Prop where
  superBlock : v'.superBlock = v.superBlock
  space : v'.space = v.space
  table : v'.table = v.table
  content : ∀ b, v.space.blocks.used b = true → v'.data.block? b = v.data.block? b

variable {v v' : Volume} {n : UInt32} {node : Inode}

theorem Kept.refl (v : Volume) : Kept v v := ⟨rfl, rfl, rfl, fun _ _ => rfl⟩

theorem Step.tidy (hstep : Step n v v') (h : v.Whole) (ht : v.Tidy) : v'.Tidy := by
  have hothers := (hstep.touches_whole h).1.others
  have hself : ∀ node, v'.table.get? n = some node → v'.space.inodes.used n.toNat = false →
      node = .blank := by
    intro node hget hunused
    cases hstep with
    | edit hlive => exact absurd (live?_eq_some.1 hlive).1 (Bool.eq_false_iff.1 hunused)
    | relink hlive => exact absurd (live?_eq_some.1 hlive).1 (Bool.eq_false_iff.1 hunused)
    | take htake =>
      have hlive := h.live?_taken htake node
      exact absurd (live?_eq_some.1 hlive).1 (Bool.eq_false_iff.1 hunused)
    | release hlive =>
      have hset : (v.table.set n .blank).get? n = some .blank :=
        get?_set_self (live?_eq_some.1 hlive).2
      exact Option.some.inj (hget.symm.trans hset)
  intro m node hget hunused
  by_cases hm : m = n
  · subst hm
    exact hself node hget hunused
  · rw [hothers.get m hm] at hget
    rw [hothers.used m hm] at hunused
    exact ht m node hget hunused

theorem Steps.tidy {S : UInt32 → Prop} (hsteps : Steps S v v') (h : v.Whole) (ht : v.Tidy) :
    v'.Tidy := by
  induction hsteps with
  | refl => exact ht
  | tail hsteps hstep ih =>
    obtain ⟨n, -, hstep⟩ := hstep
    exact hstep.tidy (Steps.whole hsteps h) ih

theorem Whole.used_iff_foreign (h : v.Whole) (hdead : v.live? n = none) (b : Nat) :
    v.space.blocks.used b = true ↔ v.foreign n b := by
  rw [h.used_iff, owned_iff n, blocksOf, hdead]
  simp

theorem Sound.release_created (h : v.Sound) (ht : v.Tidy) {owner : Owner} {mode : Mode}
    {now : Int64} {child : Inode} {v₁ : Volume}
    (hrun : createInode owner mode now v = .ok child v₁) :
    Action.Ensures (releaseInode child.number) v₁ (fun _ => Kept v) (fun _ _ => False) False := by
  have hcreated := (createInode_ensures h.whole owner mode now).of_ok hrun
  have hwhole₁ := hcreated.steps.whole h.whole
  have hlive₁ := hcreated.live
  obtain ⟨inodes₂, blocks₂, hinodes₂, hblocks₂, -, hforeign⟩ := hwhole₁.release hlive₁
  simp only [releaseInode, Action.ensures_bind, Action.ensures_get, (live?_eq_some.1 hlive₁).2,
    Action.ensures_checked, hblocks₂, hinodes₂, Action.ensures_set, Action.ensures_pure]
  have hsteps := hcreated.steps
  have hapart : ∀ b, v₁.foreign child.number b ↔ v.space.blocks.used b = true := by
    intro b
    rw [h.whole.used_iff_foreign hcreated.fresh]
    exact exists_congr fun m => and_congr_right fun hm => by rw [hsteps.blocksOf h.whole hm]
  have hcontent : ∀ b, v.space.blocks.used b = true → v₁.data.block? b = v.data.block? b := by
    intro b hb
    obtain ⟨m, hm, hb⟩ := (h.whole.used_iff_foreign hcreated.fresh b).1 hb
    exact (hsteps.sameAt h.whole hm).blocks b hb
  obtain ⟨e, inodes, blocks, htake, halloc, rfl⟩ :=
    (createInode_grown h.whole owner mode now).of_ok hrun
  obtain ⟨⟨old, hold⟩, hclear, -⟩ := h.whole.take htake
  have htook : Step child.number v
      (v.taken child.number inodes (Inode.ofOwner child.number owner mode now)) :=
    .take htake rfl ⟨rfl, rfl, rfl⟩
  have hnew := h.whole.live?_taken htake (Inode.ofOwner child.number owner mode now)
  have hgrown := (((htook.touches_whole h.whole).2.owns hnew).blocks.grown halloc).1
  refine ⟨rfl, ?_, ?_, hcontent⟩
  · have hinodes : inodes₂ = v.space.inodes := h.whole.exactInodes.release_taken htake hinodes₂
    have hblocks : blocks₂ = v.space.blocks :=
      (hgrown.marked.trans hforeign).eq_self h.whole.exactBlocks hapart
    rw [hinodes, hblocks]
  · change ((v.table.set _ _).set _ _).set _ .blank = v.table
    rw [set_set, set_set, ← ht _ _ hold hclear]
    exact set_self hold

/-- A directory and its entry were made, and the parent's links, one for each directory in it, are as
many as a word can count. -/
structure Overflows (v : Volume) (parent : UInt32) (name : String) (mode : Mode) (owner : Owner)
    (now : Int64) : Prop where
  directory : mode.isDirectory = true
  valid : Entry.checkName name = .ok ()
  new : v.lookup parent name = .ok none
  entered : ∃ child v₁ v₂, createInode owner mode now v = .ok child v₁ ∧
    addEntry parent name child.number now v₁ = .ok () v₂
  full : ∃ node, v.live? parent = some node ∧ node.links.toNat + 1 = UInt16.size

theorem Sound.entered (h : v.Sound) {parent : UInt32} {name : String} {owner : Owner} {mode : Mode}
    {now : Int64} {child dir : Inode} {v₁ v₂ : Volume}
    (hrun : createInode owner mode now v = .ok child v₁)
    (hdirectory : v.members.isDirectory parent = true) (hparent : v.live? parent = some dir)
    (hentry : addEntry parent name child.number now v₁ = .ok () v₂) :
    v₂.Whole ∧ parent ≠ child.number ∧ v₂.live? child.number = some child ∧
      ∃ dir₂, v₂.live? parent = some dir₂ ∧ dir₂.links = dir.links := by
  have hcreated := (createInode_ensures h.whole owner mode now).of_ok hrun
  have hsound₁ := hcreated.steps.sound h
  have hne := (h.parent_kept hrun hdirectory).1
  have hentered := (addEntry_members hsound₁ parent name child.number now).of_ok hentry
  obtain ⟨dir₁, dir₂, hdir₁, hdir₂, -⟩ := hentered.edited.live hsound₁.whole
  have hsame : v₁.live? parent = v.live? parent := hcreated.steps.live h.whole hne
  obtain rfl := Option.some.inj (hdir₁.symm.trans (hsame.trans hparent))
  exact ⟨hentered.edited.steps.whole hsound₁.whole, hne,
    (hentered.edited.steps.live hsound₁.whole (Ne.symm hne)).trans hcreated.live, dir₂, hdir₂,
    hentered.edited.links hsound₁.whole hdir₁ hdir₂⟩

theorem create_outcome (h : v.Sound) (ht : v.Tidy) (parent : UInt32) (name : String) (mode : Mode)
    (owner : Owner) (now : Int64) :
    Action.Ensures (create parent name mode owner now) v (fun _ _ => True) (fun _ => Kept v)
      (v.Overflows parent name mode owner now) := by
  have hchecked := Directory.checkName_ensures name
  have hlookup := h.lookup_members parent name
  simp only [create, Action.ensures_bind, Action.ensures_get, Action.ensures_lift,
    Action.ensures_refuseIf]
  cases hname : Entry.checkName name with
  | error stop =>
    rw [hname] at hchecked
    cases stop with
    | trap t => exact hchecked.elim
    | failure e => exact .refl v
  | ok u =>
  cases hfound : v.lookup parent name with
  | error stop =>
    rw [hfound] at hlookup
    cases stop with
    | trap t => exact hlookup.elim
    | failure e => exact .refl v
  | ok found =>
  obtain ⟨hdirectory, -⟩ := hlookup.of_ok hfound
  simp only [Fallible.ensures_ok]
  split
  · exact .refl v
  rename_i hnew
  obtain rfl : found = none := by simpa using hnew
  refine (createInode_ensures h.whole owner mode now).run.mono ?_ ?_ False.elim
  · rintro child v₁ ⟨hrun, hcreated⟩
    have hsound₁ := hcreated.steps.sound h
    rw [Action.ensures_attempt]
    refine (addEntry_members hsound₁ parent name child.number now).run.mono ?_ ?_ False.elim
    · rintro _ v₂ ⟨hentry, -⟩
      obtain ⟨dir, hparent, -⟩ := live_of_isDirectory hdirectory
      obtain ⟨hwhole₂, hne, hlive₂, dir₂, hdir₂, hlinks⟩ :=
        h.entered hrun hdirectory hparent hentry
      refine (linkChild_members hwhole₂ hne hdir₂ hlive₂).mono (fun _ _ _ => trivial)
        (fun _ _ => False.elim) ?_
      rintro ⟨hchild, hfull⟩
      rw [hcreated.record] at hchild
      exact ⟨hchild, hname, hfound, ⟨child, v₁, v₂, hrun, hentry⟩,
        dir, hparent, hlinks ▸ hfull⟩
    · rintro e v₂ ⟨-, rfl, -⟩
      simp only [Action.ensures_bind, Action.ensures_fail]
      exact (h.release_created ht hrun).mono (fun _ _ hkept => hkept) (fun _ _ => False.elim)
        False.elim
  · rintro e _ ⟨-, rfl, -⟩
    exact .refl _

theorem create_overflows (h : v.Sound) {parent : UInt32} {name : String} {mode : Mode}
    {owner : Owner} {now : Int64} (ho : v.Overflows parent name mode owner now) :
    ∃ t v', create parent name mode owner now v = .error (.trap t) v' := by
  obtain ⟨child, v₁, v₂, hrun, hentry⟩ := ho.entered
  obtain ⟨dir, hparent, hfull⟩ := ho.full
  obtain ⟨hdirectory, -⟩ := (h.lookup_members parent name).of_ok ho.new
  obtain ⟨hwhole₂, hne, hlive₂, dir₂, hdir₂, hlinks⟩ := h.entered hrun hdirectory hparent hentry
  have hchild : child.isDirectory = true := by
    rw [((createInode_ensures h.whole owner mode now).of_ok hrun).record]
    exact ho.directory
  have hens : Action.Ensures (create parent name mode owner now) v (fun _ _ => False)
      (fun _ _ => False) True := by
    simp only [create, Action.ensures_bind, Action.ensures_get, Action.ensures_lift,
      Action.ensures_refuseIf, ho.valid, ho.new, Fallible.ensures_ok, Option.isSome_none,
      Bool.false_eq_true, if_false, Action.ensures_of_ok hrun, Action.ensures_attempt,
      Action.ensures_of_ok hentry]
    refine (linkChild_members hwhole₂ hne hdir₂ hlive₂).mono ?_ (fun _ _ => id) (fun _ => trivial)
    rintro _ v₃ ⟨-, hmembers, -, -⟩
    have hparent₃ : v₃.members parent = some ((dir₂.member v₂.data).onLinks (· + 1)) := by
      rw [hmembers, if_pos hchild, Namespace.edit_self, Namespace.edit_ne hne, members_live hdir₂]
      rfl
    obtain ⟨dir₃, -, hdir₃⟩ := members_eq_some hparent₃
    have hcount : dir₂.links.toNat + 1 = dir₃.links.toNat := congrArg Member.links hdir₃
    have hlt := dir₃.links.toNat_lt
    rw [hlinks, hfull] at hcount
    exact absurd hlt (by rw [← hcount]; decide)
  cases hcreate : create parent name mode owner now v with
  | ok n v' => exact (hens.of_ok hcreate).elim
  | error stop v' =>
    cases stop with
    | failure e => exact (hens.of_failure hcreate).elim
    | trap t => exact ⟨t, v', rfl⟩

structure Regular (v : Volume) : Prop where
  sound : v.Sound
  layout : v.Layout
  tidy : v.Tidy

theorem Steps.regular {S : UInt32 → Prop} (hsteps : Steps S v v') (h : v.Regular) : v'.Regular :=
  ⟨hsteps.sound h.sound, (hsteps.shape h.sound.whole).layout h.layout,
    hsteps.tidy h.sound.whole h.tidy⟩

theorem regular_of_run (hrun : Request.Run v v') (h : v.Regular) : v'.Regular := by
  induction hrun with
  | refl => exact h
  | tail _ hr ih =>
    obtain ⟨r, hr⟩ := hr
    exact (Request.steps ih.sound.whole hr).regular ih

theorem Settled.regular (hsettled : Settled v v') (h : v.Regular) : v'.Regular := by
  refine ⟨hsettled.toSameFiles.sound h.sound, hsettled.layout h.layout, ?_⟩
  rw [Tidy, hsettled.table, hsettled.space]
  exact h.tidy

theorem regular_unrooted (g : Geometry) (id : VolumeId) (now : Int64) :
    (unrooted g id now).Regular := by
  refine ⟨sound_unrooted g id now, layout_unrooted g id now, fun n node hget _ => ?_⟩
  unfold InodeTable.get? at hget
  split at hget
  · cases hget
  · obtain ⟨hlt, hrecord⟩ := Array.getElem?_eq_some_iff.1 hget
    rw [← hrecord]
    exact Array.getElem_replicate _

section Device

open BlockDevice

variable {D : Type} [BlockDevice D]

theorem Regular.sync_ensures (h : v.Regular) (d : D) :
    Action.Ensures Mounted.sync ⟨v, d⟩ (fun _ m => Settled v m.volume)
      (fun _ m => Settled v m.volume) False := by
  have htracks : Tracks fun (_ : D) (_ : Nat → Block) => True := fun _ _ _ _ _ _ _ => trivial
  -- the blocks in memory are a content that backs them
  have hbacked : v.Backed fun n => (v.data.block? (n - v.data.start.toNat)).getD .zero := by
    intro n b hb
    right
    have hlt : b < v.data.cells.size := by
      rw [h.sound.whole.sized.cells]
      exact h.sound.whole.consistent.inside n b hb
    simp [BlockCache.block?, hlt]
  refine (Volume.sync_ensures h.sound.whole.sized h.layout htracks trivial hbacked).mono ?_ ?_ id
  · rintro _ m ⟨-, -, hsettled, -⟩
    exact hsettled
  · rintro _ m ⟨-, -, -, hsettled, -⟩
    exact hsettled

theorem makeRoot_regular {g : Geometry} {deviceBlocks : Nat} (hroom : HasRoom g deviceBlocks)
    (id : VolumeId) (now time : Int64) :
    Action.Ensures (makeRoot time) (unrooted g id now) (fun _ v => v.Regular) (fun _ _ => False)
      False :=
  (makeRoot_ensures hroom id now time).mono
    (fun _ _ hmade => hmade.1.regular (regular_unrooted g id now)) (fun _ _ => False.elim) False.elim

theorem regular_of_format {d d' : D} {g : Geometry} {id : VolumeId} {now : Int64}
    (hformat : format g id now d = .ok v d') : v.Regular := by
  have hens : Action.Ensures (format g id now) d (fun v _ => v.Regular) (fun _ _ => True) False := by
    simp only [format, Mounted.onVolume, Action.ensures_bind, Action.ensures_get,
      Action.ensures_lift, Action.ensures_within]
    refine (blank_ensures (blockCount d) g id now).mono ?_ (fun _ _ => trivial) False.elim
    rintro _ ⟨rfl, hroom⟩
    refine (makeRoot_regular hroom id now now).mono ?_ (fun _ _ => False.elim) False.elim
    intro _ v hregular
    exact (hregular.sync_ensures d).mono (fun _ _ hsettled => hsettled.regular hregular)
      (fun _ _ _ => trivial) False.elim
  exact hens.of_ok hformat

theorem reformat_ensures (g : Geometry) (id : VolumeId) (now : Int64) (m : Mounted D) :
    Action.Ensures (Mounted.reformat g id now) m
      (fun _ m' => HasRoom g (blockCount m.disk) ∧ m'.volume.Regular)
      (fun e m' => (HasRoom g (blockCount m.disk) ∧ m'.volume.Regular) ∨
        (¬HasRoom g (blockCount m.disk) ∧ e = .noSpace ∧ m' = m)) False := by
  simp only [Mounted.reformat, Mounted.onVolume, Action.ensures_bind, Action.ensures_get,
    Action.ensures_lift, Action.ensures_modify, Action.ensures_within]
  refine (blank_ensures (blockCount m.disk) g id now).mono ?_ ?_ False.elim
  · rintro _ ⟨rfl, hroom⟩
    refine (makeRoot_regular hroom id now now).mono ?_ (fun _ _ => False.elim) False.elim
    intro _ v hregular
    exact (hregular.sync_ensures m.disk).mono
      (fun _ _ hsettled => ⟨hroom, hsettled.regular hregular⟩)
      (fun _ _ hsettled => .inl ⟨hroom, hsettled.regular hregular⟩) False.elim
  · rintro e ⟨rfl, hroom⟩
    exact .inr ⟨hroom, rfl, trivial⟩

end Device

end Volume

namespace Mounted

variable {D : Type} [BlockDevice D]

/-- Whatever can be done with a volume on its device, and whatever comes of it. -/
inductive Change : Mounted D → Mounted D → Prop where
  | call {m : Mounted D} {r : Request} {v' : Volume} (h : r.Returns m.volume v') :
      Change m { m with volume := v' }
  | sync {m m' : Mounted D} (h : Action.Returns Mounted.sync m m') : Change m m'
  | reformat {m m' : Mounted D} {g : Geometry} {id : VolumeId} {now : Int64}
      (h : Action.Returns (Mounted.reformat g id now) m m') : Change m m'

abbrev Changes : Mounted D → Mounted D → Prop := Relation.ReflTransGen Change

variable {m m' : Mounted D}

theorem Change.regular (hchange : Change m m') (h : m.volume.Regular) : m'.volume.Regular := by
  cases hchange with
  | call hr => exact (Request.steps h.sound.whole hr).regular h
  | sync hsync => exact ((h.sync_ensures m.disk).of_returns hsync).regular h
  | @reformat _ g id now hreformat =>
    have hens : Action.Ensures (Mounted.reformat g id now) m (fun _ m' => m'.volume.Regular)
        (fun _ m' => m'.volume.Regular) False := by
      refine (Volume.reformat_ensures g id now m).mono (fun _ _ hnew => hnew.2) ?_ False.elim
      rintro e _ (⟨-, hnew⟩ | ⟨-, -, rfl⟩)
      · exact hnew
      · exact h
    exact hens.of_returns hreformat

theorem Changes.regular (hchanges : Changes m m') (h : m.volume.Regular) : m'.volume.Regular := by
  induction hchanges with
  | refl => exact h
  | tail _ hchange ih => exact hchange.regular ih

end Mounted

/-- In every state that calls, syncs and reformats can reach, a call on names or on the allocation
that reports an error leaves everything in use as it was, and so does a reformat whose options the
device has no room for. -/
theorem failed_calls_change_nothing {D : Type} [BlockDevice D] (g : Geometry) (id : VolumeId)
    (now : Int64) (d d' : D) (v₀ : Volume) (m : Mounted D)
    (hformat : Volume.format g id now d = .ok v₀ d') (hrun : Mounted.Changes ⟨v₀, d'⟩ m) :
    (∀ parent name mode owner time e v', Volume.create parent name mode owner time m.volume =
      .error (.failure e) v' → Volume.Kept m.volume v') ∧
    (∀ owner mode time e v', Volume.createInode owner mode time m.volume =
      .error (.failure e) v' → v' = m.volume) ∧
    (∀ dir name target time e v', Volume.insert dir name target time m.volume =
      .error (.failure e) v' → v' = m.volume) ∧
    (∀ parent name time e v', Volume.remove parent name time m.volume =
      .error (.failure e) v' → v' = m.volume) ∧
    (∀ number count e v', Volume.allocateExtent number count m.volume =
      .error (.failure e) v' → v' = m.volume) ∧
    ∀ g' id' time, ¬Volume.HasRoom g' (BlockDevice.blockCount m.disk) →
      Mounted.reformat g' id' time m = .error (.failure .noSpace) m := by
  have hregular := hrun.regular (Volume.regular_of_format hformat)
  have hsound := hregular.sound
  refine ⟨fun parent name mode owner time e v' hfailed => ?_, fun owner mode time e v' hfailed => ?_,
    fun dir name target time e v' hfailed => ?_, fun parent name time e v' hfailed => ?_,
    fun number count e v' hfailed => ?_, fun g' id' time hroom => ?_⟩
  · exact (Volume.create_outcome hsound hregular.tidy parent name mode owner time).of_failure hfailed
  · exact ((Volume.createInode_members hsound owner mode time).of_failure hfailed).1
  · exact ((Volume.insert_members hsound dir name target time).of_failure hfailed).1
  · exact ((Volume.remove_members hsound parent name time).of_failure hfailed).1
  · exact (Volume.allocateExtent_ensures hsound.whole number count).of_failure hfailed
  · have hens := Volume.reformat_ensures g' id' time m
    cases hrun : Mounted.reformat g' id' time m with
    | ok u m' => exact absurd (hens.of_ok hrun).1 hroom
    | error stop m' =>
      cases stop with
      | trap t => exact (hens.of_trap hrun).elim
      | failure e =>
        obtain ⟨hnew, -⟩ | ⟨-, rfl, rfl⟩ := hens.of_failure hrun
        · exact absurd hnew hroom
        · rfl

/-- The name of a file is taken, and a second file is refused. -/
theorem second_create_changes_nothing : ∃ (v₀ v v' : Volume) (d' : MemoryDisk),
    Volume.format ⟨4, 4⟩ ⟨.replicate 16 0⟩ 0 (MemoryDisk.blank 8) = .ok v₀ d' ∧
      Mounted.Changes ⟨v₀, d'⟩ ⟨v, d'⟩ ∧ v.members.lookup 1 "a" = some 2 ∧
      Volume.create 1 "a" .defaultFile default 0 v = .error (.failure (.alreadyExists "a")) v' ∧
      Volume.Kept v v' := by
  obtain ⟨v₀, d', hformat⟩ := Volume.format_memoryDisk
  have hdraft : ((Draft.fresh ⟨4, 4⟩).next? (.create 1 "a" .defaultFile default 0)).any
      (fun p => p.ns.isDirectory 1 && p.ns.lookup 1 "a" == some 2) = true := by decide +kernel
  obtain ⟨p, hp, hfound⟩ := (Option.any_eq_true _ _).1 hdraft
  obtain ⟨v, hr, hfits⟩ := (Draft.fits_of_formatted (Volume.formatted_of_format hformat)).next hp
  rw [Bool.and_eq_true, beq_iff_eq, ← hfits.members] at hfound
  obtain ⟨hdirectory, hfound⟩ := hfound
  have hrun : Mounted.Changes ⟨v₀, d'⟩ ⟨v, d'⟩ := .single (.call hr)
  have hens := Volume.create_members hfits.sound 1 "a" .defaultFile default 0
  cases hcreate : Volume.create 1 "a" .defaultFile default 0 v with
  | ok n v' =>
    have hnew := (hens.of_ok hcreate).new
    rw [hfound] at hnew
    cases hnew
  | error stop v' =>
    cases stop with
    | trap t => exact absurd (hens.of_trap hcreate).1 (by decide)
    | failure e =>
      have hkept := (failed_calls_change_nothing ⟨4, 4⟩ ⟨.replicate 16 0⟩ 0 (MemoryDisk.blank 8) d'
        v₀ ⟨v, d'⟩ hformat hrun).1 1 "a" .defaultFile default 0 e v' hcreate
      obtain ⟨-, rfl⟩ | ⟨hnew, -⟩ := (hens.of_failure hcreate).2 hdirectory rfl
      · exact ⟨v₀, v, v', d', hformat, hrun, hfound, hcreate, hkept⟩
      · rw [hfound] at hnew
        cases hnew

end ExtentVolume
