import ExtentVolume.Proofs.Chain
import ExtentVolume.Proofs.Rollback

namespace ExtentVolume

namespace Volume

variable {v : Volume} {n : UInt32} {node : Inode}

structure Answers (v : Volume) : Prop where
  lookup : ∀ dir name t, v.lookup dir name ≠ .error (.trap t)
  list : ∀ dir position limit,
    (v.list dir position limit).Ensures (fun l => l.stopped = none) (fun _ => True) False
  read : ∀ n offset length t, v.read n offset length ≠ .error (.trap t)
  readAll : ∀ n t, v.readAll n ≠ .error (.trap t)
  check : ∃ report, Consistency.check v = .ok report

structure InWords (v : Volume) : Prop where
  links : ∀ n node, v.live? n = some node → node.hasOneName = false → 0 < node.links.toNat
  size : ∀ n node, v.live? n = some node → node.size.toNat ≤ node.extents.capacity
  capacity : ∀ n node, v.live? n = some node → node.extents.capacity < UInt64.size
  offset : ∀ n node offset m, v.live? n = some node → node.extents.locate offset = some m →
    offset + m.available ≤ node.extents.capacity
  address : ∀ n node offset m, v.live? n = some node → node.extents.locate offset = some m →
    m.physical + m.available ≤ v.data.size
  area : v.data.size < UInt64.size

theorem Sound.answers (h : v.Sound) : v.Answers where
  lookup dir name := (h.lookup_members dir name).no_trap
  list dir position limit := by
    rw [list, Fallible.ensures_bind]
    refine (h.directory_members dir).mono ?_ (fun _ _ => trivial) False.elim
    rintro node ⟨hlive, -⟩
    exact (Directory.list_entries (h.whole.inside hlive) position limit).2
  read n offset length := by
    have hens : (v.read n offset length).Ensures (fun _ => True) (fun _ => True) False := by
      rw [read, Fallible.ensures_bind]
      refine (inode_ensures h.whole.sized n).mono ?_ (fun _ _ => trivial) False.elim
      rintro node ⟨hlive, -⟩
      rw [(h.mapped hlive).read]
      trivial
    exact hens.no_trap
  readAll n := by
    have hens : (v.readAll n).Ensures (fun _ => True) (fun _ => True) False := by
      rw [readAll, Fallible.ensures_bind]
      refine (inode_ensures h.whole.sized n).mono ?_ (fun _ _ => trivial) False.elim
      rintro node ⟨hlive, -⟩
      rw [(h.mapped hlive).readAll]
      trivial
    exact hens.no_trap
  check := by
    obtain ⟨report, hcheck, -⟩ := (clean_iff_consistent h.whole.sized).2 h.whole.consistent
    exact ⟨report, hcheck⟩

theorem Sound.inWords (h : v.Sound) : v.InWords where
  links n node hlive hnames := by
    unfold Inode.hasOneName at hnames
    simp only [decide_eq_false_iff_not, UInt16.not_le] at hnames
    exact Nat.lt_of_le_of_lt (Nat.zero_le _) (UInt16.lt_iff_toNat_lt.1 hnames)
  size n node hlive := by
    rw [ExtentMap.capacity_eq]
    exact (h.content n node hlive).mapped
  capacity n node hlive := by
    rw [ExtentMap.capacity_eq]
    exact (h.whole.owns hlive).capacity_lt
  offset n node offset m hlive hm := by
    have hpos := locate_available_pos hm
    have haddress := addressAt_of_locate hm (j := m.available - 1) (by omega)
    have hlt := addressAt_lt haddress
    rw [ExtentMap.capacity_eq]
    change _ ≤ (blockNumbers node.extents.inUse).length * blockSize
    omega
  address n node offset m hlive hm :=
    (h.whole.owns hlive).range_le (locate_available_pos hm) fun _ => addressAt_of_locate hm
  area := by
    have hlt := h.whole.cells_lt
    simp only [BlockCache.size, blockSize, UInt64.size]
    omega

end Volume

def Request.Overflows (v : Volume) : Request → Prop
  | .create parent name mode owner now => v.Overflows parent name mode owner now
  | _ => False

theorem Request.ends_iff {v : Volume} (h : v.Sound) (ht : v.Tidy) (r : Request) :
    (∃ v', r.Returns v v') ↔ ¬r.Overflows v := by
  cases r with
  | create parent name mode owner now =>
    constructor
    · rintro ⟨v', hr⟩ ho
      obtain ⟨t, v₁, htrap⟩ := Volume.create_overflows h ho
      obtain ⟨n, hok⟩ | ⟨e, hfailed⟩ := hr
      · rw [htrap] at hok
        cases hok
      · rw [htrap] at hfailed
        cases hfailed
    · intro hno
      exact ((Volume.create_outcome h ht parent name mode owner now).mono (fun _ _ h => h)
        (fun _ _ h => h) hno).returns
  | createInode owner mode now =>
    exact ⟨fun _ => False.elim, fun _ => (Volume.createInode_members h owner mode now).returns⟩
  | insert dir name target now =>
    exact ⟨fun _ => False.elim, fun _ => (Volume.insert_members h dir name target now).returns⟩
  | remove parent name now =>
    exact ⟨fun _ => False.elim, fun _ => (Volume.remove_members h parent name now).returns⟩
  | write number offset bytes now =>
    exact ⟨fun _ => False.elim, fun _ => (Volume.write_members h number offset bytes now).returns⟩
  | allocateExtent number count =>
    exact ⟨fun _ => False.elim, fun _ => (Volume.allocateExtent_members h number count).returns⟩

/-- In every state that calls, syncs and reformats can reach, all calls with all arguments come to an
end but for one: a directory cannot be made under a parent with 65535 links. -/
theorem only_full_parents_trap {D : Type} [BlockDevice D] (g : Geometry) (id : VolumeId)
    (now : Int64) (d d' : D) (v₀ : Volume) (m : Mounted D)
    (hformat : Volume.format g id now d = .ok v₀ d') (hrun : Mounted.Changes ⟨v₀, d'⟩ m) :
    (∀ r : Request, (∃ v', r.Returns m.volume v') ↔ ¬r.Overflows m.volume) ∧
      m.volume.Answers ∧ (∃ m', Action.Returns Mounted.sync m m') ∧ m.volume.InWords := by
  have hregular := hrun.regular (Volume.regular_of_format hformat)
  exact ⟨Request.ends_iff hregular.sound hregular.tidy, hregular.sound.answers,
    (hregular.sync_ensures m.disk).returns, hregular.sound.inWords⟩

/-- A new root counts two links. -/
theorem calls_on_new_volume_end : ∃ (v₀ : Volume) (d' : MemoryDisk),
    Volume.format ⟨4, 4⟩ ⟨.replicate 16 0⟩ 0 (MemoryDisk.blank 8) = .ok v₀ d' ∧
      (∀ r : Request, ∃ v', r.Returns v₀ v') ∧ v₀.Answers ∧
      ∃ m, Action.Returns Mounted.sync ⟨v₀, d'⟩ m := by
  obtain ⟨v₀, d', hformat⟩ := Volume.format_memoryDisk
  have hmembers := (Volume.formatted_of_format hformat).members
  obtain ⟨hcalls, hanswers, hsync, -⟩ := only_full_parents_trap ⟨4, 4⟩ ⟨.replicate 16 0⟩ 0
    (MemoryDisk.blank 8) d' v₀ ⟨v₀, d'⟩ hformat .refl
  refine ⟨v₀, d', hformat, fun r => (hcalls r).2 fun ho => ?_, hanswers, hsync⟩
  cases r with
  | create parent name mode owner now =>
    obtain ⟨node, hlive, hfull⟩ := ho.full
    have hroot := Volume.members_live hlive
    rw [hmembers, Namespace.rooted, Namespace.set_apply] at hroot
    split at hroot
    · have hlinks : 2 = node.links.toNat := congrArg Member.links (Option.some.inj hroot)
      rw [← hlinks] at hfull
      cases hfull
    · cases hroot
  | createInode => exact ho
  | insert => exact ho
  | remove => exact ho
  | write => exact ho
  | allocateExtent => exact ho

/-- At the end of a chain of 517 directories the links of the root are all counted, and one more
directory in it does not come into being. -/
theorem chain_fills_root : ∃ (v₀ v v' : Volume) (d' : MemoryDisk) (t : Trap),
    Volume.format ⟨520, 520⟩ ⟨.replicate 16 0⟩ 0 (MemoryDisk.blank 540) = .ok v₀ d' ∧
      Request.Run v₀ v ∧
      Volume.create 1 "e" .defaultDirectory default 0 v = .error (.trap t) v' := by
  have hcount : BlockDevice.blockCount (MemoryDisk.blank 540) = 540 := Array.size_replicate
  have hroom : Volume.HasRoom ⟨520, 520⟩ (BlockDevice.blockCount (MemoryDisk.blank 540)) := by
    rw [hcount]
    exact ⟨by decide, by decide, by decide⟩
  obtain ⟨v₀, d', hformat⟩ := Volume.format_ok trivial hroom ⟨.replicate 16 0⟩ 0
  obtain ⟨v, p, hrun, hfits, hchain⟩ :=
    Draft.chain_formatted (Volume.formatted_of_format hformat) (Nat.le_refl 516)
  have hroot := hchain.root
  rw [← hfits.members] at hroot
  have hslot : (v.members.entries 1).any (·.isFree) = true := by
    rw [Namespace.entries, hroot]
    decide +kernel
  have hnew : v.members.lookup 1 "e" = none := by
    rw [Namespace.lookup, hroot]
    decide +kernel
  have hdirectory := Draft.directory_of_free hslot
  have hens := Volume.create_members hfits.sound 1 "e" .defaultDirectory default 0
  cases hcreate : Volume.create 1 "e" .defaultDirectory default 0 v with
  | ok n v' =>
    -- the root would have one link more than a word can count
    have hcreated := hens.of_ok hcreate
    have hne := Namespace.ne_of_isDirectory hdirectory hcreated.fresh
    have hmember := congrFun hcreated.members 1
    rw [Namespace.create_parent hne.symm hroot] at hmember
    obtain ⟨node, -, hnode⟩ := Volume.members_eq_some hmember
    have hlinks := congrArg Member.links hnode
    have hlt := node.links.toNat_lt
    have hone : (if Mode.defaultDirectory.isDirectory then 1 else 0) = 1 := rfl
    simp only [Member.onLinks, Member.onSlots, Draft.chainRoot, Inode.member, hone] at hlinks
    omega
  | error stop v' =>
    cases stop with
    | trap t => exact ⟨v₀, v, v', d', t, hformat, hrun, hcreate⟩
    | failure e =>
      have hfree := hchain.filled.free
      obtain ⟨hexists, -⟩ | ⟨-, hrefused⟩ := (hens.of_failure hcreate).2 hdirectory rfl
      · exact absurd hnew hexists
      · exact absurd hrefused (hfits.not_refused (hchain.filled.lowestFree (by decide)) (by omega)
          rfl hslot)

end ExtentVolume
