import ExtentVolume.Proofs.Rehearsal
import ExtentVolume.Proofs.Requests

namespace ExtentVolume.Volume

structure SameData (n : UInt32) (v v' : Volume) : Prop where
  readAll : v'.readAll n = v.readAll n
  list : v'.list n = v.list n

structure SameRecord (n : UInt32) (v v' : Volume) : Prop where
  record : v'.table.get? n = v.table.get? n
  inode : v'.inode n = v.inode n

variable {v v' : Volume} {n m dir : UInt32} {node : Inode}

theorem SameAt.data (h : SameAt n v v') (hv : v.Whole) : SameData n v v' :=
  ⟨h.readAll hv, h.list hv⟩

theorem SameData.trans {v'' : Volume} (h : SameData n v v') (h' : SameData n v' v'') :
    SameData n v v'' :=
  ⟨h'.readAll.trans h.readAll, h'.list.trans h.list⟩

theorem Steps.sameRecord {S : UInt32 → Prop} (hsteps : Steps S v v') (hv : v.Whole) (hn : ¬S n) :
    SameRecord n v v' :=
  ⟨(hsteps.untouched hv hn).1, (hsteps.sameAt hv hn).inode⟩

theorem Steps.same {S : UInt32 → Prop} (hsteps : Steps S v v') (hv : v.Whole) (hn : ¬S n) :
    SameRecord n v v' ∧ SameData n v v' :=
  ⟨hsteps.sameRecord hv hn, (hsteps.sameAt hv hn).data hv⟩

theorem Relinked.sameData (h : Relinked n v v') (hv : v.Sound) (m : UInt32) : SameData m v v' := by
  have hsteps : Steps (· = n) v v' := .single ⟨n, rfl, h.step⟩
  by_cases hm : m = n
  · subst hm
    have hv' := hsteps.sound hv
    obtain ⟨node, links, hlive, rfl⟩ := h
    have hlive' := live?_set hlive { node with links }
    refine ⟨?_, ?_⟩
    · rw [hv.readAll_eq hlive, hv'.readAll_eq hlive']
      rfl
    · funext position limit
      have hlist := Directory.list_congr (hv.whole.inside hlive) (hv'.whole.inside hlive') rfl
        position limit
      rw [hv.list_eq hlive, hv'.list_eq hlive', hlist]
      rfl
  · exact (hsteps.sameAt hv.whole hm).data hv.whole

def met (v : Volume) (n : UInt32) (position limit : Nat) :
    Fallible VolumeError (List Entry × Option (Stop VolumeError)) :=
  (fun l => (l.entries, l.stopped)) <$> v.list n position limit

theorem Sound.met_congr {v v' : Volume} {node node' : Inode} (h : v.Sound) (h' : v'.Sound)
    (hlive : v.live? n = some node) (hlive' : v'.live? n = some node')
    (hkind : node'.isDirectory = node.isDirectory)
    (hused : ∀ position, ((Directory.slots v'.data node').drop position).filter (!·.isFree) =
      ((Directory.slots v.data node).drop position).filter (!·.isFree)) : v'.met n = v.met n := by
  funext position limit
  have hold := Directory.list_entries (h.whole.inside hlive) position limit
  have hnew := Directory.list_entries (h'.whole.inside hlive') position limit
  rw [hused] at hnew
  rw [met, met, h.list_eq hlive, h'.list_eq hlive', hkind]
  split
  · simp only [Functor.map, Except.map, hnew, hold]
  · rfl

theorem sameContent_of_grow (h : v.Sound) (hlive : v.live? n = some node) {count : UInt32}
    {e : Extent} {node' : Inode} {blocks : Bitmap}
    (ha : Inode.allocateExtent count (node, v.space.blocks) = .ok e (node', blocks)) :
    let v' := v.putBack n ⟨node', blocks,
      ⟨BlockCache.zeroBlocks v.data.cells e.start.toNat e.count.toNat, v.data.start⟩⟩
    v'.readAll n = v.readAll n ∧ v'.met n = v.met n := by
  intro v'
  have hstep : Step n v v' := .edit hlive (.grow ha)
  have hv' := hstep.sound h
  have hlive' : v'.live? n = some node' := live?_putBack hlive
  have howns := h.whole.owns hlive
  have hpacked := (h.content n node hlive).packed
  obtain ⟨hgrown, -⟩ := howns.blocks.grown ha
  have hrecord : node'.size = node.size ∧ node'.isDirectory = node.isDirectory := by
    rw [hgrown.record]
    exact ⟨rfl, rfl⟩
  refine ⟨?_, ?_⟩
  · rw [h.readAll_eq hlive, hv'.readAll_eq hlive', Inode.content, Inode.content, hrecord.1]
    congr 1
    apply List.map_congr_left
    intro i _
    exact howns.byteIn_grow hpacked ha i
  · refine h.met_congr hv' hlive hlive' hrecord.2 fun position => ?_
    have hslots : Directory.slots v'.data node' = _ := Directory.slots_grow howns hpacked ha
    rw [hslots, Directory.entries_append_blank]
    rfl

variable {D : Type} [BlockDevice D]

/-- Every call, successful or not, changes the inodes that it names and no other one in use. -/
theorem calls_isolated (g : Geometry) (id : VolumeId) (now : Int64) (d d' : D) (v₀ v v' : Volume)
    (hformat : format g id now d = .ok v₀ d') (hrun : Request.Run v₀ v) :
    (∀ i offset bytes time, (Request.write i offset bytes time).Returns v v' →
      ∀ m, m ≠ i → SameRecord m v v' ∧ SameData m v v') ∧
    (∀ i count, (Request.allocateExtent i count).Returns v v' →
      (∀ m, m ≠ i → SameRecord m v v' ∧ SameData m v v') ∧
        v'.readAll i = v.readAll i ∧ v'.met i = v.met i) ∧
    (∀ parent name mode owner time, (Request.create parent name mode owner time).Returns v v' →
      ∀ m, m ≠ parent → v.live? m ≠ none → SameRecord m v v' ∧ SameData m v v') ∧
    (∀ owner mode time, (Request.createInode owner mode time).Returns v v' →
      ∀ m, v.live? m ≠ none → SameRecord m v v' ∧ SameData m v v') ∧
    (∀ dir name target time, (Request.insert dir name target time).Returns v v' →
      ∀ m, m ≠ dir → SameData m v v' ∧ (m ≠ target → SameRecord m v v')) ∧
    (∀ parent name time, (Request.remove parent name time).Returns v v' →
      ∀ m, m ≠ parent → v.lookup parent name ≠ .ok (some m) →
        SameRecord m v v' ∧ SameData m v v') := by
  have hv := hrun.sound (formatted_of_format hformat).sound
  have hsame : ∀ r : Request, r.Returns v v' → ∀ m, ¬r.Reaches v m →
      SameRecord m v v' ∧ SameData m v v' :=
    fun r hr m hm => (Request.steps hv.whole hr).same hv.whole hm
  refine ⟨fun i offset bytes time hr m hm => hsame _ hr m hm, fun i count hr => ⟨?_, ?_⟩,
    fun parent name mode owner time hr m hm hlive => hsame _ hr m (not_or.2 ⟨hm, hlive⟩),
    fun owner mode time hr m hlive => hsame _ hr m hlive,
    fun dir name target time hr m hm => ⟨?_, fun hne => (hsame _ hr m (not_or.2 ⟨hm, hne⟩)).1⟩,
    fun parent name time hr m hm hne => hsame _ hr m (not_or.2 ⟨hm, hne⟩)⟩
  · exact fun m hm => hsame _ hr m hm
  · have hens := allocateExtent_ensures hv.whole i count
    obtain ⟨e, hok⟩ | ⟨e, hfailed⟩ := hr
    · obtain ⟨node, node', blocks, hlive, halloc, rfl⟩ := hens.of_ok hok
      exact sameContent_of_grow hv hlive halloc
    · obtain rfl := hens.of_failure hfailed
      exact ⟨rfl, rfl⟩
  · have hens := insert_ensures hv.whole dir name target time
    have hedited : ∀ v₁, Edited dir v v₁ → SameData m v v₁ :=
      fun v₁ he => (he.steps.same hv.whole hm).2
    obtain ⟨_, hok⟩ | ⟨e, hfailed⟩ := hr
    · obtain ⟨v₁, he, hrelinked⟩ := hens.of_ok hok
      exact (hedited v₁ he).trans (hrelinked.sameData (he.steps.sound hv) m)
    · obtain rfl | he := hens.of_failure hfailed
      · exact ⟨rfl, rfl⟩
      · exact hedited _ he

/-- Of two files that were made, the second is as it was after a write to the first, and after the
first is removed. -/
theorem second_file_kept : ∃ (v₀ v v' v'' : Volume) (d' : MemoryDisk),
    format ⟨4, 4⟩ ⟨.replicate 16 0⟩ 0 (MemoryDisk.blank 8) = .ok v₀ d' ∧
      Request.Sequence [.create 1 "a" .defaultFile default 0, .create 1 "b" .defaultFile default 0]
        v₀ v ∧
      v.lookup 1 "a" = .ok (some 2) ∧ v.lookup 1 "b" = .ok (some 3) ∧
      (Request.write 2 0 [5, 6] 0).Returns v v' ∧ SameRecord 3 v v' ∧ SameData 3 v v' ∧
      remove 1 "a" 0 v = .ok 2 v'' ∧ SameRecord 3 v v'' ∧ SameData 3 v v'' := by
  obtain ⟨v₀, d', hformat⟩ := format_memoryDisk
  have hdraft : ((Draft.fresh ⟨4, 4⟩).run? [.create 1 "a" .defaultFile default 0,
      .create 1 "b" .defaultFile default 0]).any (fun p => p.ns.isDirectory 1 &&
        p.ns.lookup 1 "a" == some 2 && p.ns.lookup 1 "b" == some 3 &&
        (p.ns 2).any (·.maySpareName)) = true := by
    decide +kernel
  obtain ⟨v, p, hsequence, hfits, hp⟩ := Draft.run_formatted (formatted_of_format hformat) hdraft
  rw [← hfits.members] at hp
  simp only [Bool.and_eq_true, beq_iff_eq, Option.any_eq_true] at hp
  obtain ⟨⟨⟨hdirectory, ha⟩, hb⟩, target, htarget, hspare⟩ := hp
  have hfound : v.lookup 1 "a" = .ok (some 2) := ha ▸ hfits.sound.lookup_ok hdirectory "a"
  obtain ⟨v', hwrite⟩ := (write_ensures hfits.sound.whole 2 0 [5, 6] 0).returns
  obtain ⟨v'', hremove, -⟩ := hfits.sound.remove_ok ha htarget hspare 0
  have hisolated := fun u => calls_isolated ⟨4, 4⟩ ⟨.replicate 16 0⟩ 0 (MemoryDisk.blank 8) d' v₀ v u
    hformat hsequence.run
  obtain ⟨hwritten, -⟩ := hisolated v'
  obtain ⟨-, -, -, -, -, hremoved⟩ := hisolated v''
  obtain ⟨hrecord, hdata⟩ := hwritten 2 0 [5, 6] 0 hwrite 3 (by decide)
  obtain ⟨hrecord', hdata'⟩ := hremoved 1 "a" 0 (.inl ⟨2, hremove⟩) 3 (by decide) (by
    rw [hfound]
    decide)
  exact ⟨v₀, v, v', v'', d', hformat, hsequence, hfound, hb ▸ hfits.sound.lookup_ok hdirectory "b",
    hwrite, hrecord, hdata, hremove, hrecord', hdata'⟩

end ExtentVolume.Volume
