import ExtentVolume.Proofs.Members
import ExtentVolume.Proofs.Mounted

namespace ExtentVolume

namespace Volume

def unrooted (g : Geometry) (id : VolumeId) (now : Int64) : Volume :=
  let superBlock := SuperBlock.ofGeometry g id now
  { superBlock
    space := .fresh g.blocks g.inodes superBlock.inodeBitmapStart superBlock.blockBitmapStart
    table := .fresh g.inodes superBlock.inodeTableStart
    data := .fresh superBlock.dataStart g.blocks }

/-- The geometry has a root directory, and the device has room for all of it. -/
def HasRoom (g : Geometry) (deviceBlocks : Nat) : Prop :=
  1 < g.inodes.toNat ∧ 0 < g.blocks.toNat ∧ g.deviceBlocks ≤ deviceBlocks

variable {g : Geometry} {id : VolumeId} {now : Int64} {v v' : Volume}

theorem blank_ensures (deviceBlocks : Nat) (g : Geometry) (id : VolumeId) (now : Int64) :
    (blank deviceBlocks g id now).Ensures (fun v => v = unrooted g id now ∧ HasRoom g deviceBlocks)
      (fun e => e = .noSpace ∧ ¬HasRoom g deviceBlocks) False := by
  simp only [blank, Fallible.ensures_bind, Fallible.ensures_refuseIf, Fallible.ensures_pure]
  have hinodes : g.inodes ≤ SuperBlock.rootNumber ↔ ¬1 < g.inodes.toNat := by
    rw [UInt32.le_iff_toNat_le, Nat.not_lt]
    rfl
  have hblocks : g.blocks = 0 ↔ ¬0 < g.blocks.toNat := by
    rw [← UInt32.toNat_inj, Nat.not_lt, Nat.le_zero]
    rfl
  simp only [hinodes, hblocks]
  split
  · rename_i hnone
    exact ⟨trivial, fun h => hnone.elim (· h.1) (· h.2.1)⟩
  · rename_i hsome
    rw [not_or, not_not, not_not] at hsome
    split
    · rename_i hsmall
      exact ⟨trivial, fun h => Nat.not_lt.2 h.2.2 hsmall⟩
    · rename_i hlarge
      exact ⟨rfl, hsome.1, hsome.2, Nat.not_lt.1 hlarge⟩

theorem live?_unrooted (n : UInt32) : (unrooted g id now).live? n = none := by
  have hused : (unrooted g id now).space.inodes.used n.toNat = decide (n.toNat < 1 ∧ _) :=
    Bitmap.used_fresh 1 g.inodes _ n.toNat
  rw [live?, hused]
  by_cases hn : n = 0
  · subst hn
    split <;> rfl
  · have hpos : ¬n.toNat < 1 := by
      rw [Nat.lt_one_iff, ← UInt32.toNat_zero, UInt32.toNat_inj]
      exact hn
    rw [decide_eq_false fun h => hpos h.1, if_neg (by decide)]

theorem blocksOf_unrooted (n : UInt32) : (unrooted g id now).blocksOf n = [] := by
  rw [blocksOf, live?_unrooted]

theorem sound_unrooted (g : Geometry) (id : VolumeId) (now : Int64) : (unrooted g id now).Sound := by
  have hinodes : (unrooted g id now).space.inodes.Exact := Bitmap.exact_fresh _ _ _
  have hblocks : (unrooted g id now).space.blocks.Exact := Bitmap.exact_fresh _ _ _
  have hused : ∀ b, (unrooted g id now).space.blocks.used b = false := by
    intro b
    exact (Bitmap.used_fresh 0 g.blocks _ b).trans (decide_eq_false fun h => by omega)
  have hsized : (unrooted g id now).Sized := by
    refine ⟨rfl, ?_, ?_, rfl, rfl⟩
    · exact Array.size_replicate
    · exact Array.size_replicate
  refine ⟨⟨hsized, ⟨hinodes.accounted, hblocks.accounted, ?_, ?_, ?_, ?_, ?_, ?_⟩,
    hinodes.padding, hblocks.padding⟩, ?_, ?_⟩
  · simp [live?_unrooted]
  · simp [live?_unrooted]
  · simp [blocksOf_unrooted]
  · simp [blocksOf_unrooted]
  · simp [blocksOf_unrooted]
  · simp [blocksOf_unrooted, hused]
  · simp [live?_unrooted]
  · simp [live?_unrooted]

theorem layout_unrooted (g : Geometry) (id : VolumeId) (now : Int64) : (unrooted g id now).Layout :=
  ⟨rfl, rfl, rfl, rfl, rfl⟩

def Rooted (v : Volume) : Prop :=
  ∃ root, v.live? SuperBlock.rootNumber = some root ∧ root.isDirectory = true

theorem members_unrooted : (unrooted g id now).members = fun _ => none := by
  funext n
  exact members_eq_none.2 (live?_unrooted n)

theorem Whole.take_root (h : v.Whole) (htotal : 1 < v.space.inodes.total.toNat)
    (hfree : v.space.inodes.used 1 = false) :
    ∃ inodes, v.space.inodes.take = .ok (some (SuperBlock.rootNumber, inodes)) := by
  have hone : SuperBlock.rootNumber.toNat = 1 := rfl
  have hreserved := h.sized.inodeReserved
  obtain ⟨-, hall⟩ | ⟨n, inodes, hsome, hres, -, -, -, hbelow⟩ := h.exactInodes.take
  · rw [hall 1 (Nat.le_of_eq hreserved) htotal] at hfree
    cases hfree
  · rw [hreserved] at hres hbelow
    have hnumber : n = SuperBlock.rootNumber := by
      apply UInt32.toNat_inj.1
      rw [hone]
      by_contra hne
      rw [hbelow 1 (Nat.le_refl 1) (by omega)] at hfree
      cases hfree
    exact ⟨inodes, hnumber ▸ hsome⟩

theorem makeRoot_ensures {deviceBlocks : Nat} (hroom : HasRoom g deviceBlocks) (id : VolumeId)
    (now time : Int64) :
    Action.Ensures (makeRoot time) (unrooted g id now)
      (fun _ v' => Steps (fun _ => True) (unrooted g id now) v' ∧ v'.Rooted ∧
        v'.members = .rooted ∧ v'.space.blocks.free.toNat + 1 = g.blocks.toNat)
      (fun _ _ => False) False := by
  have hsound := sound_unrooted g id now
  have hwhole := hsound.whole
  have hclear : (unrooted g id now).space.inodes.used 1 = false :=
    (Bitmap.used_fresh 1 g.inodes _ 1).trans (decide_eq_false fun h => by omega)
  obtain ⟨inodes, htake⟩ := hwhole.take_root hroom.1 hclear
  have hfirst : (unrooted g id now).space.blocks.used 0 = false :=
    (Bitmap.used_fresh 0 g.blocks _ 0).trans (decide_eq_false fun h => by omega)
  simp only [makeRoot, Action.ensures_bind, Action.ensures_refuseIf]
  refine (createInode_members hsound default Mode.defaultDirectory time).mono ?_ ?_ fun h => h
  · rintro root v₁ ⟨hcreated, hmembers₁, hfree₁⟩
    obtain ⟨inodes', htaken⟩ := hcreated.taken
    have hnumber : root.number = SuperBlock.rootNumber :=
      (Prod.mk.inj (Option.some.inj (Except.ok.inj (htaken.symm.trans htake)))).1
    have hlive := hcreated.live
    rw [hnumber] at hlive
    have hdirectory : root.isDirectory = true := by
      rw [hcreated.record]
      change (Mode.defaultDirectory.kind? == some .directory) = true
      decide
    rw [if_neg (not_not.2 hnumber)]
    have hwhole₁ := hcreated.steps.whole hwhole
    apply (modifyRecord_members hwhole₁ hlive rfl).imp
    rintro _ v₂ ⟨hrelinked, hlive₂, hmembers₂, hspace₂⟩
    have hsteps := (hcreated.steps.mono fun _ _ => trivial).tail ⟨_, trivial, hrelinked.step⟩
    refine ⟨hsteps, ⟨_, hlive₂, hdirectory⟩, ?_, ?_⟩
    · rw [hmembers₂, hmembers₁, hnumber, members_unrooted, Namespace.edit, Namespace.set_self,
        Namespace.set_set]
      rfl
    · have hblocks : (unrooted g id now).space.blocks.free.toNat = g.blocks.toNat :=
        UInt32.toNat_ofNat_of_lt' g.blocks.toNat_lt
      rw [hspace₂, hfree₁, hblocks]
  · rintro e _ ⟨-, hcannot⟩
    obtain ⟨-, hfree | hfree | hnone⟩ | ⟨-, hkind⟩ := hcannot
    · exact hwhole.exactInodes.free_ne_zero hroom.1 hclear hfree
    · exact hwhole.exactBlocks.free_ne_zero hroom.2.1 hfirst hfree
    · rw [htake] at hnone
      cases hnone
    · cases hkind

/-- What a format leaves: a sound volume of its geometry with a root directory. -/
structure Formatted (g : Geometry) (v : Volume) : Prop where
  sound : v.Sound
  layout : v.Layout
  geometry : v.geometry = g
  rooted : v.Rooted
  members : v.members = .rooted
  free : v.space.blocks.free.toNat + 1 = g.blocks.toNat

theorem SameShape.geometry_eq (h : SameShape v v') : v'.geometry = v.geometry := by
  rw [geometry, geometry, h.blocks.2.1, h.inodes.2.1]

theorem SameFiles.geometry_eq (h : SameFiles v v') : v'.geometry = v.geometry := by
  rw [geometry, geometry, h.space]

theorem Settled.formatted (h : Settled v v') (hv : Formatted g v) : Formatted g v' := by
  obtain ⟨root, hlive, hdirectory⟩ := hv.rooted
  exact ⟨h.toSameFiles.sound hv.sound, h.layout hv.layout,
    h.toSameFiles.geometry_eq.trans hv.geometry, ⟨root, (h.live _).trans hlive, hdirectory⟩,
    (h.toSameFiles.members hv.sound.whole).trans hv.members, h.space ▸ hv.free⟩

theorem makeRoot_ok {deviceBlocks : Nat} (hroom : HasRoom g deviceBlocks) (id : VolumeId)
    (now time : Int64) : ∃ v, makeRoot time (unrooted g id now) = .ok () v ∧ Formatted g v ∧
      ∀ c, v.Backed c := by
  have hsound := sound_unrooted g id now
  obtain ⟨⟨⟩, v, hrun, hsteps, hrooted, hmembers, hfree⟩ :=
    (makeRoot_ensures hroom id now time).exists_ok (fun _ _ h => h) fun h => h
  have hshape := Steps.shape hsteps hsound.whole
  refine ⟨v, hrun, ⟨hsteps.sound hsound, hshape.layout (layout_unrooted g id now),
    hshape.geometry_eq, hrooted, hmembers, hfree⟩, fun c n b hb => ?_⟩
  obtain ⟨m, hm⟩ | hdirty := (hsteps.dirty hsound.whole).2 n b hb
  · rw [blocksOf_unrooted] at hm
    cases hm
  · exact .inl hdirty

section Device

open BlockDevice

variable {D : Type} [BlockDevice D] {holds : D → (Nat → Block) → Prop} {d : D} {c : Nat → Block}

theorem format_ensures (htracks : Tracks holds) (hd : holds d c) (g : Geometry) (id : VolumeId)
    (now : Int64) :
    Action.Ensures (format g id now) d
      (fun v d' => HasRoom g (blockCount d) ∧ Formatted g v ∧ v.superBlock = v.counted ∧
        ∃ c', holds d' c' ∧ v.Backed c' ∧ v.Stored c')
      (fun e d' => (e = .noSpace ∧ d' = d ∧ ¬HasRoom g (blockCount d)) ∨
        Refuses holds g.deviceBlocks) False := by
  simp only [format, Mounted.onVolume, Action.ensures_bind, Action.ensures_get, Action.ensures_lift,
    Action.ensures_within]
  refine (blank_ensures (blockCount d) g id now).mono ?_ ?_ fun h => h
  · rintro v ⟨rfl, hroom⟩
    obtain ⟨v, hrun, hformatted, hbacked⟩ := makeRoot_ok hroom id now now
    rw [Action.Ensures, hrun]
    refine (sync_ensures hformatted.sound.whole.sized hformatted.layout htracks hd
      (hbacked c)).mono ?_ ?_ fun h => h
    · rintro _ ⟨v', d'⟩ ⟨c', hd', hsettled, hbacked', hstored⟩
      exact ⟨hroom, hsettled.formatted hformatted, hsettled.recounted, c', hd', hbacked', hstored⟩
    · rintro e _ ⟨hrefused, -⟩
      rw [hformatted.geometry] at hrefused
      exact .inr hrefused
  · rintro e ⟨rfl, hroom⟩
    exact .inl ⟨rfl, trivial, hroom⟩

theorem formatted_counted_of_format {d' : D} {g : Geometry} {id : VolumeId} {now : Int64}
    {v : Volume} (h : format g id now d = .ok v d') : Formatted g v ∧ v.superBlock = v.counted := by
  have htracks : Tracks fun (_ : D) (_ : Nat → Block) => True := by
    intro d c n b d' _ _
    trivial
  have hens := @format_ensures D _ _ d (fun _ => .zero) htracks trivial g id now
  obtain ⟨-, hformatted, hcounted, -⟩ := hens.of_ok h
  exact ⟨hformatted, hcounted⟩

theorem formatted_of_format {d' : D} {g : Geometry} {id : VolumeId} {now : Int64} {v : Volume}
    (h : format g id now d = .ok v d') : Formatted g v :=
  (formatted_counted_of_format h).1

theorem counted_of_format {d' : D} {g : Geometry} {id : VolumeId} {now : Int64} {v : Volume}
    (h : format g id now d = .ok v d') : v.superBlock = v.counted :=
  (formatted_counted_of_format h).2

theorem format_ok [ReliableDevice D] (hvalid : FaithfulDevice.Valid d)
    (hroom : HasRoom g (blockCount d)) (id : VolumeId) (now : Int64) :
    ∃ v d', format g id now d = .ok v d' := by
  have hens := format_ensures (tracks_contains (blockCount d)) ⟨hvalid, rfl, rfl⟩ g id now
  obtain ⟨v, d', hformat, -⟩ := hens.exists_ok
    (fun _ _ h => h.elim (fun h => h.2.2 hroom) (not_refuses hroom.2.2)) fun h => h
  exact ⟨v, d', hformat⟩

end Device

theorem format_memoryDisk :
    ∃ v d', format ⟨4, 4⟩ ⟨.replicate 16 0⟩ 0 (MemoryDisk.blank 8) = .ok v d' := by
  have hcount : BlockDevice.blockCount (MemoryDisk.blank 8) = 8 := Array.size_replicate
  have hroom : HasRoom ⟨4, 4⟩ (BlockDevice.blockCount (MemoryDisk.blank 8)) := by
    rw [hcount]
    exact ⟨by decide, by decide, by decide⟩
  exact format_ok trivial hroom _ 0

end Volume

end ExtentVolume
