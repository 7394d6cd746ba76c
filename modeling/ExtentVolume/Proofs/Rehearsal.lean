import ExtentVolume.Proofs.Format

namespace ExtentVolume

def Request.Sequence : List Request → Volume → Volume → Prop
  | [], v, v' => v' = v
  | r :: rest, v, v' => ∃ v₁, r.Returns v v₁ ∧ Sequence rest v₁ v'

theorem Request.Sequence.run {l : List Request} {v v' : Volume} (h : Sequence l v v') :
    Run v v' := by
  induction l generalizing v with
  | nil =>
    obtain rfl := h
    exact .refl
  | cons r rest ih =>
    obtain ⟨v₁, hr, hrest⟩ := h
    exact .head ⟨r, hr⟩ (ih hrest)

/-- A namespace, the numbers of inodes, and how many blocks are free at least. -/
structure Draft where
  ns : Namespace
  inodes : Nat
  free : Nat

namespace Draft

def lowestFree? (p : Draft) : Option Nat :=
  Bitmap.firstFrom (fun k => (p.ns (.ofNat k)).isNone) 1 (p.inodes - 1)

/-- The name is one that a directory with a free slot takes. -/
def takes (p : Draft) (dir : UInt32) (name : String) : Bool :=
  (p.ns.entries dir).any (·.isFree) && (Entry.checkName name).isOk

/-- The draft after a call on names, if the call surely succeeds. -/
def next? (p : Draft) : Request → Option Draft
  | .create parent name mode _ _ => do
    let n ← p.lowestFree?
    let dir ← p.ns parent
    if 0 < p.free ∧ mode.kind?.isSome ∧ p.takes parent name ∧ p.ns.lookup parent name = none ∧
        dir.links + 1 < UInt16.size then
      some { p with ns := p.ns.create parent name mode (.ofNat n), free := p.free - 1 }
    else none
  | .insert dir name target _ =>
    if (p.ns target).isSome ∧ p.takes dir name then
      some { p with ns := p.ns.insert dir name target }
    else none
  | .remove parent name _ => do
    let n ← p.ns.lookup parent name
    let target ← p.ns n
    if target.maySpareName then some { p with ns := p.ns.remove parent name n target } else none
  | _ => none

def run? : Draft → List Request → Option Draft
  | p, [] => some p
  | p, r :: rest => (p.next? r).bind (run? · rest)

/-- The volume holds the namespace, and it has the room. -/
structure Fits (p : Draft) (v : Volume) : Prop where
  sound : v.Sound
  members : v.members = p.ns
  inodes : v.space.inodes.total.toNat = p.inodes
  free : p.free ≤ v.space.blocks.free.toNat

def fresh (g : Geometry) : Draft := ⟨.rooted, g.inodes.toNat, g.blocks.toNat - 1⟩

variable {p p' : Draft} {v v' : Volume} {r : Request}

theorem fits_of_formatted {g : Geometry} (h : Volume.Formatted g v) : (fresh g).Fits v := by
  refine ⟨h.sound, h.members, ?_, ?_⟩
  · exact congrArg (fun g => g.inodes.toNat) h.geometry
  · have hfree := h.free
    simp only [fresh]
    omega

theorem directory_of_free {ns : Namespace} {dir : UInt32}
    (h : (ns.entries dir).any (·.isFree) = true) : ns.isDirectory dir = true := by
  rw [Namespace.entries] at h
  cases hm : ns dir with
  | none =>
    rw [hm] at h
    cases h
  | some m =>
    refine Namespace.isDirectory_iff.2 ⟨m, hm, ?_⟩
    rw [hm, Option.elim_some, Member.entries] at h
    cases hslots : m.slots with
    | none =>
      rw [hslots] at h
      cases h
    | some l => rw [Member.isDirectory, hslots, Option.isSome_some]

theorem takes_iff {dir : UInt32} {name : String} : p.takes dir name = true ↔
    (p.ns.entries dir).any (·.isFree) = true ∧ Entry.checkName name = .ok () := by
  rw [takes, Bool.and_eq_true]
  refine and_congr_right fun _ => ?_
  cases Entry.checkName name <;> simp [Except.isOk, Except.toBool]

theorem not_full {dir : UInt32} {e : VolumeError}
    (h : (v.members.entries dir).any (·.isFree) = true) : ¬v.Full dir e := by
  rintro ⟨node, hlive, hfull, -⟩
  obtain ⟨node', hlive', hdirectory⟩ := Volume.live_of_isDirectory (directory_of_free h)
  obtain rfl := Option.some.inj (hlive.symm.trans hlive')
  rw [Namespace.entries, Volume.members_live hlive, Option.elim_some,
    Volume.entries_member v.data hdirectory] at h
  rw [show (v.opened node).data = v.data from rfl, show (v.opened node).node = node from rfl, h]
    at hfull
  cases hfull

theorem Fits.take_eq (h : p.Fits v) {k : Nat} (hk : p.lowestFree? = some k) :
    v.space.inodes.free ≠ 0 ∧ ∃ inodes, v.space.inodes.take = .ok (some (.ofNat k, inodes)) := by
  obtain ⟨hpos, hlt, hnone, hbelow⟩ := Bitmap.firstFrom_some hk
  rw [← h.inodes] at hlt
  have hlt : k < v.space.inodes.total.toNat := by omega
  have hused : ∀ i, 0 < i → i < v.space.inodes.total.toNat →
      v.space.inodes.used i = !(p.ns (.ofNat i)).isNone := by
    intro i hi hin
    rw [h.sound.whole.sized.used_members hi hin, h.members]
    cases p.ns (.ofNat i) <;> rfl
  have hclear : v.space.inodes.used k = false := by
    rw [hused k hpos hlt, hnone]
    rfl
  refine ⟨h.sound.whole.exactInodes.free_ne_zero hlt hclear, ?_⟩
  have hreserved := h.sound.whole.sized.inodeReserved
  obtain ⟨-, hall⟩ | ⟨n, inodes, htake, hres, htotal, hfree, -, hlowest⟩ :=
    h.sound.whole.exactInodes.take
  · rw [hall k (by omega) hlt] at hclear
    cases hclear
  · have htotal : n.toNat < v.space.inodes.total.toNat := UInt32.lt_iff_toNat_lt.1 htotal
    have hn : n.toNat = k := by
      -- a smaller number than either is in use
      obtain hless | heq | hgreater := Nat.lt_trichotomy n.toNat k
      · rw [hused n.toNat (by omega) htotal, hbelow n.toNat (by omega) hless] at hfree
        cases hfree
      · exact heq
      · rw [hlowest k (by omega) hgreater] at hclear
        cases hclear
    exact ⟨inodes, by rw [htake, ← hn, UInt32.ofNat_toNat]⟩

theorem Fits.sound_shape (h : p.Fits v) (hr : r.Returns v v') :
    v'.Sound ∧ v'.space.inodes.total.toNat = p.inodes := by
  have hshape := (Request.steps h.sound.whole hr).shape h.sound.whole
  exact ⟨Request.sound h.sound hr, by rw [hshape.inodes.2.1, h.inodes]⟩

theorem Fits.not_refused (h : p.Fits v) {parent : UInt32} {mode : Mode} {owner : Owner}
    {now : Int64} {e : VolumeError} {k : Nat} (hk : p.lowestFree? = some k) (hfree : 0 < p.free)
    (hkind : mode.kind?.isSome = true) (hslot : (v.members.entries parent).any (·.isFree) = true) :
    ¬v.CreateRefused parent mode owner now e := by
  obtain ⟨hinodes, inodes, htake⟩ := h.take_eq hk
  intro hrefused
  cases hrefused with
  | inode hcannot =>
    obtain ⟨-, hnone | hnone | hnone⟩ | ⟨-, hnone⟩ := hcannot
    · exact hinodes hnone
    · have hle := h.free
      rw [hnone] at hle
      exact Nat.not_le.2 hfree hle
    · rw [htake] at hnone
      cases hnone
    · rw [hnone] at hkind
      cases hkind
  | @entry child v₁ hrun hfull =>
    obtain ⟨-, hkept⟩ := h.sound.parent_kept hrun (directory_of_free hslot)
    refine not_full ?_ hfull
    rw [Namespace.entries, hkept]
    exact hslot

theorem Fits.create (h : p.Fits v) {parent : UInt32} {name : String} {mode : Mode} {owner : Owner}
    {now : Int64} (hnext : p.next? (.create parent name mode owner now) = some p') :
    ∃ n v', Volume.create parent name mode owner now v = .ok n v' ∧ p'.Fits v' := by
  obtain ⟨k, hk, hnext⟩ := Option.bind_eq_some_iff.1 hnext
  obtain ⟨dir, hdir, hnext⟩ := Option.bind_eq_some_iff.1 hnext
  split at hnext
  · rename_i hguard
    obtain ⟨hfree, hkind, htakes, hnew, hlinks⟩ := hguard
    obtain ⟨hslot, hname⟩ := takes_iff.1 htakes
    obtain rfl := Option.some.inj hnext
    have hdirectory := directory_of_free hslot
    rw [← h.members] at hslot hnew hdir hdirectory
    have hens := Volume.create_members h.sound parent name mode owner now
    cases hrun : Volume.create parent name mode owner now v with
    | ok n v' =>
      have hcreated := hens.of_ok hrun
      obtain ⟨inodes, htake⟩ := hcreated.taken
      obtain ⟨-, inodes', htake'⟩ := h.take_eq hk
      obtain ⟨rfl, -⟩ := Prod.mk.inj (Option.some.inj (Except.ok.inj (htake.symm.trans htake')))
      have hr : (Request.create parent name mode owner now).Returns v v' := .inl ⟨_, hrun⟩
      obtain ⟨hsound, htotal⟩ := h.sound_shape hr
      refine ⟨_, v', rfl, hsound, ?_, htotal, ?_⟩
      · rw [hcreated.members, h.members]
      · have hless := hcreated.free hslot
        have hle := h.free
        simp only
        omega
    | error stop v' =>
      cases stop with
      | trap t =>
        obtain ⟨-, m, hm, hfull⟩ := hens.of_trap hrun
        obtain rfl := Option.some.inj (hdir.symm.trans hm)
        omega
      | failure e =>
        obtain ⟨-, hcause⟩ := hens.of_failure hrun
        obtain ⟨hexists, -⟩ | ⟨-, hrefused⟩ := hcause hdirectory hname
        · exact absurd hnew hexists
        · exact absurd hrefused (h.not_refused hk hfree hkind hslot)
  · cases hnext

theorem Fits.insert (h : p.Fits v) {dir target : UInt32} {name : String} {now : Int64}
    (hnext : p.next? (.insert dir name target now) = some p') :
    ∃ v', (Request.insert dir name target now).Returns v v' ∧ p'.Fits v' := by
  rw [next?] at hnext
  split at hnext
  · rename_i hguard
    obtain ⟨hlive, htakes⟩ := hguard
    obtain ⟨hslot, hname⟩ := takes_iff.1 htakes
    obtain rfl := Option.some.inj hnext
    have hdirectory := directory_of_free hslot
    rw [Option.isSome_iff_ne_none] at hlive
    rw [← h.members] at hslot hlive hdirectory
    have hnumber := Volume.number_of_members hlive
    obtain ⟨u, v', hrun, -, hmembers, v₁, hentered, hspace⟩ :=
      (Volume.insert_members h.sound dir name target now).exists_ok
        (fun _ _ hfailed => not_full hslot (hfailed.2 hlive hdirectory hname hnumber)) fun h => h
    have hr : (Request.insert dir name target now).Returns v v' := .inl ⟨u, hrun⟩
    obtain ⟨hsound, htotal⟩ := h.sound_shape hr
    refine ⟨v', hr, hsound, ?_, htotal, ?_⟩
    · rw [hmembers, h.members]
    · rw [hspace, hentered.space hslot]
      exact h.free
  · cases hnext

theorem Fits.remove (h : p.Fits v) {parent : UInt32} {name : String} {now : Int64}
    (hnext : p.next? (.remove parent name now) = some p') :
    ∃ n v', Volume.remove parent name now v = .ok n v' ∧ p'.Fits v' := by
  obtain ⟨n, hfound, hnext⟩ := Option.bind_eq_some_iff.1 hnext
  obtain ⟨target, htarget, hnext⟩ := Option.bind_eq_some_iff.1 hnext
  split at hnext
  · rename_i hspare
    obtain rfl := Option.some.inj hnext
    rw [← h.members] at hfound htarget
    obtain ⟨v', hok, hmembers, hfree⟩ := h.sound.remove_ok hfound htarget hspare now
    have hr : (Request.remove parent name now).Returns v v' := .inl ⟨n, hok⟩
    obtain ⟨hsound, htotal⟩ := h.sound_shape hr
    refine ⟨n, v', hok, hsound, ?_, htotal, Nat.le_trans h.free hfree⟩
    rw [hmembers, h.members]
  · cases hnext

theorem Fits.next (h : p.Fits v) (hnext : p.next? r = some p') :
    ∃ v', r.Returns v v' ∧ p'.Fits v' := by
  cases r with
  | create =>
    obtain ⟨n, v', hok, hfits⟩ := h.create hnext
    exact ⟨v', .inl ⟨n, hok⟩, hfits⟩
  | insert => exact h.insert hnext
  | remove =>
    obtain ⟨n, v', hok, hfits⟩ := h.remove hnext
    exact ⟨v', .inl ⟨n, hok⟩, hfits⟩
  | createInode => cases hnext
  | write => cases hnext
  | allocateExtent => cases hnext

theorem Fits.run {l : List Request} (h : p.Fits v) (hrun : p.run? l = some p') :
    ∃ v', Request.Sequence l v v' ∧ p'.Fits v' := by
  induction l generalizing p v with
  | nil =>
    obtain rfl := Option.some.inj hrun
    exact ⟨v, rfl, h⟩
  | cons r rest ih =>
    obtain ⟨p₁, hnext, hrest⟩ := Option.bind_eq_some_iff.1 hrun
    obtain ⟨v₁, hr, h₁⟩ := h.next hnext
    obtain ⟨v', hrun', h'⟩ := ih h₁ hrest
    exact ⟨v', ⟨v₁, hr, hrun'⟩, h'⟩

theorem run_formatted {g : Geometry} (h : Volume.Formatted g v) {l : List Request}
    {P : Draft → Bool} (hrun : ((fresh g).run? l).any P = true) :
    ∃ v' p, Request.Sequence l v v' ∧ p.Fits v' ∧ P p = true := by
  obtain ⟨p, hp, hP⟩ := (Option.any_eq_true _ _).1 hrun
  obtain ⟨v', hsequence, hfits⟩ := (fits_of_formatted h).run hp
  exact ⟨v', p, hsequence, hfits, hP⟩

end Draft

end ExtentVolume
