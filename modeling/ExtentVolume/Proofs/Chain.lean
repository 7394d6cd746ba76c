import ExtentVolume.Proofs.Rehearsal

namespace ExtentVolume

open Directory

theorem Directory.room_placed {entry : Entry} (hused : entry.isFree = false) {l : List Entry}
    (hroom : 0 < l.countP (·.isFree)) :
    (placed entry l).countP (·.isFree) + 1 = l.countP (·.isFree) := by
  obtain ⟨e, he, hfree⟩ := List.countP_pos_iff.1 hroom
  have hany : l.any (·.isFree) = true := List.any_eq_true.2 ⟨e, he, hfree⟩
  obtain ⟨e, he⟩ := Option.isSome_iff_exists.1 (List.find?_isSome.2 (List.any_eq_true.1 hany))
  obtain ⟨before, behind, rfl, hset⟩ := set_findIdx he
  rw [placed, if_pos hany, hset]
  have hfree : e.isFree = true := List.find?_some he
  simp only [List.countP_append, List.countP_cons, hfree, hused, Bool.false_eq_true, if_true,
    if_false]
  omega

namespace Draft

variable {p : Draft} {l l' : List Request}

theorem run?_append : p.run? (l ++ l') = (p.run? l).bind (run? · l') := by
  induction l generalizing p with
  | nil => rfl
  | cons r rest ih =>
    rw [List.cons_append, run?, run?, Option.bind_assoc]
    exact congrArg _ (funext fun p₁ => ih)

/-- Names of `target` were put into a directory, and each of them is a link. -/
structure Named (dir target : UInt32) (t : Member) (count : Nat) (p p' : Draft) : Prop where
  inodes : p'.inodes = p.inodes
  free : p'.free = p.free
  directory : p'.ns dir ≠ none
  linked : p'.ns target = some (t.onLinks (· + count))
  others : ∀ n, n ≠ dir → n ≠ target → p'.ns n = p.ns n

theorem next?_insert {dir target : UInt32} {name : String} {m t : Member}
    (hname : Entry.checkName name = .ok ()) (hne : dir ≠ target) (hdir : p.ns dir = some m)
    (ht : p.ns target = some t) (hslot : m.entries.any (·.isFree) = true)
    (hlinks : t.links + 1 < UInt16.size) :
    ∃ p₁, p.next? (.insert dir name target 0) = some p₁ ∧ Named dir target t 1 p p₁ ∧
      p₁.ns dir = some (m.onSlots (placed ⟨Entry.fieldOf name, target⟩)) := by
  have htakes : p.takes dir name = true := takes_iff.2 ⟨by rw [Namespace.entries, hdir]; exact hslot,
    hname⟩
  have hsome : (p.ns target).isSome = true := by rw [ht]; rfl
  have hcount : min (t.links + 1) (UInt16.size - 1) = t.links + 1 := by omega
  have htarget : p.ns.insert dir name target target = some (t.onLinks (· + 1)) := by
    rw [Namespace.insert, Namespace.edit_self, Namespace.enter, Namespace.edit_ne hne.symm, ht,
      Option.map_some, Member.onLinks, hcount]
    rfl
  have hdir' : p.ns.insert dir name target dir =
      some (m.onSlots (placed ⟨Entry.fieldOf name, target⟩)) := by
    rw [Namespace.insert, Namespace.edit_ne hne, Namespace.enter, Namespace.edit_self, hdir]
    rfl
  have hothers : ∀ n, n ≠ dir → n ≠ target → p.ns.insert dir name target n = p.ns n :=
    fun n hn hn' => by
      rw [Namespace.insert, Namespace.edit_ne hn', Namespace.enter, Namespace.edit_ne hn]
  exact ⟨{ p with ns := p.ns.insert dir name target }, if_pos ⟨hsome, htakes⟩,
    ⟨rfl, rfl, hdir'.trans_ne (Option.some_ne_none _), htarget, hothers⟩, hdir'⟩

theorem run?_inserts {dir target : UInt32} {name : String} {m t : Member} {k : Nat}
    (hname : Entry.checkName name = .ok ()) (hne : dir ≠ target) (htarget : target ≠ 0)
    (hdir : p.ns dir = some m) (ht : p.ns target = some t)
    (hroom : k ≤ m.entries.countP (·.isFree)) (hlinks : t.links + k < UInt16.size) :
    ∃ p', p.run? (List.replicate k (.insert dir name target 0)) = some p' ∧
      Named dir target t k p p' := by
  induction k generalizing p m t with
  | zero => exact ⟨p, rfl, rfl, rfl, by rw [hdir]; exact Option.some_ne_none _, ht, fun _ _ _ => rfl⟩
  | succ k ih =>
    have hpos : 0 < m.entries.countP (·.isFree) := by omega
    obtain ⟨e, he, hfree⟩ := List.countP_pos_iff.1 hpos
    obtain ⟨p₁, hnext, hnamed, hdir₁⟩ := next?_insert hname hne hdir ht
      (List.any_eq_true.2 ⟨e, he, hfree⟩) (by omega)
    have hentries : (m.onSlots (placed ⟨Entry.fieldOf name, target⟩)).entries =
        placed ⟨Entry.fieldOf name, target⟩ m.entries := by
      cases hslots : m.slots with
      | none => simp [Member.entries, hslots] at he
      | some l => simp [Member.onSlots, Member.entries, hslots]
    have hused : Entry.isFree ⟨Entry.fieldOf name, target⟩ = false := by
      simpa [Entry.isFree] using htarget
    have hplaced := room_placed hused hpos
    have hlinks₁ : (t.onLinks (· + 1)).links + k < UInt16.size := by
      simp only [Member.onLinks]
      omega
    obtain ⟨p', hrun, hnamed'⟩ := ih hdir₁ hnamed.linked (by rw [hentries]; omega) hlinks₁
    refine ⟨p', by rw [List.replicate_succ, run?, hnext, Option.bind_some, hrun],
      hnamed'.inodes.trans hnamed.inodes, hnamed'.free.trans hnamed.free, hnamed'.directory, ?_,
      fun n hn hn' => (hnamed'.others n hn hn').trans (hnamed.others n hn hn')⟩
    rw [hnamed'.linked]
    simp only [Member.onLinks, Nat.add_assoc, Nat.add_comm 1 k]

/-- Inodes 1 to `i` of 519 are in use, and as many of 520 blocks. -/
structure Filled (p : Draft) (i : Nat) : Prop where
  used : ∀ k, 0 < k → k ≤ i → p.ns (.ofNat k) ≠ none
  unused : ∀ k, i < k → k < 520 → p.ns (.ofNat k) = none
  inodes : p.inodes = 520
  free : p.free + i = 520

theorem ofNat_ne {j k : Nat} (hj : j < 520) (hk : k < 520) (h : j ≠ k) :
    UInt32.ofNat j ≠ .ofNat k := by
  intro heq
  apply h
  have hnat := congrArg UInt32.toNat heq
  rwa [UInt32.toNat_ofNat_of_lt' (Nat.lt_trans hj (by decide)),
    UInt32.toNat_ofNat_of_lt' (Nat.lt_trans hk (by decide))] at hnat

theorem Filled.lowestFree {i : Nat} (h : p.Filled i) (hi : i + 1 < 520) :
    p.lowestFree? = some (i + 1) := by
  have hnext := h.unused (i + 1) (by omega) hi
  have hinodes := h.inodes
  cases hk : p.lowestFree? with
  | none =>
    have hused := Bitmap.firstFrom_none hk (k := i + 1) (by omega) (by omega)
    rw [hnext] at hused
    cases hused
  | some k =>
    obtain ⟨hpos, hlt, hnone, hbelow⟩ := Bitmap.firstFrom_some hk
    obtain hle | rfl | hgt := Nat.lt_trichotomy k (i + 1)
    · rw [Option.isNone_iff_eq_none] at hnone
      exact absurd hnone (h.used k hpos (by omega))
    · rfl
    · have hused := hbelow (i + 1) (by omega) hgt
      rw [hnext] at hused
      cases hused

theorem Filled.create {i k : Nat} {m : Member} (h : p.Filled i) (hi : i + 1 < 520) (hpos : 0 < k)
    (hk : k ≤ i) (hm : p.ns (.ofNat k) = some m) (hslot : m.entries.any (·.isFree) = true)
    (hnew : m.lookup "d" = none) (hlinks : m.links + 1 < UInt16.size) :
    ∃ p', p.next? (.create (.ofNat k) "d" .defaultDirectory default 0) = some p' ∧
      p'.Filled (i + 1) ∧
      p'.ns = p.ns.create (.ofNat k) "d" .defaultDirectory (.ofNat (i + 1)) := by
  have hmode : Mode.defaultDirectory.isDirectory = true := rfl
  have hne : UInt32.ofNat (i + 1) ≠ .ofNat k := ofNat_ne hi (by omega) (by omega)
  have hother : ∀ j, j < 520 → j ≠ i + 1 → j ≠ k →
      p.ns.create (.ofNat k) "d" .defaultDirectory (.ofNat (i + 1)) (.ofNat j) = p.ns (.ofNat j) :=
    fun j hj hne hne' => Namespace.create_ne (ofNat_ne hj hi hne) (ofNat_ne hj (by omega) hne')
  have htakes : p.takes (.ofNat k) "d" = true :=
    takes_iff.2 ⟨by rw [Namespace.entries, hm]; exact hslot, rfl⟩
  have hlookup : p.ns.lookup (.ofNat k) "d" = none := by
    rw [Namespace.lookup, hm]
    exact hnew
  have hfree := h.free
  refine ⟨{ p with
      ns := p.ns.create (.ofNat k) "d" .defaultDirectory (.ofNat (i + 1)), free := p.free - 1 },
    ?_, ⟨fun j hj hle => ?_, fun j hj hlt => ?_, h.inodes, ?_⟩, rfl⟩
  · simp only [next?, h.lowestFree hi, hm, Option.bind_eq_bind, Option.bind_some]
    exact if_pos ⟨by omega, rfl, htakes, hlookup, hlinks⟩
  · simp only
    by_cases hself : j = i + 1
    · rw [hself, Namespace.create_self hne]
      exact Option.some_ne_none _
    by_cases hparent : j = k
    · rw [hparent, Namespace.create_parent hne hm]
      exact Option.some_ne_none _
    rw [hother j (by omega) hself hparent]
    exact h.used j hj (by omega)
  · simp only
    rw [hother j hlt (by omega) (by omega)]
    exact h.unused j (by omega) hlt
  · simp only
    omega

def newDirectory : Member := ⟨2, some (List.replicate Entry.slotsPerBlock blankEntry)⟩

def chainRoot (links : Nat) : Member :=
  ⟨links, some (placed ⟨Entry.fieldOf "d", 2⟩ (List.replicate Entry.slotsPerBlock blankEntry))⟩

/-- The chain ends in directory `i`, and the root counts so many links. -/
structure Chain (i links : Nat) (p : Draft) : Prop where
  filled : p.Filled i
  last : p.ns (.ofNat i) = some newDirectory
  root : p.ns 1 = some (chainRoot links)

def link (i : Nat) : List Request :=
  .create (.ofNat i) "d" .defaultDirectory default 0 ::
    List.replicate 127 (.insert (.ofNat i) "r" 1 0)

theorem Chain.link {i links : Nat} (h : Chain i links p) (htwo : 2 ≤ i) (hi : i + 1 < 520)
    (hlinks : links + 127 < UInt16.size) :
    ∃ p', p.run? (link i) = some p' ∧ Chain (i + 1) (links + 127) p' := by
  have hmode : Mode.defaultDirectory.isDirectory = true := rfl
  have hone : UInt32.ofNat i ≠ 1 := ofNat_ne (k := 1) (by omega) (by decide) (by omega)
  have hnext : UInt32.ofNat (i + 1) ≠ 1 := ofNat_ne (k := 1) hi (by decide) (by omega)
  have hne : UInt32.ofNat (i + 1) ≠ .ofNat i := ofNat_ne hi (by omega) (by omega)
  obtain ⟨p₁, hcreate, hfilled, hns⟩ := h.filled.create hi (by omega) (Nat.le_refl _) h.last
    (by decide +kernel) (by decide +kernel) (by decide)
  have hparent : p₁.ns (.ofNat i) = some
      ((newDirectory.onSlots (placed ⟨Entry.fieldOf "d", .ofNat (i + 1)⟩)).onLinks (· + 1)) := by
    rw [hns]
    exact Namespace.create_parent hne h.last
  have hroot : p₁.ns 1 = some (chainRoot links) := by
    rw [hns, Namespace.create_ne hnext.symm hone.symm]
    exact h.root
  have hnew : Entry.isFree ⟨Entry.fieldOf "d", .ofNat (i + 1)⟩ = false := by
    have hzero : UInt32.ofNat (i + 1) ≠ 0 := ofNat_ne (k := 0) hi (by decide) (by omega)
    simpa [Entry.isFree] using hzero
  have hroom := Directory.room_placed hnew
    (l := List.replicate Entry.slotsPerBlock blankEntry) (by decide +kernel)
  have hblank : (List.replicate Entry.slotsPerBlock blankEntry).countP (·.isFree) = 128 := by
    decide +kernel
  have hname : Entry.checkName "r" = .ok () := rfl
  obtain ⟨p', hrun, hnamed⟩ := run?_inserts (k := 127) hname hone (by decide) hparent hroot (by
    change 127 ≤ (placed _ (List.replicate Entry.slotsPerBlock blankEntry)).countP _
    omega) hlinks
  refine ⟨p', by rw [Draft.link, run?, hcreate, Option.bind_some, hrun], ?_, ?_, hnamed.linked⟩
  · refine ⟨fun k hk hle => ?_, fun k hk hlt => ?_, hnamed.inodes.trans hfilled.inodes,
      by rw [hnamed.free]; exact hfilled.free⟩
    · by_cases hdir : UInt32.ofNat k = .ofNat i
      · rw [hdir]
        exact hnamed.directory
      by_cases hself : UInt32.ofNat k = 1
      · rw [hself, hnamed.linked]
        exact Option.some_ne_none _
      rw [hnamed.others _ hdir hself]
      exact hfilled.used k hk hle
    · have hdir : UInt32.ofNat k ≠ .ofNat i := ofNat_ne hlt (by omega) (by omega)
      have hself : UInt32.ofNat k ≠ 1 := ofNat_ne (k := 1) hlt (by decide) (by omega)
      rw [hnamed.others _ hdir hself]
      exact hfilled.unused k hk hlt
  · rw [hnamed.others _ hne hnext, hns, Namespace.create_self hne]
    rfl

def chain : Nat → List Request
  | 0 => [.create 1 "d" .defaultDirectory default 0]
  | n + 1 => chain n ++ link (n + 2)

theorem chain_fresh {n : Nat} (hn : n ≤ 516) :
    ∃ p, (fresh ⟨520, 520⟩).run? (chain n) = some p ∧ Chain (n + 2) (3 + 127 * n) p := by
  induction n with
  | zero =>
    have hfilled : (fresh ⟨520, 520⟩).Filled 1 := by
      refine ⟨fun k hk hle => ?_, fun k hk hlt => ?_, rfl, rfl⟩
      · obtain rfl : k = 1 := by omega
        exact Option.some_ne_none _
      · have hne : UInt32.ofNat k ≠ 1 := ofNat_ne (k := 1) hlt (by decide) (by omega)
        change Namespace.set (fun _ => none) 1 _ (.ofNat k) = none
        rw [Namespace.set_ne hne]
    obtain ⟨p, hcreate, hfilled', hns⟩ := hfilled.create (k := 1) (m := newDirectory) (by decide)
      (by decide) (Nat.le_refl _) rfl (by decide +kernel) (by decide +kernel) (by decide)
    refine ⟨p, by rw [chain, run?]; exact congrArg (Option.bind · _) hcreate, hfilled', ?_, ?_⟩
    · rw [hns]
      exact Namespace.create_self (by decide)
    · rw [hns]
      exact Namespace.create_parent (m := newDirectory) (by decide) rfl
  | succ n ih =>
    obtain ⟨p, hrun, hchain⟩ := ih (by omega)
    obtain ⟨p', hlink, hchain'⟩ := hchain.link (by omega) (by omega) (by
      simp only [UInt16.size]
      omega)
    exact ⟨p', by rw [chain, run?_append, hrun, Option.bind_some, hlink], hchain'⟩

theorem chain_formatted {v : Volume} (h : Volume.Formatted ⟨520, 520⟩ v) {n : Nat} (hn : n ≤ 516) :
    ∃ v' p, Request.Run v v' ∧ p.Fits v' ∧ Chain (n + 2) (3 + 127 * n) p := by
  obtain ⟨p, hp, hchain⟩ := chain_fresh hn
  obtain ⟨v', hsequence, hfits⟩ := (fits_of_formatted h).run hp
  exact ⟨v', p, hsequence.run, hfits, hchain⟩

end Draft

end ExtentVolume
