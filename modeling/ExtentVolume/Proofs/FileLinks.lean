import ExtentVolume.Proofs.LastName
import ExtentVolume.Proofs.Verdict

namespace ExtentVolume

open Directory (blankEntry cleared)

def Request.NamesFiles (ns : Namespace) : Request → Prop
  | .createInode .. => False
  | .insert _ _ target _ => ns.isDirectory target = false
  | _ => True

/-- The namespace is balanced, the links of every file are its names, and the slot for a directory
is in the directory that it was created in. -/
structure Linked (ns : Namespace) (o : Origins) : Prop where
  balanced : Balanced ns o
  file : ∀ n links, n ≠ 0 → ns.kind n = some (false, links) → links = ns.names n
  single : ∀ n, n ≠ 0 → ns.isDirectory n = true → ns.names n ≤ 1
  home : ∀ d n, n ≠ 0 → ns.isDirectory n = true → mentions n (ns d) ≠ 0 → o n = some d

namespace Namespace

variable {ns : Namespace} {parent n k d : UInt32} {name : String} {target : Member} {mode : Mode}

theorem mentions_remove (hk : k ≠ 0) (hfound : ns.lookup parent name = some n) (d : UInt32) :
    mentions k (ns.remove parent name n target d) ≤ mentions k (ns d) := by
  have hclear := @mentions_clear n k ns parent d name hk hfound
  cases hone : target.hasOneName with
  | false =>
    rw [remove_kept hone, mentions_onLinks]
    omega
  | true =>
    rw [remove_last hone, set_apply]
    split
    · exact Nat.zero_le _
    · split
      · rw [mentions_onLinks]
        omega
      · omega

theorem isDirectory_of_remove (hd : (ns.remove parent name n target).isDirectory k = true) :
    ns.isDirectory k = true := by
  by_cases hk : k = n
  · rw [isDirectory_eq] at hd ⊢
    cases hone : target.hasOneName with
    | false => rwa [kind_remove_kept hone, if_pos hk, Option.any_map] at hd
    | true =>
      rw [kind_remove_last hone, if_pos hk] at hd
      cases hd
  · rwa [isDirectory_remove hk] at hd

theorem kind_of_remove {links : Nat} (hdirectory : ns.isDirectory parent = true)
    (hkind : (ns.remove parent name n target).kind k = some (false, links)) :
    ∃ links₀, ns.kind k = some (false, links₀) ∧ links = links₀ - if n = k then 1 else 0 := by
  obtain ⟨count, hparent⟩ := kind_of_isDirectory hdirectory
  cases hone : target.hasOneName with
  | false =>
    rw [kind_remove_kept hone] at hkind
    split at hkind
    · rename_i hk
      obtain ⟨⟨b, links₀⟩, hold, hnew⟩ := Option.map_eq_some_iff.1 hkind
      obtain ⟨rfl, rfl⟩ := Prod.mk.inj hnew
      exact ⟨links₀, hold, by rw [if_pos hk.symm]⟩
    · rename_i hk
      exact ⟨links, hkind, by rw [if_neg (Ne.symm hk), Nat.sub_zero]⟩
  | true =>
    rw [kind_remove_last hone] at hkind
    split at hkind
    · cases hkind
    · rename_i hk
      split at hkind
      · rename_i hp
        rw [hp.1, hparent] at hkind
        cases hkind
      · exact ⟨links, hkind, by rw [if_neg (Ne.symm hk), Nat.sub_zero]⟩

theorem mentions_create (hk : k ≠ 0) (hdirectory : ns.isDirectory parent = true)
    (hfresh : ns n = none) (d : UInt32) :
    mentions k (ns.create parent name mode n d) =
      mentions k (ns d) + if d = parent ∧ n = k then 1 else 0 := by
  have hne := ne_of_isDirectory hdirectory hfresh
  have hdirectory' : (ns.set n (some (.ofMode mode))).isDirectory parent = true := by
    rw [isDirectory, set_ne hne]
    exact hdirectory
  have hset : mentions k (ns.set n (some (.ofMode mode)) d) = mentions k (ns d) := by
    rw [set_apply]
    split
    · rename_i hd
      rw [hd, hfresh, mentions_ofMode hk]
      rfl
    · rfl
  have hentered : mentions k ((ns.set n (some (.ofMode mode))).enter parent name n d) =
      mentions k (ns d) + if d = parent ∧ n = k then 1 else 0 := by
    rw [mentions_enter hk hdirectory', hset]
  rw [create]
  split
  · rw [mentions_onLinks, mentions_onLinks, hentered]
  · exact hentered

theorem none_iff_of_isDirectory {ns' : Namespace} (h' : ns'.isDirectory n = true)
    (h : ns.isDirectory n = true) : ns' n = none ↔ ns n = none := by
  obtain ⟨m', hm', -⟩ := isDirectory_iff.1 h'
  obtain ⟨m, hm, -⟩ := isDirectory_iff.1 h
  simp [hm, hm']

theorem mentions_pos (hfound : ns.lookup parent name = some n) : mentions n (ns parent) ≠ 0 := by
  have hclear := @mentions_clear n n ns parent parent name (lookup_ne_zero hfound) hfound
  rw [if_pos ⟨rfl, rfl⟩] at hclear
  omega

end Namespace

namespace Linked

variable {ns ns' : Namespace} {o : Origins} {r : Request} {n : UInt32}

theorem rooted : Linked .rooted .root := by
  refine ⟨.rooted, fun k links _ hkind => ?_, fun k hk _ => ?_, fun d k hk _ hmention => ?_⟩
  · rw [Namespace.kind_rooted] at hkind
    split at hkind <;> cases hkind
  · rw [Namespace.names_rooted hk]
    exact Nat.zero_le 1
  · exact absurd (Namespace.mentions_rooted hk d) hmention

theorem of_fewer (h : Linked ns o) (hbalanced : Balanced ns' (o.after ns r ns'))
    (hfile : ∀ n links, n ≠ 0 → ns'.kind n = some (false, links) → links = ns'.names n)
    (hdirectory : ∀ n, ns'.isDirectory n = true → ns.isDirectory n = true)
    (hfewer : ∀ d n, n ≠ 0 → ns.isDirectory n = true → mentions n (ns' d) ≤ mentions n (ns d)) :
    Linked ns' (o.after ns r ns') := by
  refine ⟨hbalanced, hfile, fun n hn hd => ?_, fun d n hn hd hmention => ?_⟩
  · have hle : ns'.names n ≤ ns.names n :=
      Namespace.names_le fun d => hfewer d n hn (hdirectory n hd)
    exact hle.trans (h.single n hn (hdirectory n hd))
  · have hold := hdirectory n hd
    have hle := hfewer d n hn hold
    rw [Origins.after_kept h.balanced.dead (Namespace.none_iff_of_isDirectory hd hold)]
    exact h.home d n hn hold (by omega)

theorem names_fresh (h : Linked ns o) (hn : n ≠ 0) (hfresh : ns n = none) : ns.names n = 0 := by
  have hcounts := h.balanced.counts n hn
  rw [Namespace.kind_eq_none_iff.2 hfresh] at hcounts
  exact hcounts.1

theorem create (h : Linked ns o) {parent : UInt32} {name : String} {mode : Mode} {owner : Owner}
    {now : Int64} (hdirectory : ns.isDirectory parent = true) (hfresh : ns n = none) (hn : n ≠ 0) :
    Linked (ns.create parent name mode n)
      (o.after ns (.create parent name mode owner now) (ns.create parent name mode n)) := by
  have hne := Namespace.ne_of_isDirectory hdirectory hfresh
  have hnone := h.names_fresh hn hfresh
  obtain ⟨links₀, hparent⟩ := Namespace.kind_of_isDirectory hdirectory
  have hold : ∀ k, k ≠ n → (ns.create parent name mode n).isDirectory k = true →
      ns.isDirectory k = true := by
    intro k hk hd
    rwa [Namespace.isDirectory_create hne, if_neg hk] at hd
  refine ⟨h.balanced.create hdirectory hfresh, fun k links hk hkind => ?_, fun k hk hd => ?_,
    fun d k hk hd hmention => ?_⟩
  · rw [Namespace.kind_create hne] at hkind
    rw [Namespace.names_create hk hdirectory hfresh]
    by_cases hkn : k = n
    · subst hkn
      rw [if_pos rfl] at hkind
      rw [hnone, if_pos rfl]
      cases hmode : mode.isDirectory with
      | true => simp [hmode] at hkind
      | false => simpa [hmode, eq_comm] using hkind
    · rw [if_neg hkn] at hkind
      rw [if_neg (Ne.symm hkn), Nat.add_zero]
      split at hkind
      · rename_i hp
        rw [hp.1, hparent] at hkind
        cases hkind
      · exact h.file k links hk hkind
  · rw [Namespace.names_create hk hdirectory hfresh]
    by_cases hkn : k = n
    · subst hkn
      rw [hnone, if_pos rfl]
    · rw [if_neg (Ne.symm hkn), Nat.add_zero]
      exact h.single k hk (hold k hkn hd)
  · rw [Namespace.mentions_create hk hdirectory hfresh] at hmention
    rw [h.balanced.origin_create hne hfresh]
    by_cases hkn : k = n
    · subst hkn
      have hmode : mode.isDirectory = true := by
        rwa [Namespace.isDirectory_create hne, if_pos rfl] at hd
      have hslot : mentions k (ns d) = 0 := by
        have hle := @Namespace.mentions_le_names k ns d
        omega
      rw [Function.update_self, if_pos hmode]
      by_cases hp : d = parent
      · rw [hp]
      · rw [hslot, if_neg fun h => hp h.1] at hmention
        exact absurd rfl hmention
    · rw [if_neg fun h => hkn h.2.symm, Nat.add_zero] at hmention
      rw [Function.update_of_ne hkn]
      exact h.home d k hk (hold k hkn hd) hmention

theorem insert (h : Linked ns o) {dir target : UInt32} {name : String} {t : Member}
    (hdirectory : ns.isDirectory dir = true) (htarget : ns target = some t) (hn : target ≠ 0)
    (hfile : ns.isDirectory target = false)
    (hbound : (ns.insert dir name target).names target < UInt16.size) :
    Linked (ns.insert dir name target) (o.after ns r (ns.insert dir name target)) := by
  have hkind : ns.kind target = some (false, t.links) := by
    rw [Namespace.isDirectory, htarget, Option.any_some] at hfile
    rw [Namespace.kind, htarget, Option.map_some, hfile]
  have hlinks := h.file target t.links hn hkind
  have hnames : ∀ k, k ≠ 0 → (ns.insert dir name target).names k =
      ns.names k + if target = k then 1 else 0 := fun k hk => Namespace.names_insert hk hdirectory
  rw [hnames target hn, if_pos rfl, ← hlinks] at hbound
  have hsame : ∀ k, (ns.insert dir name target).isDirectory k = ns.isDirectory k := by
    intro k
    rw [Namespace.isDirectory_eq, Namespace.kind_insert, Namespace.isDirectory_eq]
    split
    · exact Option.any_map
    · rfl
  refine h.of_fewer (h.balanced.insert hdirectory htarget hn hbound) (fun k links hk hk' => ?_)
    (fun k hd => hsame k ▸ hd) (fun d k hk hd => ?_)
  · rw [Namespace.kind_insert] at hk'
    rw [hnames k hk]
    by_cases hkt : k = target
    · subst hkt
      rw [if_pos rfl, hkind, Option.map_some, Option.some.injEq, Prod.mk.injEq] at hk'
      rw [if_pos rfl, ← hk'.2, ← hlinks]
      omega
    · rw [if_neg hkt] at hk'
      rw [if_neg (Ne.symm hkt), Nat.add_zero]
      exact h.file k links hk hk'
  · have hne : target ≠ k := by
      rintro rfl
      rw [hfile] at hd
      cases hd
    rw [Namespace.insert, Namespace.mentions_onLinks, Namespace.mentions_enter hk hdirectory,
      if_neg fun h => hne h.2]
    exact Nat.le_refl _

theorem origin_of_lookup (h : Linked ns o) {parent : UInt32} {name : String} {target : Member}
    (hfound : ns.lookup parent name = some n) (htarget : ns n = some target)
    (hdirectory : target.isDirectory = true) : o n = some parent :=
  h.home parent n (Namespace.lookup_ne_zero hfound)
    (Namespace.isDirectory_iff.2 ⟨target, htarget, hdirectory⟩) (Namespace.mentions_pos hfound)

theorem remove (h : Linked ns o) {parent : UInt32} {name : String} {target : Member}
    (hfound : ns.lookup parent name = some n) (htarget : ns n = some target)
    (hspare : target.maySpareName = true) :
    Linked (ns.remove parent name n target) (o.after ns r (ns.remove parent name n target)) := by
  have horigin := h.origin_of_lookup hfound htarget
  obtain ⟨dir, hdir, hdirectory, -⟩ := Namespace.directory_of_lookup hfound
  refine h.of_fewer (h.balanced.remove hfound htarget hspare fun hd _ => horigin hd)
    (fun k links hk hkind => ?_) (fun k hd => Namespace.isDirectory_of_remove hd)
    fun d k hk _ => Namespace.mentions_remove hk hfound d
  have hnames := Namespace.names_remove hk hfound htarget fun hone =>
    ⟨(h.balanced.last_apart hfound htarget hone horigin).2, Member.entries_free hspare hone⟩
  obtain ⟨links₀, hold, rfl⟩ :=
    Namespace.kind_of_remove (Namespace.isDirectory_iff.2 ⟨dir, hdir, hdirectory⟩) hkind
  rw [h.file k links₀ hk hold, ← hnames, Nat.add_sub_cancel]

theorem step (h : Linked ns o) (heffect : ns.Effect r ns') (hr : r.NamesFiles ns)
    (hbound : ∀ n, ns' n ≠ none → ns'.names n < UInt16.size) :
    Linked ns' (o.after ns r ns') := by
  cases heffect with
  | keep =>
    rw [Origins.after_eq_self h.balanced.dead fun _ => Iff.rfl]
    exact h
  | create hdirectory hname hfresh hnumber => exact h.create hdirectory hfresh hnumber
  | createInode hfresh hnumber => exact hr.elim
  | @insert dir target name now t hdirectory hname htarget hnumber =>
    refine h.insert hdirectory htarget hnumber hr (hbound target ?_)
    rw [← Namespace.kind_eq_none_iff.ne, Namespace.kind_insert, if_pos rfl, Namespace.kind, htarget]
    exact Option.some_ne_none _
  | remove hfound htarget hspare => exact h.remove hfound htarget hspare
  | @grow n count m hlive =>
    have hkind := @Namespace.kind_onSlots ns n
      (· ++ List.replicate (count.toNat * Entry.slotsPerBlock) blankEntry)
    have hmentions : ∀ d k, k ≠ 0 → mentions k (ns.edit n (.onSlots
        (· ++ List.replicate (count.toNat * Entry.slotsPerBlock) blankEntry)) d) =
          mentions k (ns d) := by
      intro d k hk
      rw [Namespace.mentions_edit hlive, Namespace.mentions_grown hk]
      split
      · rename_i hd
        rw [hd, hlive]
      · rfl
    refine h.of_fewer (h.balanced.onSlots fun k hk => Namespace.names_grow hk _)
      (fun k links hk hk' => ?_) (fun k hd => ?_) fun d k hk _ => (hmentions d k hk).le
    · rw [Namespace.names_grow hk]
      exact h.file k links hk (hkind ▸ hk')
    · rw [Namespace.isDirectory_eq, hkind, ← Namespace.isDirectory_eq] at hd
      exact hd

end Linked

theorem Balanced.names_lt {v : Volume} {o : Origins} (h : Balanced v.members o) {n : UInt32}
    (hn : v.live? n ≠ none) : v.members.names n < UInt16.size := by
  obtain ⟨node, hlive⟩ := Option.ne_none_iff_exists'.1 hn
  have hmember := Volume.members_live hlive
  have hcounts := h.counts n (Volume.number_of_members (hmember ▸ Option.some_ne_none _))
  have hlt := node.links.toNat_lt
  rw [Namespace.kind, hmember, Option.map_some] at hcounts
  simp only [UInt16.size]
  cases hd : (node.member v.data).isDirectory <;> rw [hd] at hcounts <;>
    simp only [Accounts, Inode.member] at hcounts <;> omega

namespace Volume

variable {v v' : Volume} {parent n : UInt32} {name : String} {node : Inode} {now : Int64}

/-- A call that names files came to an end, and no inode has more names than a counter can hold. -/
def FileStep (v v' : Volume) : Prop :=
  ∃ r : Request, r.NamesFiles v.members ∧ r.Returns v v' ∧
    ∀ n, v'.live? n ≠ none → v'.members.names n < UInt16.size

abbrev FileRun : Volume → Volume → Prop := Relation.ReflTransGen FileStep

theorem FileStep.linked (hstep : FileStep v v') (hv : v.Sound) {o : Origins}
    (h : Linked v.members o) : v'.Sound ∧ ∃ o', Linked v'.members o' := by
  obtain ⟨r, hr, hreturns, hbound⟩ := hstep
  refine ⟨Request.sound hv hreturns, _, h.step (Request.effect hv hreturns) hr fun n hn => ?_⟩
  exact hbound n fun hnone => hn (members_eq_none.2 hnone)

theorem FileRun.linked (hrun : FileRun v v') (hv : v.Sound) {o : Origins}
    (h : Linked v.members o) : v'.Sound ∧ ∃ o', Linked v'.members o' := by
  induction hrun with
  | refl => exact ⟨hv, o, h⟩
  | tail _ hstep ih =>
    obtain ⟨hsound, o', h'⟩ := ih
    exact hstep.linked hsound h'

theorem Formatted.linked {g : Geometry} (h : Formatted g v) : Linked v.members .root := by
  rw [h.members]
  exact .rooted

theorem FileStep.of_orderly {r : Request} {o : Origins} (hv : v.Sound)
    (h : Linked v.members o) (hreturns : r.Returns v v') (hr : r.NamesFiles v.members)
    (horderly : Orderly v.members o r) : FileStep v v' :=
  ⟨r, hr, hreturns, fun _ hn => (h.balanced.step (Request.effect hv hreturns) horderly).names_lt hn⟩

/-- The inode is out of use: its bit is clear, its record is blank, and its blocks are free. -/
structure Discarded (n : UInt32) (node : Inode) (v v' : Volume) : Prop where
  bit : v'.space.inodes.used n.toNat = false
  record : v'.table.get? n = some .blank
  blocks : ∀ b ∈ node.extents.blockNumbers, v'.space.blocks.used b = false
  free : v'.space.blocks.free.toNat =
    v.space.blocks.free.toNat + node.extents.blockNumbers.length

/-- The inode is in use as before, with the same extents and the same content. -/
structure Spared (n : UInt32) (node : Inode) (v v' : Volume) : Prop where
  bit : v'.space.inodes.used n.toNat = true
  record : ∃ node', v'.table.get? n = some node' ∧ node'.extents = node.extents ∧
    node'.size = node.size ∧ node'.blocks = node.blocks
  blocks : ∀ b ∈ node.extents.blockNumbers,
    v'.space.blocks.used b = true ∧ v'.data.block? b = v.data.block? b
  read : v'.read n = v.read n
  readAll : v'.readAll n = v.readAll n

theorem Removed.ne_parent (h : Removed parent name now v n v') (hlive : v.live? n = some node)
    (hfile : node.isDirectory = false) : n ≠ parent := by
  rintro rfl
  obtain ⟨dir, hdir, hdirectory, -⟩ := Namespace.directory_of_lookup h.found
  obtain rfl := Option.some.inj (hdir.symm.trans (members_live hlive))
  rw [isDirectory_member, hfile] at hdirectory
  cases hdirectory

theorem Removed.left_file (h : Removed parent name now v n v') (hv : v.Sound)
    (hlive : v.live? n = some node) (hfile : node.isDirectory = false) :
    ∃ v₁, Edited parent v v₁ ∧ v₁.space = v.space ∧ v₁.live? n = some node ∧
      Left n node now v₁ v' := by
  obtain ⟨v₁, node₁, hedited, hspace, hlive₁, hleft⟩ := h.left
  obtain rfl : node = node₁ := by
    rw [hedited.steps.live hv.whole (h.ne_parent hlive hfile), hlive] at hlive₁
    exact Option.some.inj hlive₁
  exact ⟨v₁, hedited, hspace, hlive₁, hleft⟩

theorem Removed.discarded (h : Removed parent name now v n v') (hv : v.Sound)
    (hlive : v.live? n = some node) (hfile : node.isDirectory = false)
    (hone : node.hasOneName = true) : Discarded n node v v' := by
  obtain ⟨v₁, hedited, hspace, hlive₁, hleft⟩ := h.left_file hv hlive hfile
  have hwhole₁ := hedited.steps.whole hv.whole
  have hfreed := hleft.freed hfile hone
  have hblocks := blocksOf_live hlive₁
  have hgiven : v₁.space.blocks.Becomes
      (fun b => v₁.space.blocks.used b = true ∧ b ∉ node.extents.blockNumbers) v'.space.blocks := by
    apply hfreed.blocks.congr
    intro b
    rw [hwhole₁.used_iff, owned_iff n, hblocks]
    constructor
    · intro hb
      exact ⟨.inr hb, fun hin => hwhole₁.not_foreign (hblocks.symm ▸ hin) hb⟩
    · rintro ⟨hb | hb, hout⟩
      · exact absurd hb hout
      · exact hb
  refine ⟨hfreed.unused, hfreed.blank, fun b hb => ?_, ?_⟩
  · rw [← Bool.not_eq_true, hgiven.used_iff]
    exact fun hused => hused.2 hb
  · rw [hgiven.free_add hwhole₁.exactBlocks, hspace]
    · exact hblocks ▸ hwhole₁.consistent.nodup n
    · intro b hb
      exact (hwhole₁.used_iff b).2 ⟨n, hblocks.symm ▸ hb⟩

theorem Removed.spared (h : Removed parent name now v n v') (hv : v.Sound) (hv' : v'.Sound)
    (hlive : v.live? n = some node) (hfile : node.isDirectory = false)
    (hmore : node.hasOneName = false) : Spared n node v v' := by
  obtain ⟨v₁, hedited, hspace, hlive₁, hleft⟩ := h.left_file hv hlive hfile
  have hkept := hleft.kept hmore
  obtain ⟨hused₁, hget₁⟩ := live?_eq_some.1 hlive₁
  have hused : v'.space.inodes.used n.toNat = true := by
    rw [hkept]
    exact hused₁
  have hget : v'.table.get? n = some ({ node with links := node.links - 1 }.setTimes now) := by
    rw [hkept]
    exact get?_set_self hget₁
  have hlive' := live?_eq_some.2 ⟨hused, hget⟩
  have hdata : ∀ b ∈ node.extents.blockNumbers, v'.data.block? b = v.data.block? b := by
    intro b hb
    rw [hkept]
    exact (hedited.steps.sameAt hv.whole (h.ne_parent hlive hfile)).blocks b
      (blocksOf_live hlive ▸ hb)
  have hcontent : Inode.content ({ node with links := node.links - 1 }.setTimes now) v'.data =
      node.content v.data := by
    apply List.map_congr_left
    intro i _
    exact byteIn_congr hdata i
  refine ⟨hused, ⟨_, hget, rfl, rfl, rfl⟩, fun b hb => ⟨?_, hdata b hb⟩, ?_, ?_⟩
  · exact (hv'.whole.used_iff b).2 ⟨n, by rwa [blocksOf_live hlive']⟩
  · funext offset length
    rw [hv.read_eq hlive, hv'.read_eq hlive', hcontent]
  · rw [hv.readAll_eq hlive, hv'.readAll_eq hlive', hcontent]

variable {D : Type} [BlockDevice D]

/-- The links of a file are the slots that name it, a directory has at most one name, and removing a
name gives a file back exactly if it was the last one. -/
theorem links_of_files_are_names (g : Geometry) (id : VolumeId) (time : Int64) (d d' : D)
    (v₀ v : Volume) (hformat : format g id time d = .ok v₀ d') (hrun : FileRun v₀ v) :
    (∀ n node, v.live? n = some node → node.isDirectory = false →
      node.links.toNat = v.members.names n) ∧
    (∀ n node, v.live? n = some node → node.isDirectory = true → v.members.names n ≤ 1) ∧
    ∀ parent name now n v', remove parent name now v = .ok n v' →
      ∃ node, v.live? n = some node ∧ (node.isDirectory = false →
        (v.members.names n = 1 → Discarded n node v v') ∧
        (v.members.names n ≠ 1 → Spared n node v v')) := by
  have hformatted := formatted_of_format hformat
  obtain ⟨hv, o, hlinked⟩ := hrun.linked hformatted.sound hformatted.linked
  have hnumber : ∀ {n node}, v.live? n = some node → n ≠ 0 := by
    intro n node hlive
    apply number_of_members (v := v)
    rw [members_live hlive]
    exact Option.some_ne_none _
  have hlinks : ∀ n node, v.live? n = some node → node.isDirectory = false →
      node.links.toNat = v.members.names n := by
    intro n node hlive hfile
    apply hlinked.file n _ (hnumber hlive)
    rw [Namespace.kind, members_live hlive, Option.map_some, isDirectory_member, hfile]
    rfl
  refine ⟨hlinks, fun n node hlive hdirectory => ?_, fun parent name now n v' hremove => ?_⟩
  · exact hlinked.single n (hnumber hlive) ((isDirectory_live hlive).trans hdirectory)
  · have hremoved := (remove_members hv parent name now).of_ok hremove
    have hv' : v'.Sound := Request.sound (r := .remove parent name now) hv (.inl ⟨n, hremove⟩)
    obtain ⟨target, htarget, -⟩ := hremoved.target
    obtain ⟨node, hlive, -⟩ := members_eq_some htarget
    have hpos := Namespace.names_pos hremoved.found
    refine ⟨node, hlive, fun hfile => ?_⟩
    have hone : node.hasOneName = true ↔ v.members.names n = 1 := by
      have hcount := hlinks n node hlive hfile
      rw [Inode.hasOneName, hfile, decide_eq_true_eq, UInt16.le_iff_toNat_le]
      change node.links.toNat ≤ 1 ↔ _
      omega
    refine ⟨fun hlast => hremoved.discarded hv hlive hfile (hone.2 hlast), fun hnot => ?_⟩
    exact hremoved.spared hv hv' hlive hfile (Bool.eq_false_iff.2 (mt hone.1 hnot))

def isFileWith (links : Nat) (m : Option Member) : Bool :=
  m.any fun m => !m.isDirectory && m.links == links

/-- The drafts of a file that gains a second name and loses both again. -/
def renamedDraft : Bool :=
  ((Draft.fresh ⟨4, 4⟩).next? (.create 1 "a" .defaultFile default 0)).any fun p =>
    isFileWith 1 (p.ns 2) && (p.next? (.insert 1 "b" 2 0)).any fun q =>
      q.ns.lookup 1 "a" == some 2 && isFileWith 2 (q.ns 2) &&
        (q.next? (.remove 1 "a" 0)).any fun s =>
          s.ns.lookup 1 "b" == some 2 && isFileWith 1 (s.ns 2)

theorem file_of_isFileWith {links : Nat} (h : isFileWith links (v.members n) = true) :
    v.members.isDirectory n = false ∧ ∃ node, v.live? n = some node ∧ node.isDirectory = false ∧
      node.links.toNat = links := by
  obtain ⟨m, hm, hfile⟩ := (Option.any_eq_true _ _).1 h
  obtain ⟨node, hlive, rfl⟩ := members_eq_some hm
  rw [Bool.and_eq_true, beq_iff_eq, Bool.not_eq_true', isDirectory_member] at hfile
  exact ⟨(isDirectory_live hlive).trans hfile.1, node, hlive, hfile.1, hfile.2⟩

theorem orderly_remove {o : Origins} (hfound : v.members.lookup parent name = some n)
    (hfile : v.members.isDirectory n = false) :
    Orderly v.members o (.remove parent name now) := by
  intro m t hfound' ht hd
  obtain rfl := Option.some.inj (hfound.symm.trans hfound')
  rw [Namespace.isDirectory, ht, Option.any_some, hd] at hfile
  cases hfile

theorem exists_renamed {id : VolumeId} {time : Int64} {d d' : D} {v₀ : Volume}
    (hformat : format ⟨4, 4⟩ id time d = .ok v₀ d') : ∃ v v₁, FileRun v₀ v ∧ FileStep v v₁ ∧
      remove 1 "a" 0 v = .ok 2 v₁ ∧ isFileWith 2 (v.members 2) = true ∧
      v₁.members.lookup 1 "b" = some 2 ∧ isFileWith 1 (v₁.members 2) = true := by
  have hformatted := formatted_of_format hformat
  have hdraft : renamedDraft = true := by decide +kernel
  obtain ⟨p, hp, hdraft⟩ := (Option.any_eq_true _ _).1 hdraft
  obtain ⟨hfile₀, hdraft⟩ := (Bool.and_eq_true _ _).mp hdraft
  obtain ⟨q, hq, hdraft⟩ := (Option.any_eq_true _ _).1 hdraft
  simp only [Bool.and_eq_true, beq_iff_eq, Option.any_eq_true] at hdraft
  obtain ⟨⟨hfound, hfile⟩, s, hs, hfound₁, hfile₁⟩ := hdraft
  obtain ⟨u, hru, hfits₀⟩ := (Draft.fits_of_formatted hformatted).next hp
  obtain ⟨v, hrv, hfits⟩ := hfits₀.next hq
  obtain ⟨n, v₁, hok, hfits₁⟩ := hfits.remove hs
  rw [← hfits₀.members] at hfile₀
  rw [← hfits.members] at hfound hfile
  rw [← hfits₁.members] at hfound₁ hfile₁
  obtain ⟨hkind₀, node₀, hlive₀, -, hlinks₀⟩ := file_of_isFileWith hfile₀
  have hstep₀ : FileStep v₀ u := .of_orderly hformatted.sound hformatted.linked hru trivial trivial
  obtain ⟨-, o₁, hlinked₁⟩ := hstep₀.linked hformatted.sound hformatted.linked
  have hstep : FileStep u v := by
    refine .of_orderly hfits₀.sound hlinked₁ hrv hkind₀ fun m hm => ?_
    obtain rfl := Option.some.inj ((members_live hlive₀).symm.trans hm)
    simp only [Inode.member, hlinks₀, UInt16.size]
    omega
  obtain ⟨-, o₂, hlinked₂⟩ := hstep.linked hfits₀.sound hlinked₁
  obtain rfl : 2 = n := Option.some.inj
    (hfound.symm.trans ((remove_members hfits.sound 1 "a" 0).of_ok hok).found)
  have hstep₁ : FileStep v v₁ := .of_orderly (r := .remove 1 "a" 0) hfits.sound hlinked₂
    (.inl ⟨2, hok⟩) trivial (orderly_remove hfound (file_of_isFileWith hfile).1)
  have hrun : FileRun v₀ v := (Relation.ReflTransGen.single hstep₀).tail hstep
  exact ⟨v, v₁, hrun, hstep₁, hok, hfile, hfound₁, hfile₁⟩

theorem renamed_file_is_given_back : ∃ (v₀ v v₁ v₂ : Volume) (d' : MemoryDisk),
    format ⟨4, 4⟩ ⟨.replicate 16 0⟩ 0 (MemoryDisk.blank 8) = .ok v₀ d' ∧ FileRun v₀ v ∧
      remove 1 "a" 0 v = .ok 2 v₁ ∧ remove 1 "b" 0 v₁ = .ok 2 v₂ ∧
      (∃ node, v.live? 2 = some node ∧ Spared 2 node v v₁) ∧
      ∃ node, v₁.live? 2 = some node ∧ Discarded 2 node v₁ v₂ := by
  obtain ⟨v₀, d', hformat⟩ := format_memoryDisk
  obtain ⟨v, v₁, hrun, hstep, hok, hfile, hfound₁, hfile₁⟩ := exists_renamed hformat
  obtain ⟨-, node, hlive, hnode, hlinks⟩ := file_of_isFileWith hfile
  obtain ⟨-, node₁, hlive₁, hnode₁, hlinks₁⟩ := file_of_isFileWith hfile₁
  have hspare : (node₁.member v₁.data).maySpareName = true := by
    rw [Member.maySpareName, isDirectory_member, hnode₁]
    rfl
  have hrun₁ : FileRun v₀ v₁ := hrun.tail hstep
  have hformatted := formatted_of_format hformat
  obtain ⟨hsound₁, -⟩ := hrun₁.linked hformatted.sound hformatted.linked
  obtain ⟨v₂, hok₁, -⟩ := hsound₁.remove_ok hfound₁ (members_live hlive₁) hspare 0
  obtain ⟨hnames, -, hremove⟩ := links_of_files_are_names ⟨4, 4⟩ ⟨.replicate 16 0⟩ 0
    (MemoryDisk.blank 8) d' v₀ v hformat hrun
  obtain ⟨hnames₁, -, hremove₁⟩ := links_of_files_are_names ⟨4, 4⟩ ⟨.replicate 16 0⟩ 0
    (MemoryDisk.blank 8) d' v₀ v₁ hformat hrun₁
  obtain ⟨m, hm, hcase⟩ := hremove 1 "a" 0 2 v₁ hok
  obtain ⟨m₁, hm₁, hcase₁⟩ := hremove₁ 1 "b" 0 2 v₂ hok₁
  obtain rfl := Option.some.inj (hlive.symm.trans hm)
  obtain rfl := Option.some.inj (hlive₁.symm.trans hm₁)
  have htwo := hnames 2 node hlive hnode
  have hone := hnames₁ 2 node₁ hlive₁ hnode₁
  exact ⟨v₀, v, v₁, v₂, d', hformat, hrun, hok, hok₁,
    ⟨node, hlive, (hcase hnode).2 (by omega)⟩, node₁, hlive₁, (hcase₁ hnode₁).1 (by omega)⟩

end Volume

end ExtentVolume
