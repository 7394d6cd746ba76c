import Mathlib.Algebra.BigOperators.Group.Finset.Basic
import Mathlib.Algebra.Order.BigOperators.Group.Finset
import ExtentVolume.Proofs.Members

namespace ExtentVolume

open Directory (blankEntry placed cleared)

@[irreducible]
def tally (f : UInt32 → Nat) : Nat := ∑ i ∈ Finset.range UInt32.size, f (.ofNat i)

variable {f : UInt32 → Nat} {n k : UInt32}

theorem tally_eq (f : UInt32 → Nat) (n : UInt32) :
    tally f = f n + ∑ i ∈ (Finset.range UInt32.size).erase n.toNat, f (.ofNat i) := by
  have hmem : n.toNat ∈ Finset.range UInt32.size := Finset.mem_range.2 n.toNat_lt
  have hself : UInt32.ofNat n.toNat = n := UInt32.ofNat_toNat
  have hsum := Finset.add_sum_erase _ (fun i => f (UInt32.ofNat i)) hmem
  rw [hself] at hsum
  unfold tally
  exact hsum.symm

theorem tally_update (f : UInt32 → Nat) (n : UInt32) (x : Nat) :
    tally (Function.update f n x) + f n = tally f + x := by
  have hrest : ∑ i ∈ (Finset.range UInt32.size).erase n.toNat, Function.update f n x (.ofNat i) =
      ∑ i ∈ (Finset.range UInt32.size).erase n.toNat, f (.ofNat i) := by
    apply Finset.sum_congr rfl
    intro i hi
    obtain ⟨hne, hlt⟩ := Finset.mem_erase.1 hi
    apply Function.update_of_ne
    rintro rfl
    exact hne (UInt32.toNat_ofNat_of_lt' (Finset.mem_range.1 hlt)).symm
  rw [tally_eq _ n, tally_eq f n, Function.update_self, hrest]
  generalize ∑ i ∈ (Finset.range UInt32.size).erase n.toNat, f (.ofNat i) = rest
  omega

theorem le_tally (f : UInt32 → Nat) (n : UInt32) : f n ≤ tally f := by
  rw [tally_eq f n]
  exact Nat.le_add_right ..

theorem tally_mono {g : UInt32 → Nat} (h : ∀ n, f n ≤ g n) : tally f ≤ tally g := by
  unfold tally
  exact Finset.sum_le_sum fun i _ => h _

theorem tally_eq_zero_iff : tally f = 0 ↔ ∀ n, f n = 0 := by
  constructor
  · intro h n
    have hle := le_tally f n
    omega
  · intro h
    unfold tally
    exact Finset.sum_eq_zero fun i _ => h _

def mentions (n : UInt32) (m : Option Member) : Nat :=
  m.elim 0 fun m => m.entries.countP (·.inode == n)

/-- How many slots in all directories hold the number. -/
def Namespace.names (ns : Namespace) (n : UInt32) : Nat := tally fun d => mentions n (ns d)

/-- Whether a member is a directory, and the links that it counts. -/
def Namespace.kind (ns : Namespace) (n : UInt32) : Option (Bool × Nat) :=
  (ns n).map fun m => (m.isDirectory, m.links)

namespace Namespace

variable {ns : Namespace} {d : UInt32} {m : Member} {x : Option Member}

theorem names_set (ns : Namespace) (d : UInt32) (x : Option Member) (k : UInt32) :
    (ns.set d x).names k + mentions k (ns d) = ns.names k + mentions k x := by
  have hupdate : (fun i => mentions k (ns.set d x i)) =
      Function.update (fun i => mentions k (ns i)) d (mentions k x) := by
    funext i
    by_cases hi : i = d
    · subst hi
      rw [set_self, Function.update_self]
    · rw [set_ne hi, Function.update_of_ne hi]
  rw [names, names, hupdate, tally_update]

theorem names_edit {f : Member → Member}
    (hf : ∀ m, ns d = some m → mentions k (some (f m)) = mentions k (some m)) :
    (ns.edit d f).names k = ns.names k := by
  have hset := names_set ns d ((ns d).map f) k
  cases hd : ns d with
  | none =>
    rw [edit, hd, Option.map_none, set_eq_self hd]
  | some m =>
    rw [hd, Option.map_some, hf m hd] at hset
    rw [edit, hd, Option.map_some]
    omega

theorem names_onLinks (f : Nat → Nat) : (ns.edit d (.onLinks f)).names k = ns.names k :=
  names_edit fun _ _ => rfl

theorem not_mentioned {e : Entry} (hk : k ≠ 0) (h : e.isFree = true) : (e.inode == k) = false := by
  rw [Entry.isFree, beq_iff_eq] at h
  rw [h, beq_eq_false_iff_ne]
  exact hk.symm

theorem mentions_free (hk : k ≠ 0) (h : m.entries.all (·.isFree) = true) :
    mentions k (some m) = 0 := by
  refine List.countP_eq_zero.2 fun e he => ?_
  rw [not_mentioned hk (List.all_eq_true.1 h e he)]
  exact Bool.false_ne_true

theorem entries_blank {count : Nat} :
    (List.replicate count blankEntry).all (·.isFree) = true := by
  rw [List.all_eq_true]
  intro e he
  rw [List.eq_of_mem_replicate he]
  rfl

theorem names_set_free (hold : mentions k (ns d) = 0) (hnew : mentions k x = 0) :
    (ns.set d x).names k = ns.names k := by
  have hset := names_set ns d x k
  omega

theorem mentions_ofMode (hk : k ≠ 0) (mode : Mode) : mentions k (some (.ofMode mode)) = 0 := by
  apply mentions_free hk
  rw [Member.entries, Member.ofMode]
  cases mode.isDirectory with
  | true => exact entries_blank
  | false => rfl

theorem mentions_onSlots {g : List Entry → List Entry} {l : List Entry} (hl : m.slots = some l) :
    mentions k (some (m.onSlots g)) = (g l).countP (·.inode == k) := by
  simp only [mentions, Option.elim_some, Member.entries, Member.onSlots, hl, Option.map_some,
    Option.getD_some]

theorem mentions_entered {name : String} {target : UInt32} (hk : k ≠ 0)
    (hd : m.isDirectory = true) :
    mentions k (some (m.onSlots (placed ⟨Entry.fieldOf name, target⟩))) =
      mentions k (some m) + if target = k then 1 else 0 := by
  obtain ⟨l, hl⟩ := Option.isSome_iff_exists.1 hd
  rw [mentions_onSlots hl, Directory.countP_placed _ fun e => not_mentioned hk]
  simp only [mentions, Option.elim_some, Member.entries, hl, Option.getD_some, beq_iff_eq]

theorem mentions_cleared {name : String} (hk : k ≠ 0) (hd : m.isDirectory = true)
    (hlookup : m.lookup name = some n) :
    mentions k (some (m.onSlots (cleared name))) + (if n = k then 1 else 0) =
      mentions k (some m) := by
  obtain ⟨l, hl⟩ := Option.isSome_iff_exists.1 hd
  simp only [Member.lookup, Member.entries, hl, Option.getD_some] at hlookup
  obtain ⟨e, he, rfl⟩ := Option.map_eq_some_iff.1 hlookup
  have hcount := @Directory.countP_cleared (·.inode == k) _ name e (not_mentioned hk rfl) he
  rw [mentions_onSlots hl]
  simpa only [mentions, Option.elim_some, Member.entries, hl, Option.getD_some, beq_iff_eq]
    using hcount

theorem mentions_grown (hk : k ≠ 0) (count : Nat) :
    mentions k (some (m.onSlots (· ++ List.replicate count blankEntry))) = mentions k (some m) := by
  cases hl : m.slots with
  | none => simp only [mentions, Option.elim_some, Member.entries, Member.onSlots, hl, Option.map_none]
  | some l =>
    have hblank : (List.replicate count blankEntry).countP (·.inode == k) = 0 :=
      List.countP_eq_zero.2 fun e he => by
        rw [not_mentioned hk (List.all_eq_true.1 entries_blank e he)]
        exact Bool.false_ne_true
    rw [mentions_onSlots hl, List.countP_append, hblank, Nat.add_zero]
    simp only [mentions, Option.elim_some, Member.entries, hl, Option.getD_some]

theorem names_enter {name : String} {target : UInt32} (hk : k ≠ 0)
    (hd : ns.isDirectory d = true) :
    (ns.enter d name target).names k = ns.names k + if target = k then 1 else 0 := by
  obtain ⟨m, hm, hdirectory⟩ := isDirectory_iff.1 hd
  have hset := names_set ns d (some (m.onSlots (placed ⟨Entry.fieldOf name, target⟩))) k
  rw [mentions_entered hk hdirectory, hm] at hset
  rw [enter, edit_eq hm]
  omega

theorem names_clear {name : String} (hk : k ≠ 0) (hfound : ns.lookup d name = some n) :
    (ns.edit d (.onSlots (cleared name))).names k + (if n = k then 1 else 0) = ns.names k := by
  obtain ⟨m, hm, hdirectory, hlookup⟩ := directory_of_lookup hfound
  have hset := names_set ns d (some (m.onSlots (cleared name))) k
  have hcleared := mentions_cleared hk hdirectory hlookup
  rw [hm] at hset
  rw [edit_eq hm]
  omega

theorem lookup_ne_zero {name : String} (hfound : ns.lookup d name = some n) : n ≠ 0 := by
  obtain ⟨m, -, -, hlookup⟩ := directory_of_lookup hfound
  obtain ⟨e, he, rfl⟩ := Option.map_eq_some_iff.1 hlookup
  have hfor := List.find?_some he
  rintro hzero
  simp [Entry.isFor, Entry.isFree, hzero] at hfor

theorem names_pos {name : String} (hfound : ns.lookup d name = some n) : 0 < ns.names n := by
  have hclear := names_clear (lookup_ne_zero hfound) hfound
  rw [if_pos rfl] at hclear
  omega

theorem names_grow (hk : k ≠ 0) (count : Nat) :
    (ns.edit d (.onSlots (· ++ List.replicate count blankEntry))).names k = ns.names k :=
  names_edit fun _ _ => mentions_grown hk count

theorem mentions_le_names (d : UInt32) : mentions k (ns d) ≤ ns.names k :=
  le_tally (fun d => mentions k (ns d)) d

theorem names_le {ns' : Namespace} (h : ∀ d, mentions k (ns' d) ≤ mentions k (ns d)) :
    ns'.names k ≤ ns.names k := tally_mono h

theorem mentions_edit {e : UInt32} {f : Member → Member} (hd : ns d = some m) :
    mentions k (ns.edit d f e) = if e = d then mentions k (some (f m)) else mentions k (ns e) := by
  rw [edit_eq hd, set_apply]
  split <;> rfl

theorem mentions_onLinks {e : UInt32} (f : Nat → Nat) :
    mentions k (ns.edit d (.onLinks f) e) = mentions k (ns e) := by
  cases hd : ns d with
  | none => rw [edit, hd, Option.map_none, set_eq_self hd]
  | some m =>
    rw [mentions_edit hd]
    split
    · rename_i he
      rw [he, hd]
      rfl
    · rfl

theorem mentions_enter {e target : UInt32} {name : String} (hk : k ≠ 0)
    (hd : ns.isDirectory d = true) :
    mentions k (ns.enter d name target e) =
      mentions k (ns e) + if e = d ∧ target = k then 1 else 0 := by
  obtain ⟨m, hm, hdirectory⟩ := isDirectory_iff.1 hd
  rw [enter, mentions_edit hm, mentions_entered hk hdirectory]
  by_cases he : e = d
  · simp [he, hm]
  · simp [he]

theorem mentions_clear {e : UInt32} {name : String} (hk : k ≠ 0)
    (hfound : ns.lookup d name = some n) :
    mentions k (ns.edit d (.onSlots (cleared name)) e) +
      (if e = d ∧ n = k then 1 else 0) = mentions k (ns e) := by
  obtain ⟨m, hm, hdirectory, hlookup⟩ := directory_of_lookup hfound
  rw [mentions_edit hm]
  by_cases he : e = d
  · simpa [he, hm] using mentions_cleared hk hdirectory hlookup
  · simp [he]

theorem kind_eq_none_iff : ns.kind n = none ↔ ns n = none := Option.map_eq_none_iff

theorem isDirectory_eq : ns.isDirectory n = (ns.kind n).any (·.1) := by
  rw [isDirectory, kind, Option.any_map]

theorem kind_of_isDirectory (h : ns.isDirectory n = true) :
    ∃ links, ns.kind n = some (true, links) := by
  obtain ⟨m, hm, hd⟩ := isDirectory_iff.1 h
  exact ⟨m.links, by rw [kind, hm, Option.map_some, hd]⟩

theorem kind_set (ns : Namespace) (d : UInt32) (x : Option Member) (k : UInt32) :
    (ns.set d x).kind k = if k = d then x.map fun m => (m.isDirectory, m.links) else ns.kind k := by
  rw [kind, set_apply]
  split <;> rfl

theorem kind_onSlots (g : List Entry → List Entry) : (ns.edit d (.onSlots g)).kind = ns.kind := by
  funext k
  rw [edit, kind_set]
  split
  · rename_i hk
    subst hk
    rw [kind, Option.map_map]
    congr 1
    funext m
    simp only [Function.comp_apply, Member.onSlots, Member.isDirectory, Option.isSome_map]
  · rfl

theorem kind_onLinks (f : Nat → Nat) :
    (ns.edit d (.onLinks f)).kind k =
      if k = d then (ns.kind k).map fun (b, links) => (b, f links) else ns.kind k := by
  rw [edit, kind_set]
  split
  · rename_i hk
    subst hk
    rw [kind, Option.map_map, Option.map_map]
    rfl
  · rfl

end Namespace

/-- The directory in which a call creates another one. -/
def Request.origin? : Request → Option UInt32
  | .create parent _ mode _ _ => if mode.isDirectory then some parent else none
  | _ => none

/-- For each directory in use, the directory that it was created in. The root is its own. -/
abbrev Origins := UInt32 → Option UInt32

namespace Origins

def root : Origins := Function.update (fun _ => none) 1 (some 1)

def after (o : Origins) (ns : Namespace) (r : Request) (ns' : Namespace) : Origins := fun n =>
  if (ns' n).isNone then none else if (ns n).isNone then r.origin? else o n

def children (o : Origins) (n : UInt32) : Nat := tally fun d => if o d = some n then 1 else 0

variable {o : Origins} {ns ns' : Namespace} {r : Request}

theorem children_eq_zero_iff : o.children n = 0 ↔ ∀ c, o c ≠ some n := by
  rw [children, tally_eq_zero_iff]
  refine forall_congr' fun c => ?_
  split <;> simp_all

theorem children_update (o : Origins) (d : UInt32) (x : Option UInt32) (n : UInt32) :
    children (Function.update o d x) n + (if o d = some n then 1 else 0) =
      children o n + if x = some n then 1 else 0 := by
  have hupdate : (fun i => if Function.update o d x i = some n then 1 else 0) =
      Function.update (fun i => if o i = some n then 1 else 0) d (if x = some n then 1 else 0) := by
    funext i
    by_cases hi : i = d
    · subst hi
      rw [Function.update_self, Function.update_self]
    · rw [Function.update_of_ne hi, Function.update_of_ne hi]
  rw [children, children, hupdate, tally_update]

theorem after_kept (ho : ∀ k, ns k = none → o k = none) (hlive : ns' k = none ↔ ns k = none) :
    o.after ns r ns' k = o k := by
  simp only [after, Option.isNone_iff_eq_none, hlive]
  split
  · rename_i hnone
    exact (ho k hnone).symm
  · rfl

theorem after_eq_self (ho : ∀ k, ns k = none → o k = none)
    (hlive : ∀ k, ns' k = none ↔ ns k = none) : o.after ns r ns' = o := by
  funext k
  exact after_kept ho (hlive k)

theorem after_eq_update (ho : ∀ k, ns k = none → o k = none)
    (hlive : ∀ k, k ≠ n → (ns' k = none ↔ ns k = none)) :
    o.after ns r ns' = Function.update o n (o.after ns r ns' n) := by
  funext k
  by_cases hk : k = n
  · subst hk
    rw [Function.update_self]
  · rw [Function.update_of_ne hk, after_kept ho (hlive k hk)]

end Origins

/-- The count of links, given the names and the directories created in the inode. The counter of a
file may exceed its names: a new inode has one link and no name. -/
def Accounts : Option (Bool × Nat) → (names children : Nat) → Prop
  | none, names, children => names = 0 ∧ children = 0
  | some (true, links), names, children => links = names + 1 + children
  | some (false, links), names, children => names ≤ links ∧ children = 0

structure Balanced (ns : Namespace) (o : Origins) : Prop where
  counts : ∀ n, n ≠ 0 → Accounts (ns.kind n) (ns.names n) (o.children n)
  origin : ∀ n, ns.isDirectory n = false → o n = none
  root : o 1 = some 1

/-- A call that keeps the balance. It does not count a link more than a counter can hold, and a
directory is given back under the directory it was created in. -/
def Orderly (ns : Namespace) (o : Origins) : Request → Prop
  | .insert _ _ target _ => ∀ m, ns target = some m → m.links + 1 < UInt16.size
  | .remove parent name _ => ∀ n m, ns.lookup parent name = some n → ns n = some m →
      m.isDirectory = true → m.hasOneName = true → o n = some parent
  | _ => True

namespace Namespace

variable {ns : Namespace} {parent : UInt32} {mode : Mode}

theorem names_create {name : String} (hk : k ≠ 0) (hdirectory : ns.isDirectory parent = true)
    (hfresh : ns n = none) :
    (ns.create parent name mode n).names k = ns.names k + if n = k then 1 else 0 := by
  have hne := ne_of_isDirectory hdirectory hfresh
  have hdirectory' : (ns.set n (some (.ofMode mode))).isDirectory parent = true := by
    rw [isDirectory, set_ne hne]
    exact hdirectory
  have hold : mentions k (ns n) = 0 := by
    rw [hfresh]
    rfl
  have hentered : ((ns.set n (some (.ofMode mode))).enter parent name n).names k =
      (ns.set n (some (.ofMode mode))).names k + if n = k then 1 else 0 :=
    names_enter hk hdirectory'
  rw [names_set_free hold (mentions_ofMode hk mode)] at hentered
  rw [create]
  split
  · rw [names_onLinks, names_onLinks, hentered]
  · exact hentered

theorem names_insert {name : String} {target : UInt32} (hk : k ≠ 0)
    (hdirectory : ns.isDirectory parent = true) :
    (ns.insert parent name target).names k = ns.names k + if target = k then 1 else 0 := by
  rw [insert, names_onLinks, names_enter hk hdirectory]

theorem kind_insert {name : String} {target : UInt32} :
    (ns.insert parent name target).kind k = if k = target then
        (ns.kind k).map fun (b, links) => (b, min (links + 1) (UInt16.size - 1))
      else ns.kind k := by
  rw [insert, kind_onLinks, enter, kind_onSlots]

theorem kind_create {name : String} (hne : parent ≠ n) :
    (ns.create parent name mode n).kind k =
      if k = n then some (mode.isDirectory, if mode.isDirectory then 2 else 1)
      else if k = parent ∧ mode.isDirectory = true then
        (ns.kind k).map fun (b, links) => (b, links + 1)
      else ns.kind k := by
  have hset : (ns.set n (some (.ofMode mode))).kind k =
      if k = n then some (mode.isDirectory, 1) else ns.kind k := by
    rw [kind_set, Option.map_some, Member.isDirectory_ofMode]
    rfl
  cases hd : mode.isDirectory with
  | false =>
    rw [create, hd, if_neg Bool.false_ne_true, enter, kind_onSlots, hset, hd]
    simp
  | true =>
    rw [create, hd, if_pos rfl, kind_onLinks, kind_onLinks, enter, kind_onSlots, hset, hd]
    by_cases hparent : k = parent
    · subst hparent
      simp [hne]
    · by_cases hn : k = n
      · subst hn
        simp [hparent]
      · simp [hparent, hn]

theorem kind_rooted : rooted.kind k = if k = 1 then some (true, 2) else none := by
  rw [rooted, kind_set]
  rfl

theorem mentions_rooted (hk : k ≠ 0) (d : UInt32) : mentions k (rooted d) = 0 := by
  rw [rooted, set_apply]
  split
  · exact mentions_ofMode hk .defaultDirectory
  · rfl

theorem names_rooted (hk : k ≠ 0) : rooted.names k = 0 := tally_eq_zero_iff.2 (mentions_rooted hk)

theorem remove_kept {name : String} {target : Member} (hone : target.hasOneName = false) :
    ns.remove parent name n target =
      (ns.edit parent (.onSlots (cleared name))).edit n (.onLinks (· - 1)) := by
  rw [remove, leave, hone]
  rfl

theorem remove_last {name : String} {target : Member} (hone : target.hasOneName = true) :
    ns.remove parent name n target =
      (if target.isDirectory then
        (ns.edit parent (.onSlots (cleared name))).edit parent (.onLinks (· - 1))
      else ns.edit parent (.onSlots (cleared name))).set n none := by
  rw [remove, leave, hone]
  rfl

/-- What loses its last name is empty, so that no other name is lost with it. -/
theorem names_remove {name : String} {target : Member} (hk : k ≠ 0)
    (hfound : ns.lookup parent name = some n) (htarget : ns n = some target)
    (hlast : target.hasOneName = true → n ≠ parent ∧ target.entries.all (·.isFree) = true) :
    (ns.remove parent name n target).names k + (if n = k then 1 else 0) = ns.names k := by
  rw [← names_clear hk hfound]
  congr 1
  cases hone : target.hasOneName with
  | false => rw [remove_kept hone, names_onLinks]
  | true =>
    obtain ⟨hne, hfree⟩ := hlast hone
    have hempty := mentions_free hk hfree
    rw [remove_last hone]
    cases target.isDirectory with
    | true =>
      rw [if_pos rfl, names_set_free _ rfl, names_onLinks]
      rw [edit_ne hne, edit_ne hne, htarget, hempty]
    | false =>
      rw [if_neg Bool.false_ne_true, names_set_free _ rfl]
      rw [edit_ne hne, htarget, hempty]

theorem kind_remove_kept {name : String} {target : Member} (hone : target.hasOneName = false) :
    (ns.remove parent name n target).kind k =
      if k = n then (ns.kind k).map fun (b, links) => (b, links - 1) else ns.kind k := by
  rw [remove_kept hone, kind_onLinks, kind_onSlots]

theorem kind_remove_last {name : String} {target : Member} (hone : target.hasOneName = true) :
    (ns.remove parent name n target).kind k = if k = n then none
      else if k = parent ∧ target.isDirectory = true then
        (ns.kind k).map fun (b, links) => (b, links - 1)
      else ns.kind k := by
  rw [remove_last hone, kind_set, Option.map_none]
  cases target.isDirectory with
  | true =>
    rw [if_pos rfl, kind_onLinks, kind_onSlots]
    simp
  | false =>
    rw [if_neg Bool.false_ne_true, kind_onSlots]
    simp

theorem isDirectory_create {name : String} (hne : parent ≠ n) :
    (ns.create parent name mode n).isDirectory k =
      if k = n then mode.isDirectory else ns.isDirectory k := by
  rw [isDirectory_eq, kind_create hne, isDirectory_eq]
  split
  · rfl
  · split
    · exact Option.any_map
    · rfl

theorem isDirectory_remove {name : String} {target : Member} (hk : k ≠ n) :
    (ns.remove parent name n target).isDirectory k = ns.isDirectory k := by
  rw [isDirectory_eq, isDirectory_eq]
  cases hone : target.hasOneName with
  | false => rw [kind_remove_kept hone, if_neg hk]
  | true =>
    rw [kind_remove_last hone, if_neg hk]
    split
    · exact Option.any_map
    · rfl

end Namespace

namespace Balanced

variable {ns ns' : Namespace} {o : Origins} {r : Request}

theorem dead (h : Balanced ns o) (n : UInt32) (hn : ns n = none) : o n = none := by
  apply h.origin
  rw [Namespace.isDirectory, hn]
  rfl

theorem root_update (h : Balanced ns o) {x : Option UInt32} (hn : o n ≠ some n) :
    Function.update o n x 1 = some 1 := by
  rw [Function.update_of_ne]
  · exact h.root
  · rintro rfl
    exact hn h.root

theorem origin_update (h : Balanced ns o) {x : Option UInt32}
    (hsame : ∀ k, k ≠ n → ns'.isDirectory k = ns.isDirectory k)
    (hx : ns'.isDirectory n = false → x = none) (k : UInt32) (hk : ns'.isDirectory k = false) :
    Function.update o n x k = none := by
  by_cases hn : k = n
  · subst hn
    rw [Function.update_self]
    exact hx hk
  · rw [Function.update_of_ne hn]
    exact h.origin k (hsame k hn ▸ hk)

theorem rooted : Balanced .rooted .root := by
  refine ⟨fun k hk => ?_, fun k hk => ?_, Function.update_self ..⟩
  · have hnone : Origins.children (fun _ => none) k = 0 :=
      tally_eq_zero_iff.2 fun _ => if_neg (Option.some_ne_none k).symm
    have hchildren := Origins.children_update (fun _ => none) 1 (some 1) k
    rw [hnone, if_neg (Option.some_ne_none k).symm, Nat.add_zero, Nat.zero_add] at hchildren
    rw [Namespace.kind_rooted, Namespace.names_rooted hk, Origins.root, hchildren]
    by_cases hone : k = 1
    · subst hone
      rw [if_pos rfl, if_pos rfl]
      exact rfl
    · rw [if_neg hone, if_neg fun h => hone (Option.some.inj h).symm]
      exact ⟨rfl, rfl⟩
  · have hne : k ≠ 1 := by
      rintro rfl
      rw [Namespace.isDirectory_eq, Namespace.kind_rooted] at hk
      cases hk
    exact Function.update_of_ne hne ..

theorem origin_create (h : Balanced ns o) {parent : UInt32} {name : String} {mode : Mode}
    {owner : Owner} {now : Int64} (hne : parent ≠ n) (hfresh : ns n = none) :
    o.after ns (.create parent name mode owner now) (ns.create parent name mode n) =
      Function.update o n (if mode.isDirectory then some parent else none) := by
  have hkind := fun k => @Namespace.kind_create n k ns parent mode name hne
  have hborn : ns.create parent name mode n n ≠ none := by
    rw [← Namespace.kind_eq_none_iff.ne, hkind, if_pos rfl]
    exact Option.some_ne_none _
  rw [Origins.after_eq_update h.dead]
  · congr 1
    rw [Origins.after, if_neg (by simpa using hborn), hfresh]
    rfl
  · intro k hk
    rw [← Namespace.kind_eq_none_iff, ← Namespace.kind_eq_none_iff, hkind, if_neg hk]
    split
    · exact Option.map_eq_none_iff
    · rfl

theorem children_create (h : Balanced ns o) {parent : UInt32} {mode : Mode} (hfresh : ns n = none)
    (k : UInt32) :
    Origins.children (Function.update o n (if mode.isDirectory then some parent else none)) k =
      o.children k + if k = parent ∧ mode.isDirectory = true then 1 else 0 := by
  have hupdate := o.children_update n (if mode.isDirectory then some parent else none) k
  rw [h.dead n hfresh, if_neg (Option.some_ne_none k).symm, Nat.add_zero] at hupdate
  rw [hupdate]
  cases mode.isDirectory <;> simp [eq_comm]

theorem counts_create (h : Balanced ns o) {parent : UInt32} {name : String} {mode : Mode}
    (hdirectory : ns.isDirectory parent = true) (hfresh : ns n = none) (hk : k ≠ 0) :
    Accounts ((ns.create parent name mode n).kind k) ((ns.create parent name mode n).names k)
      (Origins.children (Function.update o n (if mode.isDirectory then some parent else none)) k) := by
  have hne := Namespace.ne_of_isDirectory hdirectory hfresh
  have hbefore := h.counts k hk
  obtain ⟨links, hparent⟩ := Namespace.kind_of_isDirectory hdirectory
  rw [Namespace.kind_create hne, Namespace.names_create hk hdirectory hfresh,
    h.children_create hfresh]
  by_cases hn : k = n
  · subst hn
    rw [Namespace.kind_eq_none_iff.2 hfresh] at hbefore
    obtain ⟨hnames, hnone⟩ := hbefore
    have hself : ¬(k = parent ∧ mode.isDirectory = true) := fun hp => hne hp.1.symm
    rw [hnames, hnone, if_pos rfl, if_pos rfl, if_neg hself]
    cases mode.isDirectory
    · exact ⟨Nat.le_refl 1, rfl⟩
    · exact rfl
  · rw [if_neg hn, if_neg (Ne.symm hn), Nat.add_zero]
    by_cases hp : k = parent ∧ mode.isDirectory = true
    · rw [hp.1, hparent] at hbefore
      rw [if_pos hp, if_pos hp, hp.1, hparent]
      simp only [Accounts, Option.map_some] at hbefore ⊢
      omega
    · rw [if_neg hp, if_neg hp, Nat.add_zero]
      exact hbefore

theorem create (h : Balanced ns o) {parent : UInt32} {name : String} {mode : Mode} {owner : Owner}
    {now : Int64} (hdirectory : ns.isDirectory parent = true) (hfresh : ns n = none) :
    Balanced (ns.create parent name mode n)
      (o.after ns (.create parent name mode owner now) (ns.create parent name mode n)) := by
  have hne := Namespace.ne_of_isDirectory hdirectory hfresh
  have hnone : o n ≠ some n := by
    rw [h.dead n hfresh]
    exact (Option.some_ne_none n).symm
  rw [h.origin_create hne hfresh]
  refine ⟨fun k => h.counts_create hdirectory hfresh, ?_, h.root_update hnone⟩
  apply h.origin_update
  · intro k hkn
    rw [Namespace.isDirectory_create hne, if_neg hkn]
  · intro hd
    rw [Namespace.isDirectory_create hne, if_pos rfl] at hd
    exact if_neg (Bool.eq_false_iff.1 hd)

theorem createInode (h : Balanced ns o) {mode : Mode} {owner : Owner} {now : Int64}
    (hfresh : ns n = none) :
    Balanced (ns.set n (some (.ofMode mode)))
      (o.after ns (.createInode owner mode now) (ns.set n (some (.ofMode mode)))) := by
  have hkind : ∀ k, (ns.set n (some (.ofMode mode))).kind k =
      if k = n then some (mode.isDirectory, 1) else ns.kind k := by
    intro k
    rw [Namespace.kind_set, Option.map_some, Member.isDirectory_ofMode]
    rfl
  have horigin : o.after ns (.createInode owner mode now) (ns.set n (some (.ofMode mode))) =
      Function.update o n none := by
    rw [Origins.after_eq_update h.dead fun k hk => by rw [Namespace.set_ne hk]]
    congr 1
    rw [Origins.after, Namespace.set_self, hfresh]
    rfl
  have hsame : Function.update o n none = o := by
    rw [← h.dead n hfresh, Function.update_eq_self]
  rw [horigin]
  refine ⟨fun k hk => ?_, fun k hk => ?_, by rw [hsame]; exact h.root⟩
  · have hbefore := h.counts k hk
    have hold : mentions k (ns n) = 0 := by
      rw [hfresh]
      rfl
    rw [hsame, hkind, Namespace.names_set_free hold (Namespace.mentions_ofMode hk mode)]
    split
    · rename_i hn
      rw [hn, Namespace.kind_eq_none_iff.2 hfresh] at hbefore
      obtain ⟨hnames, hnone⟩ := hbefore
      rw [hn, hnames, hnone]
      cases mode.isDirectory
      · exact ⟨Nat.zero_le 1, rfl⟩
      · exact rfl
    · exact hbefore
  · refine h.origin_update (fun k hkn => ?_) (fun _ => rfl) k hk
    rw [Namespace.isDirectory, Namespace.set_ne hkn, Namespace.isDirectory]

theorem onSlots (h : Balanced ns o) {d : UInt32} {g : List Entry → List Entry}
    (hnames : ∀ k, k ≠ 0 → (ns.edit d (.onSlots g)).names k = ns.names k) :
    Balanced (ns.edit d (.onSlots g)) (o.after ns r (ns.edit d (.onSlots g))) := by
  have hkind := @Namespace.kind_onSlots ns d g
  have horigin : o.after ns r (ns.edit d (.onSlots g)) = o :=
    Origins.after_eq_self h.dead fun k => by
      rw [← Namespace.kind_eq_none_iff, hkind, Namespace.kind_eq_none_iff]
  rw [horigin]
  refine ⟨fun k hk => ?_, fun k hk => ?_, h.root⟩
  · rw [hkind, hnames k hk]
    exact h.counts k hk
  · rw [Namespace.isDirectory_eq, hkind, ← Namespace.isDirectory_eq] at hk
    exact h.origin k hk

theorem relink (h : Balanced ns o) {b : Bool} {links links' : Nat}
    (hself : ns.kind n = some (b, links))
    (hkind : ∀ k, ns'.kind k = if k = n then some (b, links') else ns.kind k)
    (hnames : ∀ k, k ≠ 0 → k ≠ n → ns'.names k = ns.names k)
    (hcount : (links' = links + 1 ∧ ns'.names n = ns.names n + 1) ∨
      (links' + 1 = links ∧ ns'.names n + 1 = ns.names n)) :
    Balanced ns' (o.after ns r ns') := by
  have horigin : o.after ns r ns' = o := by
    refine Origins.after_eq_self h.dead fun k => ?_
    rw [← Namespace.kind_eq_none_iff, hkind, ← Namespace.kind_eq_none_iff]
    split
    · rename_i hk
      simp [hk, hself]
    · rfl
  rw [horigin]
  refine ⟨fun k hk => ?_, fun k hk => ?_, h.root⟩
  · have hbefore := h.counts k hk
    rw [hkind]
    split
    · rename_i hkn
      rw [hkn, hself] at hbefore
      rw [hkn]
      cases b <;> simp only [Accounts] at hbefore ⊢ <;> omega
    · rename_i hkn
      rw [hnames k hk hkn]
      exact hbefore
  · apply h.origin
    rw [Namespace.isDirectory_eq] at hk ⊢
    rw [hkind] at hk
    split at hk
    · rename_i hkn
      rw [hkn, hself]
      exact hk
    · exact hk

theorem insert (h : Balanced ns o) {dir target : UInt32} {name : String} {t : Member}
    (hdirectory : ns.isDirectory dir = true) (htarget : ns target = some t) (hnumber : target ≠ 0)
    (hlinks : t.links + 1 < UInt16.size) :
    Balanced (ns.insert dir name target) (o.after ns r (ns.insert dir name target)) := by
  have hself : ns.kind target = some (t.isDirectory, t.links) := by
    rw [Namespace.kind, htarget, Option.map_some]
  have hmin : min (t.links + 1) (UInt16.size - 1) = t.links + 1 := by omega
  refine h.relink hself (fun k => ?_) (fun k hk hne => ?_) (.inl ⟨rfl, ?_⟩)
  · rw [Namespace.kind_insert]
    split
    · rename_i hk
      rw [hk, hself, Option.map_some]
      simp only [hmin]
    · rfl
  · rw [Namespace.names_insert hk hdirectory, if_neg (Ne.symm hne), Nat.add_zero]
  · rw [Namespace.names_insert hnumber hdirectory, if_pos rfl]

/-- The last name of an inode is the only one, and no directory in use was created in it. -/
theorem last (h : Balanced ns o) {parent : UInt32} {name : String} {target : Member}
    (hfound : ns.lookup parent name = some n) (htarget : ns n = some target)
    (hone : target.hasOneName = true) : ns.names n = 1 ∧ o.children n = 0 := by
  have hself : ns.kind n = some (target.isDirectory, target.links) := by
    rw [Namespace.kind, htarget, Option.map_some]
  have hcounts := h.counts n (Namespace.lookup_ne_zero hfound)
  have hpos := Namespace.names_pos hfound
  rw [Member.hasOneName, decide_eq_true_eq] at hone
  rw [hself] at hcounts
  cases hd : target.isDirectory <;> rw [hd] at hcounts hone <;>
    simp only [Accounts, if_true, Bool.false_eq_true, if_false] at hcounts hone <;> omega

theorem last_apart (h : Balanced ns o) {parent : UInt32} {name : String} {target : Member}
    (hfound : ns.lookup parent name = some n) (htarget : ns n = some target)
    (hone : target.hasOneName = true) (horigin : target.isDirectory = true → o n = some parent) :
    o n ≠ some n ∧ n ≠ parent := by
  have hself : o n ≠ some n := Origins.children_eq_zero_iff.1 (h.last hfound htarget hone).2 n
  refine ⟨hself, ?_⟩
  rintro rfl
  obtain ⟨dir, hdir, hdirectory, -⟩ := Namespace.directory_of_lookup hfound
  obtain rfl := Option.some.inj (hdir.symm.trans htarget)
  exact hself (horigin hdirectory)

theorem origin_giveBack (h : Balanced ns o) {parent : UInt32} {name : String} {target : Member}
    (hone : target.hasOneName = true) :
    o.after ns r (ns.remove parent name n target) = Function.update o n none := by
  have hgone : ns.remove parent name n target n = none := by
    rw [Namespace.remove_last hone, Namespace.set_self]
  rw [Origins.after_eq_update h.dead]
  · rw [Origins.after, hgone]
    rfl
  · intro k hk
    rw [← Namespace.kind_eq_none_iff, Namespace.kind_remove_last hone, if_neg hk,
      ← Namespace.kind_eq_none_iff]
    split
    · exact Option.map_eq_none_iff
    · rfl

theorem children_giveBack (h : Balanced ns o) {parent : UInt32} {target : Member}
    (htarget : ns n = some target) (horigin : target.isDirectory = true → o n = some parent)
    (k : UInt32) :
    Origins.children (Function.update o n none) k +
      (if k = parent ∧ target.isDirectory = true then 1 else 0) = o.children k := by
  have hupdate := o.children_update n none k
  rw [if_neg (Option.some_ne_none k).symm, Nat.add_zero] at hupdate
  rw [← hupdate]
  congr 1
  cases hd : target.isDirectory with
  | true =>
    rw [horigin hd]
    simp [eq_comm]
  | false =>
    have hnone : o n = none := by
      apply h.origin
      rw [Namespace.isDirectory, htarget]
      exact hd
    rw [hnone]
    simp

/-- Where a directory is given back under its origin, both counts of the origin go down. -/
theorem counts_giveBack (h : Balanced ns o) {parent : UInt32} {name : String} {target : Member}
    (hfound : ns.lookup parent name = some n) (htarget : ns n = some target)
    (hspare : target.maySpareName = true) (hone : target.hasOneName = true)
    (horigin : target.isDirectory = true → o n = some parent) (hk : k ≠ 0) :
    Accounts ((ns.remove parent name n target).kind k) ((ns.remove parent name n target).names k)
      (Origins.children (Function.update o n none) k) := by
  obtain ⟨hlast, hchildless⟩ := h.last hfound htarget hone
  obtain ⟨-, hne⟩ := h.last_apart hfound htarget hone horigin
  have hbefore := h.counts k hk
  have hnames := Namespace.names_remove hk hfound htarget fun hone =>
    ⟨hne, Member.entries_free hspare hone⟩
  have hchildren := h.children_giveBack htarget horigin k
  rw [Namespace.kind_remove_last hone]
  by_cases hkn : k = n
  · subst hkn
    rw [if_pos rfl, hlast] at hnames
    rw [hchildless] at hchildren
    rw [if_pos rfl]
    exact ⟨by omega, by omega⟩
  · rw [if_neg (Ne.symm hkn), Nat.add_zero] at hnames
    rw [if_neg hkn, hnames]
    by_cases hp : k = parent ∧ target.isDirectory = true
    · obtain ⟨dir, hdir, hdirectory, -⟩ := Namespace.directory_of_lookup hfound
      have hparent : ns.kind k = some (true, dir.links) := by
        rw [hp.1, Namespace.kind, hdir, Option.map_some, hdirectory]
      rw [if_pos hp] at hchildren
      rw [hparent] at hbefore
      rw [if_pos hp, hparent]
      simp only [Accounts, Option.map_some] at hbefore ⊢
      omega
    · rw [if_neg hp, Nat.add_zero] at hchildren
      rw [if_neg hp, hchildren]
      exact hbefore

theorem giveBack (h : Balanced ns o) {parent : UInt32} {name : String} {target : Member}
    (hfound : ns.lookup parent name = some n) (htarget : ns n = some target)
    (hspare : target.maySpareName = true) (hone : target.hasOneName = true)
    (horigin : target.isDirectory = true → o n = some parent) :
    Balanced (ns.remove parent name n target) (o.after ns r (ns.remove parent name n target)) := by
  obtain ⟨hself, -⟩ := h.last_apart hfound htarget hone horigin
  rw [h.origin_giveBack hone]
  refine ⟨fun k => h.counts_giveBack hfound htarget hspare hone horigin, ?_, h.root_update hself⟩
  exact h.origin_update (fun k hkn => Namespace.isDirectory_remove hkn) fun _ => rfl

theorem remove (h : Balanced ns o) {parent : UInt32} {name : String} {target : Member}
    (hfound : ns.lookup parent name = some n) (htarget : ns n = some target)
    (hspare : target.maySpareName = true)
    (horigin : target.isDirectory = true → target.hasOneName = true → o n = some parent) :
    Balanced (ns.remove parent name n target) (o.after ns r (ns.remove parent name n target)) := by
  cases hone : target.hasOneName with
  | true => exact h.giveBack hfound htarget hspare hone fun hd => horigin hd hone
  | false =>
    have hself : ns.kind n = some (target.isDirectory, target.links) := by
      rw [Namespace.kind, htarget, Option.map_some]
    have hpos : 0 < target.links := by
      rw [Member.hasOneName, decide_eq_false_iff_not] at hone
      omega
    have hnames : ∀ k, k ≠ 0 → (ns.remove parent name n target).names k +
        (if n = k then 1 else 0) = ns.names k := by
      intro k hk
      apply Namespace.names_remove hk hfound htarget
      rw [hone]
      exact fun hcontra => by cases hcontra
    refine h.relink hself (fun k => ?_) (fun k hk hne => ?_)
      (.inr ⟨Nat.sub_add_cancel hpos, ?_⟩)
    · rw [Namespace.kind_remove_kept hone]
      split
      · rename_i hk
        rw [hk, hself, Option.map_some]
      · rfl
    · have hclear := hnames k hk
      rw [if_neg (Ne.symm hne), Nat.add_zero] at hclear
      exact hclear
    · have hclear := hnames n (Namespace.lookup_ne_zero hfound)
      rw [if_pos rfl] at hclear
      exact hclear

theorem step (h : Balanced ns o) (heffect : ns.Effect r ns') (hr : Orderly ns o r) :
    Balanced ns' (o.after ns r ns') := by
  cases heffect with
  | keep =>
    rw [Origins.after_eq_self h.dead fun _ => Iff.rfl]
    exact h
  | create hdirectory hname hfresh hnumber => exact h.create hdirectory hfresh
  | createInode hfresh hnumber => exact h.createInode hfresh
  | insert hdirectory hname htarget hnumber =>
    exact h.insert hdirectory htarget hnumber (hr _ htarget)
  | remove hfound htarget hspare => exact h.remove hfound htarget hspare (hr _ _ hfound htarget)
  | grow hlive => exact h.onSlots fun k hk => Namespace.names_grow hk _

end Balanced

/-- A volume, and where its directories were created. -/
structure History where
  volume : Volume
  origin : Origins

namespace History

def Step (s s' : History) : Prop :=
  ∃ r : Request, Orderly s.volume.members s.origin r ∧ r.Returns s.volume s'.volume ∧
    s'.origin = s.origin.after s.volume.members r s'.volume.members

/-- Calls that keep the balance led from one volume to another. -/
abbrev Run : History → History → Prop := Relation.ReflTransGen Step

variable {s s' : History}

theorem Step.create {parent : UInt32} {name : String} {mode : Mode} {owner : Owner} {now : Int64}
    {v v' : Volume} (hr : (Request.create parent name mode owner now).Returns v v') (o : Origins) :
    Step ⟨v, o⟩ ⟨v', o.after v.members (.create parent name mode owner now) v'.members⟩ :=
  ⟨.create parent name mode owner now, trivial, hr, rfl⟩

theorem Step.balanced (hstep : Step s s') (hsound : s.volume.Sound)
    (h : Balanced s.volume.members s.origin) :
    s'.volume.Sound ∧ Balanced s'.volume.members s'.origin := by
  obtain ⟨r, horderly, hr, horigin⟩ := hstep
  refine ⟨Request.sound hsound hr, ?_⟩
  rw [horigin]
  exact h.step (Request.effect hsound hr) horderly

theorem Run.balanced (hrun : Run s s') (hsound : s.volume.Sound)
    (h : Balanced s.volume.members s.origin) :
    s'.volume.Sound ∧ Balanced s'.volume.members s'.origin := by
  induction hrun with
  | refl => exact ⟨hsound, h⟩
  | tail _ hstep ih => exact hstep.balanced ih.1 ih.2

end History

end ExtentVolume
