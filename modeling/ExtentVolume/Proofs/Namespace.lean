import Mathlib.Logic.Function.Basic
import ExtentVolume.Proofs.Slots
import ExtentVolume.Proofs.Requests

namespace ExtentVolume

open Directory

def Mode.isDirectory (mode : Mode) : Bool := mode.kind? == some .directory

/-- The part of an inode in use that belongs to the namespace. A directory has slots. -/
structure Member where
  links : Nat
  slots : Option (List Entry)

namespace Member

def isDirectory (m : Member) : Bool := m.slots.isSome

def entries (m : Member) : List Entry := m.slots.getD []

def hasOneName (m : Member) : Bool := m.links ≤ if m.isDirectory then 2 else 1

def lookup (m : Member) (name : String) : Option UInt32 :=
  (m.entries.find? (·.isFor name)).map (·.inode)

/-- A name may be taken from it: it is no directory, or it counts another name, or it is empty. -/
def maySpareName (m : Member) : Bool :=
  !(m.isDirectory && m.hasOneName) || m.entries.all (·.isFree)

def onLinks (f : Nat → Nat) (m : Member) : Member := { m with links := f m.links }

def onSlots (f : List Entry → List Entry) (m : Member) : Member := { m with slots := m.slots.map f }

/-- A new inode. The one block of a directory has free slots only. -/
def ofMode (mode : Mode) : Member where
  links := 1
  slots := if mode.isDirectory then some (List.replicate Entry.slotsPerBlock blankEntry) else none

theorem isDirectory_ofMode (mode : Mode) : (ofMode mode).isDirectory = mode.isDirectory := by
  rw [isDirectory, ofMode]
  cases mode.isDirectory <;> rfl

theorem entries_free {m : Member} (hspare : m.maySpareName = true) (hone : m.hasOneName = true) :
    m.entries.all (·.isFree) = true := by
  cases hd : m.isDirectory with
  | true => simpa [maySpareName, hd, hone] using hspare
  | false =>
    rw [isDirectory, Option.isSome_eq_false_iff, Option.isNone_iff_eq_none] at hd
    rw [entries, hd]
    rfl

end Member

abbrev Namespace := UInt32 → Option Member

namespace Namespace

def set (ns : Namespace) (n : UInt32) (m : Option Member) : Namespace := Function.update ns n m

def edit (ns : Namespace) (n : UInt32) (f : Member → Member) : Namespace := ns.set n ((ns n).map f)

def isDirectory (ns : Namespace) (n : UInt32) : Bool := (ns n).any (·.isDirectory)

def entries (ns : Namespace) (n : UInt32) : List Entry := (ns n).elim [] (·.entries)

def lookup (ns : Namespace) (dir : UInt32) (name : String) : Option UInt32 :=
  (ns dir).bind (·.lookup name)

def enter (ns : Namespace) (dir : UInt32) (name : String) (target : UInt32) : Namespace :=
  ns.edit dir (.onSlots (placed ⟨Entry.fieldOf name, target⟩))

def insert (ns : Namespace) (dir : UInt32) (name : String) (target : UInt32) : Namespace :=
  (ns.enter dir name target).edit target (.onLinks fun links => min (links + 1) (UInt16.size - 1))

def create (ns : Namespace) (parent : UInt32) (name : String) (mode : Mode) (n : UInt32) :
    Namespace :=
  let entered := (ns.set n (some (.ofMode mode))).enter parent name n
  if mode.isDirectory then (entered.edit n (.onLinks fun _ => 2)).edit parent (.onLinks (· + 1))
  else entered

/-- Counts one name less for `n`, whose member is `target`. With its last name it is given back, and a
directory is no link to the parent any more. -/
def leave (ns : Namespace) (parent n : UInt32) (target : Member) : Namespace :=
  if target.hasOneName then
    (if target.isDirectory then ns.edit parent (.onLinks (· - 1)) else ns).set n none
  else ns.edit n (.onLinks (· - 1))

def remove (ns : Namespace) (parent : UInt32) (name : String) (n : UInt32) (target : Member) :
    Namespace :=
  (ns.edit parent (.onSlots (cleared name))).leave parent n target

def rooted : Namespace :=
  set (fun _ => none) 1 (some ((Member.ofMode .defaultDirectory).onLinks fun _ => 2))

/-- What a call that comes to an end may do to a namespace. -/
inductive Effect (ns : Namespace) : Request → Namespace → Prop where
  | keep (r : Request) : Effect ns r ns
  | create {parent n : UInt32} {name : String} {mode : Mode} {owner : Owner} {now : Int64}
      (hdirectory : ns.isDirectory parent = true) (hname : Entry.checkName name = .ok ())
      (hfresh : ns n = none) (hnumber : n ≠ 0) (hnew : ns.lookup parent name = none) :
      Effect ns (.create parent name mode owner now) (ns.create parent name mode n)
  | createInode {n : UInt32} {mode : Mode} {owner : Owner} {now : Int64} (hfresh : ns n = none)
      (hnumber : n ≠ 0) :
      Effect ns (.createInode owner mode now) (ns.set n (some (.ofMode mode)))
  | insert {dir target : UInt32} {name : String} {now : Int64} {t : Member}
      (hdirectory : ns.isDirectory dir = true) (hname : Entry.checkName name = .ok ())
      (htarget : ns target = some t) (hnumber : target ≠ 0) :
      Effect ns (.insert dir name target now) (ns.insert dir name target)
  | remove {parent n : UInt32} {name : String} {now : Int64} {target : Member}
      (hfound : ns.lookup parent name = some n) (htarget : ns n = some target)
      (hspare : target.maySpareName = true) :
      Effect ns (.remove parent name now) (ns.remove parent name n target)
  | grow {n count : UInt32} {m : Member} (hlive : ns n = some m) :
      Effect ns (.allocateExtent n count) (ns.edit n (.onSlots
        (· ++ List.replicate (count.toNat * Entry.slotsPerBlock) blankEntry)))

variable {ns : Namespace} {n k : UInt32} {m : Member} {x y : Option Member} {f g : Member → Member}

@[simp] theorem set_self : ns.set n x n = x := Function.update_self ..

@[simp] theorem set_ne (h : k ≠ n) : ns.set n x k = ns k := Function.update_of_ne h ..

theorem set_apply : ns.set n x k = if k = n then x else ns k := Function.update_apply ..

theorem set_eq_self (h : ns n = x) : ns.set n x = ns := by
  rw [set, ← h, Function.update_eq_self]

@[simp] theorem set_set : (ns.set n x).set n y = ns.set n y := Function.update_idem ..

@[simp] theorem edit_self : ns.edit n f n = (ns n).map f := set_self

@[simp] theorem edit_ne (h : k ≠ n) : ns.edit n f k = ns k := set_ne h

theorem edit_eq (h : ns n = some m) : ns.edit n f = ns.set n (some (f m)) := by
  rw [edit, h, Option.map_some]

theorem edit_congr (h : ∀ m, ns n = some m → f m = g m) : ns.edit n f = ns.edit n g := by
  rw [edit, edit]
  congr 1
  cases hn : ns n with
  | none => rfl
  | some m => rw [Option.map_some, Option.map_some, h m hn]

theorem edit_id (h : ∀ m, ns n = some m → f m = m) : ns.edit n f = ns := by
  apply set_eq_self
  cases hn : ns n with
  | none => rfl
  | some m => rw [Option.map_some, h m hn]

theorem isDirectory_iff : ns.isDirectory n = true ↔ ∃ m, ns n = some m ∧ m.isDirectory = true := by
  rw [isDirectory, Option.any_eq_true]

theorem ne_of_isDirectory (h : ns.isDirectory n = true) (hfresh : ns k = none) : n ≠ k := by
  rintro rfl
  rw [isDirectory, hfresh] at h
  cases h

variable {parent : UInt32} {name : String} {mode : Mode}

theorem create_self (hne : n ≠ parent) : ns.create parent name mode n n =
    some { Member.ofMode mode with links := if mode.isDirectory then 2 else 1 } := by
  rw [create]
  cases mode.isDirectory with
  | true =>
    rw [if_pos rfl, edit_ne hne, edit_self, enter, edit_ne hne, set_self]
    rfl
  | false =>
    rw [if_neg Bool.false_ne_true, enter, edit_ne hne, set_self]
    rfl

theorem create_parent (hne : n ≠ parent) (hm : ns parent = some m) :
    ns.create parent name mode n parent = some ((m.onSlots (placed ⟨Entry.fieldOf name, n⟩)).onLinks
      (· + if mode.isDirectory then 1 else 0)) := by
  rw [create]
  cases mode.isDirectory with
  | true =>
    rw [if_pos rfl, edit_self, edit_ne hne.symm, enter, edit_self, set_ne hne.symm, hm]
    rfl
  | false =>
    rw [if_neg Bool.false_ne_true, enter, edit_self, set_ne hne.symm, hm]
    rfl

theorem create_ne (hn : k ≠ n) (hparent : k ≠ parent) : ns.create parent name mode n k = ns k := by
  rw [create]
  split
  · rw [edit_ne hparent, edit_ne hn, enter, edit_ne hparent, set_ne hn]
  · rw [enter, edit_ne hparent, set_ne hn]

theorem directory_of_lookup {dir : UInt32} {name : String} (h : ns.lookup dir name = some n) :
    ∃ m, ns dir = some m ∧ m.isDirectory = true ∧ m.lookup name = some n := by
  obtain ⟨m, hm, hfound⟩ := Option.bind_eq_some_iff.1 h
  refine ⟨m, hm, ?_, hfound⟩
  cases hslots : m.slots with
  | none => simp [Member.lookup, Member.entries, hslots] at hfound
  | some l => simp [Member.isDirectory, hslots]

end Namespace

end ExtentVolume
