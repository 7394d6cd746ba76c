import ExtentVolume.Proofs.EntryName
import ExtentVolume.Proofs.Namespace

namespace ExtentVolume

open Directory

abbrev SlotList := List (Option (String × UInt32))

namespace SlotList

def lookup (name : String) : SlotList → Option UInt32
  | [] => none
  | none :: l => lookup name l
  | some (held, n) :: l => if held = name then some n else lookup name l

def occupied (l : SlotList) : List (String × UInt32) := l.filterMap id

def blank (count : Nat) : SlotList := List.replicate count none

/-- Fills the first empty slot, or the first one of a new block. -/
def put (name : String) (n : UInt32) : SlotList → SlotList
  | [] => some (name, n) :: blank 127
  | none :: l => some (name, n) :: l
  | some held :: l => some held :: put name n l

def clear (name : String) : SlotList → SlotList
  | [] => []
  | none :: l => none :: clear name l
  | some (held, n) :: l => if held = name then none :: l else some (held, n) :: clear name l

end SlotList

def Entry.slot (e : Entry) : Option (String × UInt32) :=
  if e.isFree then none else some (e.name, e.inode)

variable {l : List Entry} {e : Entry} {name : String} {n : UInt32}

theorem Entry.slot_free (h : e.isFree = true) : e.slot = none := if_pos h

theorem Entry.slot_used (h : e.isFree = false) : e.slot = some (e.name, e.inode) :=
  if_neg (by rw [h]; exact Bool.false_ne_true)

theorem Entry.slot_eq_none_iff : e.slot = none ↔ e.isFree = true := by
  cases h : e.isFree with
  | true => simp [slot_free h]
  | false => simp [slot_used h]

theorem Entry.slot_fieldOf (hname : Entry.checkName name = .ok ()) (hn : n ≠ 0) :
    Entry.slot ⟨Entry.fieldOf name, n⟩ = some (name, n) := by
  rw [slot_used (beq_eq_false_iff_ne.2 hn), Entry.name_fieldOf hname]

theorem map_slot_blank (count : Nat) :
    (List.replicate count blankEntry).map Entry.slot = SlotList.blank count :=
  List.map_replicate

theorem none_mem_iff : none ∈ l.map Entry.slot ↔ l.any (·.isFree) = true := by
  rw [List.mem_map, List.any_eq_true]
  simp only [Entry.slot_eq_none_iff]

theorem occupied_map_slot (l : List Entry) :
    SlotList.occupied (l.map Entry.slot) =
      (l.filter (!·.isFree)).map fun e => (e.name, e.inode) := by
  induction l with
  | nil => rfl
  | cons e l ih =>
    rw [SlotList.occupied] at ih ⊢
    cases h : e.isFree with
    | true => simpa [Entry.slot_free h, h] using ih
    | false => simpa [Entry.slot_used h, h] using ih

theorem occupied_eq_nil_iff : SlotList.occupied (l.map Entry.slot) = [] ↔
    l.all (·.isFree) = true := by
  rw [occupied_map_slot, List.map_eq_nil_iff, List.filter_eq_nil_iff, List.all_eq_true]
  simp

theorem lookup_map_slot (hl : ∀ e ∈ l, e.Legible) (name : String) :
    SlotList.lookup name (l.map Entry.slot) = (l.find? (·.isFor name)).map (·.inode) := by
  induction l with
  | nil => rfl
  | cons e l ih =>
    rw [List.forall_mem_cons] at hl
    rw [List.map_cons, List.find?_cons, hl.1.isFor_eq name]
    cases h : e.isFree with
    | true =>
      rw [Entry.slot_free h]
      exact ih hl.2
    | false =>
      rw [Entry.slot_used h, SlotList.lookup, Bool.not_false, Bool.true_and]
      split
      · rename_i hname
        rw [hname, beq_self_eq_true]
        rfl
      · rename_i hname
        rw [beq_eq_false_iff_ne.2 hname]
        exact ih hl.2

theorem placed_cons (entry e : Entry) (l : List Entry) :
    placed entry (e :: l) = if e.isFree then entry :: l else e :: placed entry l := by
  rw [placed, placed, List.any_cons, List.findIdx_cons]
  cases h : e.isFree with
  | true => rfl
  | false =>
    simp only [Bool.false_or, cond_false, Bool.false_eq_true, if_false]
    split <;> rfl

theorem cleared_cons (name : String) (e : Entry) (l : List Entry) :
    cleared name (e :: l) = if e.isFor name then blankEntry :: l else e :: cleared name l := by
  rw [cleared, cleared, List.findIdx_cons]
  cases h : e.isFor name <;> rfl

theorem find?_placed {entry : Entry} (hentry : entry.isFor name = true)
    (hl : l.find? (·.isFor name) = none) :
    (placed entry l).find? (·.isFor name) = some entry := by
  induction l with
  | nil => exact List.find?_cons_of_pos hentry
  | cons e l ih =>
    rw [placed_cons]
    cases he : e.isFor name with
    | true =>
      rw [List.find?_cons, he] at hl
      cases hl
    | false =>
      rw [List.find?_cons, he] at hl
      cases e.isFree with
      | true => exact List.find?_cons_of_pos hentry
      | false =>
        rw [if_neg Bool.false_ne_true, List.find?_cons, he]
        exact ih hl

theorem find?_placed_other {entry : Entry} (hentry : entry.isFor name = false) (l : List Entry) :
    (placed entry l).find? (·.isFor name) = l.find? (·.isFor name) := by
  induction l with
  | nil =>
    refine (List.find?_cons_of_neg (by rw [hentry]; exact Bool.false_ne_true)).trans ?_
    rw [List.find?_nil, List.find?_eq_none]
    intro e he
    rw [List.eq_of_mem_replicate he, Entry.not_isFor_of_free rfl]
    exact Bool.false_ne_true
  | cons e l ih =>
    rw [placed_cons]
    cases hfree : e.isFree with
    | true => rw [if_pos rfl, List.find?_cons, List.find?_cons, hentry, Entry.not_isFor_of_free hfree]
    | false => rw [if_neg Bool.false_ne_true, List.find?_cons, List.find?_cons, ih]

theorem put_map_slot (hname : Entry.checkName name = .ok ()) (hn : n ≠ 0) (l : List Entry) :
    (placed ⟨Entry.fieldOf name, n⟩ l).map Entry.slot =
      SlotList.put name n (l.map Entry.slot) := by
  induction l with
  | nil =>
    rw [List.map_nil, SlotList.put, ← map_slot_blank, ← Entry.slot_fieldOf hname hn,
      ← List.map_cons]
    rfl
  | cons e l ih =>
    rw [placed_cons, List.map_cons]
    cases h : e.isFree with
    | true =>
      rw [if_pos rfl, List.map_cons, Entry.slot_fieldOf hname hn, Entry.slot_free h]
      rfl
    | false =>
      rw [if_neg Bool.false_ne_true, List.map_cons, ih, Entry.slot_used h]
      rfl

theorem clear_map_slot (hl : ∀ e ∈ l, e.Legible) (name : String) :
    (cleared name l).map Entry.slot = SlotList.clear name (l.map Entry.slot) := by
  induction l with
  | nil => rfl
  | cons e l ih =>
    rw [List.forall_mem_cons] at hl
    rw [cleared_cons, List.map_cons, hl.1.isFor_eq name]
    cases h : e.isFree with
    | true =>
      rw [Entry.slot_free h, SlotList.clear, ← ih hl.2]
      exact congrArg (· :: _) (Entry.slot_free h)
    | false =>
      rw [Entry.slot_used h, SlotList.clear, Bool.not_false, Bool.true_and]
      split
      · rename_i hheld
        rw [if_pos (eq_of_beq hheld)]
        rfl
      · rename_i hheld
        rw [if_neg (ne_of_beq_false (Bool.not_eq_true _ ▸ hheld)), List.map_cons, ih hl.2,
          Entry.slot_used h]

theorem legible_blank : blankEntry.Legible := .inl rfl

theorem legible_placed {entry : Entry} (hentry : entry.Legible) (hl : ∀ e ∈ l, e.Legible) :
    ∀ e ∈ placed entry l, e.Legible := by
  induction l with
  | nil =>
    refine List.forall_mem_cons.2 ⟨hentry, fun e he => ?_⟩
    rw [List.eq_of_mem_replicate he]
    exact legible_blank
  | cons x l ih =>
    rw [List.forall_mem_cons] at hl
    rw [placed_cons]
    split
    · exact List.forall_mem_cons.2 ⟨hentry, hl.2⟩
    · exact List.forall_mem_cons.2 ⟨hl.1, ih hl.2⟩

theorem legible_cleared (name : String) (hl : ∀ e ∈ l, e.Legible) :
    ∀ e ∈ cleared name l, e.Legible := by
  induction l with
  | nil => exact hl
  | cons x l ih =>
    rw [List.forall_mem_cons] at hl
    rw [cleared_cons]
    split
    · exact List.forall_mem_cons.2 ⟨legible_blank, hl.2⟩
    · exact List.forall_mem_cons.2 ⟨hl.1, ih hl.2⟩

theorem legible_append_blank (count : Nat) (hl : ∀ e ∈ l, e.Legible) :
    ∀ e ∈ l ++ List.replicate count blankEntry, e.Legible := by
  refine List.forall_mem_append.2 ⟨hl, fun e he => ?_⟩
  rw [List.eq_of_mem_replicate he]
  exact legible_blank

namespace Member

def Legible (m : Member) : Prop := ∀ e ∈ m.entries, e.Legible

variable {m : Member}

theorem legible_onLinks (f : Nat → Nat) (h : m.Legible) : (m.onLinks f).Legible := h

theorem legible_onSlots {f : List Entry → List Entry} (h : m.Legible)
    (hf : ∀ l, (∀ e ∈ l, e.Legible) → ∀ e ∈ f l, e.Legible) : (m.onSlots f).Legible := by
  rw [Legible, entries] at h ⊢
  rw [onSlots]
  cases hslots : m.slots with
  | none => simp
  | some l =>
    rw [hslots] at h
    exact hf l h

theorem legible_ofMode (mode : Mode) : (ofMode mode).Legible := by
  rw [Legible, entries, ofMode]
  cases mode.isDirectory with
  | true => exact legible_append_blank (l := []) Entry.slotsPerBlock (by simp)
  | false => simp

end Member

namespace Namespace

def Legible (ns : Namespace) : Prop := ∀ d m, ns d = some m → m.Legible

variable {ns ns' : Namespace} {r : Request}

theorem Legible.set {x : Option Member} (h : ns.Legible) (d : UInt32)
    (hx : ∀ m, x = some m → m.Legible) : (ns.set d x).Legible := by
  intro k m hm
  rw [set_apply] at hm
  split at hm
  · exact hx m hm
  · exact h k m hm

theorem Legible.edit {f : Member → Member} (h : ns.Legible) (d : UInt32)
    (hf : ∀ m : Member, m.Legible → (f m).Legible) : (ns.edit d f).Legible := by
  refine h.set d fun m hm => ?_
  obtain ⟨old, hold, rfl⟩ := Option.map_eq_some_iff.1 hm
  exact hf old (h d old hold)

theorem Legible.onLinks (h : ns.Legible) (d : UInt32) (f : Nat → Nat) :
    (ns.edit d (.onLinks f)).Legible := h.edit d fun _ => Member.legible_onLinks f

theorem Legible.onSlots {f : List Entry → List Entry} (h : ns.Legible) (d : UInt32)
    (hf : ∀ l, (∀ e ∈ l, e.Legible) → ∀ e ∈ f l, e.Legible) : (ns.edit d (.onSlots f)).Legible :=
  h.edit d fun _ hm => Member.legible_onSlots hm hf

theorem Legible.enter (h : ns.Legible) (d : UInt32) (hname : Entry.checkName name = .ok ())
    (n : UInt32) : (ns.enter d name n).Legible :=
  h.onSlots d fun _ => legible_placed (Entry.legible_fieldOf hname)

theorem Legible.leave (h : ns.Legible) (parent n : UInt32) (target : Member) :
    (ns.leave parent n target).Legible := by
  rw [Namespace.leave]
  split
  · refine Legible.set ?_ n fun m hm => by cases hm
    split
    · exact h.onLinks parent _
    · exact h
  · exact h.onLinks n _

theorem legible_rooted : Legible .rooted :=
  Legible.set (fun _ _ hm => by cases hm) 1 fun _ hm => by
    obtain rfl := Option.some.inj hm
    exact Member.legible_ofMode .defaultDirectory

theorem Legible.effect (h : ns.Legible) (heffect : ns.Effect r ns') : ns'.Legible := by
  cases heffect with
  | keep => exact h
  | @create parent n name mode _ _ _ hname =>
    have hentered := (h.set n (x := some (.ofMode mode)) fun m hm => by
      obtain rfl := Option.some.inj hm
      exact Member.legible_ofMode mode).enter parent hname n
    rw [Namespace.create]
    split
    · exact (hentered.onLinks n _).onLinks parent _
    · exact hentered
  | createInode =>
    refine h.set _ fun m hm => ?_
    obtain rfl := Option.some.inj hm
    exact Member.legible_ofMode _
  | insert _ hname => exact (h.enter _ hname _).onLinks _ _
  | remove => exact (h.onSlots _ fun _ => legible_cleared _).leave _ _ _
  | grow => exact h.onSlots _ fun _ => legible_append_blank _

end Namespace

/-- The directories in use, as lists of their slots. -/
abbrev SlotLists := UInt32 → Option SlotList

namespace SlotLists

def set (lists : SlotLists) (d : UInt32) (l : Option SlotList) : SlotLists :=
  Function.update lists d l

def edit (lists : SlotLists) (d : UInt32) (f : SlotList → SlotList) : SlotLists :=
  lists.set d ((lists d).map f)

end SlotLists

def Member.slotList? (m : Member) : Option SlotList := m.slots.map (·.map Entry.slot)

theorem Member.slotList?_eq_some {m : Member} {l : SlotList} (h : m.slotList? = some l) :
    l = m.entries.map Entry.slot := by
  obtain ⟨entries, hslots, rfl⟩ := Option.map_eq_some_iff.1 h
  rw [Member.entries, hslots, Option.getD_some]

/-- The list of a new inode, if it is a directory. -/
def Mode.slotList? (mode : Mode) : Option SlotList :=
  if mode.isDirectory then some (.blank 128) else none

namespace Namespace

def slotLists (ns : Namespace) : SlotLists := fun d => (ns d).bind (·.slotList?)

variable {ns ns' : Namespace}

theorem slotLists_set (ns : Namespace) (d : UInt32) (x : Option Member) :
    (ns.set d x).slotLists = ns.slotLists.set d (x.bind (·.slotList?)) := by
  funext k
  rw [slotLists, set_apply, SlotLists.set, Function.update_apply]
  split <;> rfl

theorem slotLists_edit {d : UInt32} {f : Member → Member} {g : SlotList → SlotList}
    (h : ∀ m, ns d = some m → (f m).slotList? = m.slotList?.map g) :
    (ns.edit d f).slotLists = ns.slotLists.edit d g := by
  rw [Namespace.edit, slotLists_set, SlotLists.edit]
  congr 1
  rw [slotLists]
  cases hm : ns d with
  | none => rfl
  | some m => exact h m hm

theorem slotLists_onLinks (ns : Namespace) (d : UInt32) (f : Nat → Nat) :
    (ns.edit d (.onLinks f)).slotLists = ns.slotLists := by
  have hid : (ns.edit d (.onLinks f)).slotLists = ns.slotLists.edit d id :=
    slotLists_edit fun m _ => (Option.map_id_apply ..).symm
  rw [hid, SlotLists.edit, Option.map_id_apply, SlotLists.set, Function.update_eq_self]

theorem slotLists_onSlots {d : UInt32} {f : List Entry → List Entry} {g : SlotList → SlotList}
    (h : ns.Legible)
    (hf : ∀ l : List Entry, (∀ e ∈ l, e.Legible) → (f l).map Entry.slot = g (l.map Entry.slot)) :
    (ns.edit d (.onSlots f)).slotLists = ns.slotLists.edit d g := by
  refine slotLists_edit fun m hm => ?_
  have hlegible := h d m hm
  rw [Member.Legible, Member.entries] at hlegible
  rw [Member.slotList?, Member.onSlots, Member.slotList?]
  cases hslots : m.slots with
  | none => rfl
  | some l =>
    rw [hslots] at hlegible
    exact congrArg some (hf l hlegible)

theorem slotList?_ofMode (mode : Mode) : (Member.ofMode mode).slotList? = mode.slotList? := by
  rw [Member.slotList?, Member.ofMode, Mode.slotList?]
  cases mode.isDirectory with
  | true => exact congrArg some (map_slot_blank Entry.slotsPerBlock)
  | false => rfl

theorem slotLists_enter (h : ns.Legible) (d : UInt32) (hname : Entry.checkName name = .ok ())
    (hn : n ≠ 0) : (ns.enter d name n).slotLists = ns.slotLists.edit d (.put name n) :=
  slotLists_onSlots h fun l _ => put_map_slot hname hn l

theorem slotLists_insert (h : ns.Legible) (d : UInt32) (hname : Entry.checkName name = .ok ())
    (hn : n ≠ 0) : (ns.insert d name n).slotLists = ns.slotLists.edit d (.put name n) := by
  rw [Namespace.insert, slotLists_onLinks, slotLists_enter h d hname hn]

theorem slotLists_create (h : ns.Legible) (parent : UInt32)
    (hname : Entry.checkName name = .ok ()) (hn : n ≠ 0) (mode : Mode) :
    (ns.create parent name mode n).slotLists =
      (ns.slotLists.set n mode.slotList?).edit parent (.put name n) := by
  have hset : (ns.set n (some (.ofMode mode))).Legible := h.set n fun m hm => by
    obtain rfl := Option.some.inj hm
    exact Member.legible_ofMode mode
  have hentered := slotLists_enter hset parent hname hn
  rw [slotLists_set, Option.bind_some, slotList?_ofMode] at hentered
  rw [Namespace.create, ← hentered]
  cases mode.isDirectory with
  | true =>
    rw [if_pos rfl, slotLists_onLinks, slotLists_onLinks]
  | false => rfl

theorem slotLists_leave (parent n : UInt32) (target : Member) :
    (ns.leave parent n target).slotLists =
      if target.hasOneName then ns.slotLists.set n none else ns.slotLists := by
  rw [Namespace.leave]
  split
  · rw [slotLists_set, Option.bind_none]
    split
    · rw [slotLists_onLinks]
    · rfl
  · rw [slotLists_onLinks]

theorem slotLists_remove (h : ns.Legible) (parent : UInt32) (name : String) (n : UInt32)
    (target : Member) :
    (ns.remove parent name n target).slotLists =
      if target.hasOneName then (ns.slotLists.edit parent (.clear name)).set n none
      else ns.slotLists.edit parent (.clear name) := by
  rw [Namespace.remove, slotLists_leave, slotLists_onSlots h fun l hl => clear_map_slot hl name]

theorem remove_self_eq_none_iff {target : Member} (htarget : ns n = some target) (parent : UInt32)
    (name : String) :
    ns.remove parent name n target n = none ↔ target.hasOneName = true := by
  have hlive : ns.edit parent (.onSlots (cleared name)) n ≠ none := by
    rw [Namespace.edit, set_apply]
    split
    · rename_i hn
      rw [← hn, htarget]
      exact Option.some_ne_none _
    · rw [htarget]
      exact Option.some_ne_none _
  rw [Namespace.remove, Namespace.leave]
  cases target.hasOneName with
  | true => simp
  | false => simpa using hlive

theorem slotLists_grow (h : ns.Legible) (d : UInt32) (count : Nat) :
    (ns.edit d (.onSlots (· ++ List.replicate count blankEntry))).slotLists =
      ns.slotLists.edit d (· ++ .blank count) :=
  slotLists_onSlots h fun l _ => by rw [List.map_append, map_slot_blank]

end Namespace

end ExtentVolume
