import ExtentVolume.Proofs.Saved
import ExtentVolume.Proofs.SlotList

namespace ExtentVolume

open Directory (placed cleared)

/-- A call on names in one directory, or on the content of a file. -/
inductive Request.StaysIn (d : UInt32) : Request → Prop where
  | create (name : String) (mode : Mode) (owner : Owner) (now : Int64) :
      StaysIn d (.create d name mode owner now)
  | remove (name : String) (now : Int64) : StaysIn d (.remove d name now)
  | write (n : UInt32) (offset : Nat) (bytes : List UInt8) (now : Int64) :
      StaysIn d (.write n offset bytes now)

namespace Namespace

/-- Each name is found in the directory before it and leads to the directory beside it. -/
def Leads (ns : Namespace) : UInt32 → List (String × UInt32) → Prop
  | _, [] => True
  | d, (name, n) :: rest => ns.lookup d name = some n ∧ ns.isDirectory n = true ∧ ns.Leads n rest

def tip (d : UInt32) (path : List (String × UInt32)) : UInt32 := (path.getLast?.map (·.2)).getD d

/-- The directories in which the names of a path are looked up. -/
def passed : UInt32 → List (String × UInt32) → List UInt32
  | _, [] => []
  | d, (_, n) :: rest => d :: passed n rest

variable {ns ns' : Namespace} {o : Origins} {d n m : UInt32} {name : String}
  {path : List (String × UInt32)}

theorem tip_cons (d : UInt32) (name : String) (n : UInt32) (path : List (String × UInt32)) :
    tip d ((name, n) :: path) = tip n path := by
  rw [tip, List.getLast?_cons, Option.map_some, Option.getD_some, tip]
  cases path.getLast? <;> rfl

theorem tip_concat (d : UInt32) (name : String) (n : UInt32) (path : List (String × UInt32)) :
    tip d (path ++ [(name, n)]) = n := by
  rw [tip, List.getLast?_concat]
  rfl

theorem passed_concat (d : UInt32) (name : String) (n : UInt32) (path : List (String × UInt32)) :
    passed d (path ++ [(name, n)]) = passed d path ++ [tip d path] := by
  induction path generalizing d with
  | nil => rfl
  | cons step path ih =>
    obtain ⟨x, k⟩ := step
    rw [tip_cons, List.cons_append, passed, ih, passed, List.cons_append]

theorem mem_of_passed (h : m ∈ passed d path ∨ m = tip d path) : m = d ∨ m ∈ path.map Prod.snd := by
  induction path generalizing d with
  | nil => exact .inl (h.resolve_left (List.not_mem_nil))
  | cons step path ih =>
    obtain ⟨x, k⟩ := step
    rw [tip_cons, passed, List.mem_cons] at h
    rw [List.map_cons, List.mem_cons]
    obtain (rfl | hm) | hm := h
    · exact .inl rfl
    · exact .inr (ih (.inl hm))
    · exact .inr (ih (.inr hm))

theorem leads_concat : ns.Leads d (path ++ [(name, n)]) ↔
    ns.Leads d path ∧ ns.lookup (tip d path) name = some n ∧ ns.isDirectory n = true := by
  induction path generalizing d with
  | nil => simp [Leads, tip]
  | cons step path ih =>
    obtain ⟨x, k⟩ := step
    rw [List.cons_append, Leads, Leads, ih, tip_cons, and_assoc, and_assoc]

theorem Leads.dropLast (h : ns.Leads d path) : ns.Leads d path.dropLast := by
  induction path using List.reverseRecOn with
  | nil => exact h
  | append_singleton path step =>
    obtain ⟨x, k⟩ := step
    rw [List.dropLast_concat]
    exact (leads_concat.1 h).1

theorem Leads.tip_isDirectory (h : ns.Leads d path) (hd : ns.isDirectory d = true) :
    ns.isDirectory (tip d path) = true := by
  induction path using List.reverseRecOn with
  | nil => exact hd
  | append_singleton path step =>
    obtain ⟨x, k⟩ := step
    rw [tip_concat]
    exact (leads_concat.1 h).2.2

theorem Leads.congr (h : ns.Leads d path)
    (hlookup : ∀ k ∈ passed d path, ∀ name m, ns.lookup k name = some m → ns'.lookup k name = some m)
    (hdirectory : ∀ k ∈ path.map Prod.snd, ns.isDirectory k = true → ns'.isDirectory k = true) :
    ns'.Leads d path := by
  induction path generalizing d with
  | nil => trivial
  | cons step path ih =>
    obtain ⟨x, k⟩ := step
    obtain ⟨hfound, hk, hrest⟩ := h
    rw [passed, List.forall_mem_cons] at hlookup
    rw [List.map_cons, List.forall_mem_cons] at hdirectory
    exact ⟨hlookup.1 x k hfound, hdirectory.1 hk, ih hrest hlookup.2 hdirectory.2⟩

theorem Leads.origin (h : ns.Leads d path) (hlinked : Linked ns o) (hm : m ∈ path.map Prod.snd) :
    ∃ k ∈ passed d path, o m = some k := by
  induction path generalizing d with
  | nil => cases hm
  | cons step path ih =>
    obtain ⟨x, n⟩ := step
    obtain ⟨hfound, hn, hrest⟩ := h
    rw [List.map_cons, List.mem_cons] at hm
    rw [passed]
    obtain rfl | hm := hm
    · exact ⟨d, List.mem_cons_self,
        hlinked.home d m (lookup_ne_zero hfound) hn (mentions_pos hfound)⟩
    · obtain ⟨k, hk, horigin⟩ := ih hrest hm
      exact ⟨k, List.mem_cons_of_mem d hk, horigin⟩

theorem Leads.isDirectory (h : ns.Leads d path) (hm : m ∈ path.map Prod.snd) :
    ns.isDirectory m = true := by
  induction path generalizing d with
  | nil => cases hm
  | cons step path ih =>
    obtain ⟨x, n⟩ := step
    obtain ⟨-, hn, hrest⟩ := h
    rw [List.map_cons, List.mem_cons] at hm
    obtain rfl | hm := hm
    · exact hn
    · exact ih hrest hm

theorem Leads.not_mem_of_named (h : ns.Leads 1 path) (hlinked : Linked ns o)
    (hanchored : ns.Anchored) (htip : tip 1 path ∉ passed 1 path)
    (hfound : ns.lookup (tip 1 path) name = some n) : n ≠ 1 ∧ n ∉ path.map Prod.snd := by
  constructor
  · rintro rfl
    exact Nat.ne_of_gt (names_pos hfound) hanchored.unnamed
  · intro hmem
    obtain ⟨k, hk, horigin⟩ := h.origin hlinked hmem
    have hhome := hlinked.home _ n (lookup_ne_zero hfound) (h.isDirectory hmem) (mentions_pos hfound)
    obtain rfl := Option.some.inj (horigin.symm.trans hhome)
    exact htip hk

theorem Leads.tip_not_passed (h : ns.Leads 1 path) (hlinked : Linked ns o)
    (hanchored : ns.Anchored) : tip 1 path ∉ passed 1 path := by
  induction path using List.reverseRecOn with
  | nil => exact List.not_mem_nil
  | append_singleton path step ih =>
    obtain ⟨x, n⟩ := step
    obtain ⟨hpath, hfound, -⟩ := leads_concat.1 h
    obtain ⟨hne, hmem⟩ := hpath.not_mem_of_named hlinked hanchored (ih hpath) hfound
    rw [tip_concat, passed_concat, List.mem_append, List.mem_singleton]
    exact fun hn => (mem_of_passed hn).elim hne hmem

theorem lookup_create {parent : UInt32} {x : String} {mode : Mode}
    (hdirectory : ns.isDirectory parent = true) (hname : Entry.checkName name = .ok ())
    (hfresh : ns n = none) (hnumber : n ≠ 0) (hnew : ns.lookup parent name = none)
    (hfound : ns.lookup d x = some m) :
    (ns.create parent name mode n).lookup d x = some m := by
  have hne := (ne_of_isDirectory hdirectory hfresh).symm
  obtain ⟨dir, hdir, hkind, hlookup⟩ := directory_of_lookup hfound
  by_cases hd : d = parent
  · subst hd
    obtain ⟨l, hslots⟩ := Option.isSome_iff_exists.1 hkind
    have hother : Entry.isFor ⟨Entry.fieldOf name, n⟩ x = false := by
      rw [← Bool.not_eq_true]
      intro hx
      obtain rfl := Entry.isFor_unique (Entry.isFor_fieldOf hname hnumber) hx
      rw [hnew] at hfound
      cases hfound
    rw [Member.lookup, Member.entries, hslots, Option.getD_some] at hlookup
    rw [lookup, create_parent hne hdir, Option.bind_some, Member.lookup, Member.entries,
      Member.onLinks, Member.onSlots, hslots, Option.map_some, Option.getD_some,
      find?_placed_other hother, hlookup]
  · have hdn : d ≠ n := by
      rintro rfl
      rw [hfresh] at hdir
      cases hdir
    rw [lookup, create_ne hdn hd, ← lookup, hfound]

theorem remove_ne {parent : UInt32} {target : Member} (hparent : d ≠ parent) (hn : d ≠ n) :
    ns.remove parent name n target d = ns d := by
  cases hone : target.hasOneName with
  | false => rw [remove_kept hone, edit_ne hn, edit_ne hparent]
  | true =>
    rw [remove_last hone, set_ne hn]
    split
    · rw [edit_ne hparent, edit_ne hparent]
    · rw [edit_ne hparent]

theorem Leads.remove (h : ns.Leads 1 path) (hlinked : Linked ns o) (hanchored : ns.Anchored)
    {target : Member} (hfound : ns.lookup (tip 1 path) name = some n) :
    (ns.remove (tip 1 path) name n target).Leads 1 path := by
  have htip := h.tip_not_passed hlinked hanchored
  obtain ⟨hone, hmem⟩ := h.not_mem_of_named hlinked hanchored htip hfound
  have hpassed : ∀ k ∈ passed 1 path, k ≠ tip 1 path ∧ k ≠ n := by
    intro k hk
    constructor
    · rintro rfl
      exact htip hk
    · rintro rfl
      exact (mem_of_passed (.inl hk)).elim hone hmem
  refine h.congr (fun k hk x m hx => ?_) fun k hk hdirectory => ?_
  · obtain ⟨hparent, hn⟩ := hpassed k hk
    rw [lookup, remove_ne hparent hn, ← lookup, hx]
  · have hn : k ≠ n := by
      rintro rfl
      exact hmem hk
    rw [isDirectory_remove hn, hdirectory]

theorem Leads.step {r : Request} (h : ns.Leads 1 path) (hlinked : Linked ns o)
    (hanchored : ns.Anchored) (heffect : ns.Effect r ns') (hr : r.StaysIn (tip 1 path)) :
    ns'.Leads 1 path := by
  cases hr with
  | create =>
    cases heffect with
    | keep => exact h
    | create hdirectory hname hfresh hnumber hnew =>
      refine h.congr (fun k _ x m => lookup_create hdirectory hname hfresh hnumber hnew)
        fun k _ hk => ?_
      rw [isDirectory_create (ne_of_isDirectory hdirectory hfresh),
        if_neg (ne_of_isDirectory hk hfresh), hk]
  | remove =>
    cases heffect with
    | keep => exact h
    | remove hfound => exact h.remove hlinked hanchored hfound
  | write =>
    cases heffect with
    | keep => exact h

end Namespace

theorem Linked.stays {ns ns' : Namespace} {o : Origins} {r : Request} {d : UInt32}
    (h : Linked ns o) (heffect : ns.Effect r ns') (hr : r.StaysIn d) : ∃ o', Linked ns' o' := by
  cases hr with
  | create name mode owner now =>
    cases heffect with
    | keep => exact ⟨o, h⟩
    | create hdirectory hname hfresh hnumber =>
      exact ⟨o.after ns (.create d name mode owner now) _, h.create hdirectory hfresh hnumber⟩
  | remove name now =>
    cases heffect with
    | keep => exact ⟨o, h⟩
    | remove hfound htarget hspare =>
      exact ⟨o.after ns (.remove d name now) _, h.remove hfound htarget hspare⟩
  | write =>
    cases heffect with
    | keep => exact ⟨o, h⟩

namespace Volume

/-- Each name is found in the directory before it, and the inode beside it is a directory in use. -/
def Leads (v : Volume) : UInt32 → List (String × UInt32) → Prop
  | _, [] => True
  | d, (name, n) :: rest => v.lookup d name = .ok (some n) ∧ (∃ node, v.directory n = .ok node) ∧
      v.Leads n rest

variable {v : Volume} {d : UInt32} {path : List (String × UInt32)}

theorem Sound.exists_directory (h : v.Sound) (hd : v.members.isDirectory d = true) :
    ∃ node, v.directory d = .ok node := by
  obtain ⟨node, hlive, hnode⟩ := live_of_isDirectory hd
  exact ⟨node, h.directory_eq hlive hnode⟩

theorem Sound.leads (h : v.Sound) (hd : v.members.isDirectory d = true)
    (hpath : v.members.Leads d path) : v.Leads d path := by
  induction path generalizing d with
  | nil => trivial
  | cons step path ih =>
    obtain ⟨name, n⟩ := step
    obtain ⟨hfound, hn, hrest⟩ := hpath
    exact ⟨hfound ▸ h.lookup_ok hd name, h.exists_directory hn, ih hn hrest⟩

end Volume

end ExtentVolume
