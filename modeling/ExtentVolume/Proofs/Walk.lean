import Mathlib.Algebra.GroupWithZero.Nat
import ExtentVolume.Proofs.Persistence
import ExtentVolume.Proofs.Rehearsal

namespace ExtentVolume

namespace Directory

/-- The entries that a walk meets before it has met `limit` of them, each with the number of its
slot. -/
def met (data : BlockCache) (dir : Inode) : (position limit : Nat) → List (Entry × Nat)
  | _, 0 => []
  | position, limit + 1 =>
    match next data dir position with
    | ⟨position, some (.ok entry)⟩ => (entry, position - 1) :: met data dir position limit
    | _ => []

def occupiedFrom (l : List Entry) (position : Nat) : List (Entry × Nat) :=
  ((l.drop position).zipIdx position).filter fun r => !r.1.isFree

variable {data : BlockCache} {dir : Inode} {l : List Entry} {e : Entry} {k : Nat}

theorem list_entries_met (data : BlockCache) (dir : Inode) (position limit : Nat) :
    (list data dir position limit).entries = (met data dir position limit).map Prod.fst := by
  induction limit generalizing position with
  | zero => rfl
  | succ limit ih =>
    rw [list, met]
    obtain ⟨position', item⟩ := next data dir position
    cases item with
    | none => rfl
    | some entry =>
      cases entry with
      | error stop => rfl
      | ok entry => exact congrArg (entry :: ·) (ih position')

theorem mem_occupiedFrom {position : Nat} :
    (e, k) ∈ occupiedFrom l position ↔ position ≤ k ∧ l[k]? = some e ∧ e.isFree = false := by
  rw [occupiedFrom, List.mem_filter, List.mem_zipIdx_iff_le_and_getElem?_sub, List.getElem?_drop,
    Bool.not_eq_true']
  constructor
  · rintro ⟨⟨hle, hk⟩, hfree⟩
    rw [Nat.add_sub_cancel' hle] at hk
    exact ⟨hle, hk, hfree⟩
  · rintro ⟨hle, hk, hfree⟩
    refine ⟨⟨hle, ?_⟩, hfree⟩
    rwa [Nat.add_sub_cancel' hle]

theorem pairwise_occupiedFrom (l : List Entry) (position : Nat) :
    (occupiedFrom l position).Pairwise fun a b => a.2 < b.2 := by
  apply List.Pairwise.filter
  have hnumbers : (((l.drop position).zipIdx position).map Prod.snd).Pairwise (· < ·) := by
    rw [List.zipIdx_map_snd]
    exact List.pairwise_lt_range'
  exact List.pairwise_map.1 hnumbers

theorem occupiedFrom_of_none {position : Nat} (h : slotFrom l (!·.isFree) position = none) :
    occupiedFrom l position = [] := by
  rw [occupiedFrom, List.filter_eq_nil_iff]
  exact List.find?_eq_none.1 h

theorem occupiedFrom_of_some {position : Nat}
    (h : slotFrom l (!·.isFree) position = some (e, k)) :
    occupiedFrom l position = (e, k) :: occupiedFrom l (k + 1) := by
  obtain ⟨skipped, hl, rfl, he, hskip⟩ := slotFrom_some h
  have hnone : (skipped.zipIdx position).filter (fun r => !r.1.isFree) = [] := by
    rw [List.filter_eq_nil_iff]
    rintro ⟨a, i⟩ ha
    have hfree := hskip a (List.fst_mem_of_mem_zipIdx ha)
    simpa using hfree
  rw [occupiedFrom, hl, List.zipIdx_append, List.filter_append, hnone, List.nil_append,
    List.zipIdx_cons, List.filter_cons, if_pos he]
  rfl

theorem met_eq (h : Inside data dir) (position limit : Nat) :
    met data dir position limit = (occupiedFrom (slots data dir) position).take limit := by
  induction limit generalizing position with
  | zero => rfl
  | succ limit ih =>
    rw [met, next_eq h]
    cases hs : slotFrom (slots data dir) (!·.isFree) position with
    | none =>
      rw [occupiedFrom_of_none hs]
      rfl
    | some r =>
      rw [occupiedFrom_of_some hs, List.take_succ_cons, ← ih]
      rfl

/-- Where a batch stands at its end: behind all that it met, and behind the last slot if there was too
little to meet. -/
structure Stands (l : List Entry) (position limit : Nat) (found : List (Entry × Nat))
    (position' : Nat) : Prop where
  le : position ≤ position'
  split : occupiedFrom l position = found ++ occupiedFrom l position'
  behind : ∀ r ∈ found, r.2 < position'
  ended : found.length < limit → l.length ≤ position'

theorem list_stands (h : Inside data dir) (position limit : Nat) :
    Stands (slots data dir) position limit (met data dir position limit)
      (list data dir position limit).position := by
  induction limit generalizing position with
  | zero => exact ⟨Nat.le_refl _, rfl, by simp [met], fun hlt => absurd hlt (Nat.not_lt_zero _)⟩
  | succ limit ih =>
    rw [list, met, next_eq h]
    cases hs : slotFrom (slots data dir) (!·.isFree) position with
    | none =>
      have hend : occupiedFrom (slots data dir) (max position (slots data dir).length) = [] := by
        rw [occupiedFrom, List.drop_of_length_le (Nat.le_max_right _ _)]
        rfl
      refine ⟨Nat.le_max_left _ _, ?_, by simp, fun _ => Nat.le_max_right _ _⟩
      rw [occupiedFrom_of_none hs, hend]
      rfl
    | some r =>
      obtain ⟨e, k⟩ := r
      obtain ⟨hle, hsplit, hbehind, hended⟩ := ih (k + 1)
      obtain ⟨skipped, -, hk, -⟩ := slotFrom_some hs
      refine ⟨by simp only; omega, ?_, ?_, fun hlt => hended (Nat.lt_of_succ_lt_succ hlt)⟩
      · rw [occupiedFrom_of_some hs, hsplit]
        rfl
      · rintro r hr
        obtain rfl | hr := List.mem_cons.1 hr
        · exact hle
        · exact hbehind r hr

theorem filter_number {found : List (Entry × Nat)} (h : found.Pairwise fun a b => a.2 < b.2)
    (hmem : (e, k) ∈ found) : found.filter (·.2 == k) = [(e, k)] := by
  obtain ⟨before, behind, rfl⟩ := List.append_of_mem hmem
  obtain ⟨-, hbehind, hbefore⟩ := List.pairwise_append.1 h
  have hless : before.filter (·.2 == k) = [] := List.filter_eq_nil_iff.2 fun r hr => by
    have hlt := hbefore r hr (e, k) List.mem_cons_self
    simpa using Nat.ne_of_lt hlt
  have hmore : behind.filter (·.2 == k) = [] := List.filter_eq_nil_iff.2 fun r hr => by
    have hlt := (List.pairwise_cons.1 hbehind).1 r hr
    simpa using Nat.ne_of_gt hlt
  rw [List.filter_append, hless, List.nil_append, List.filter_cons_of_pos (by simp), hmore]

theorem filter_occupiedFrom (hk : l[k]? = some e) (hused : e.isFree = false) (position : Nat) :
    (occupiedFrom l position).filter (·.2 == k) = if position ≤ k then [(e, k)] else [] := by
  split
  · rename_i hle
    exact filter_number (pairwise_occupiedFrom l position) (mem_occupiedFrom.2 ⟨hle, hk, hused⟩)
  · rename_i hnot
    refine List.filter_eq_nil_iff.2 ?_
    rintro ⟨a, i⟩ hr
    obtain ⟨hle, -⟩ := mem_occupiedFrom.1 hr
    have hne : i ≠ k := by omega
    simpa using hne

theorem Stands.filter_found {position limit position' : Nat} {found : List (Entry × Nat)}
    (h : Stands l position limit found position') (hk : l[k]? = some e) (hused : e.isFree = false) :
    found.filter (·.2 == k) = if position ≤ k ∧ k < position' then [(e, k)] else [] := by
  have hsplit := congrArg (List.filter (·.2 == k)) h.split
  have hle := h.le
  rw [List.filter_append, filter_occupiedFrom hk hused, filter_occupiedFrom hk hused] at hsplit
  by_cases hpassed : position' ≤ k
  · rw [if_pos (Nat.le_trans hle hpassed), if_pos hpassed, List.self_eq_append_left] at hsplit
    rw [if_neg (by omega), hsplit]
  · rw [if_neg hpassed, List.append_nil] at hsplit
    rw [← hsplit]
    simp only [Nat.lt_of_not_le hpassed, and_true]

theorem Stands.numbers {position limit position' : Nat} {found : List (Entry × Nat)}
    (h : Stands l position limit found position') :
    found.Pairwise (fun a b => a.2 < b.2) ∧ ∀ r ∈ found, position ≤ r.2 ∧ r.2 < position' := by
  have hsorted := pairwise_occupiedFrom l position
  rw [h.split] at hsorted
  refine ⟨(List.pairwise_append.1 hsorted).1, fun r hr => ⟨?_, h.behind r hr⟩⟩
  have hmem : (r.1, r.2) ∈ occupiedFrom l position := by
    rw [h.split]
    exact List.mem_append_left _ hr
  exact (mem_occupiedFrom.1 hmem).1

theorem list_behind (h : Inside data dir) {position : Nat}
    (hle : (slots data dir).length ≤ position) (limit : Nat) :
    list data dir position limit = ⟨[], position, none⟩ := by
  cases limit with
  | zero => rfl
  | succ limit =>
    have hnone : slotFrom (slots data dir) (!·.isFree) position = none := by
      rw [slotFrom, List.drop_of_length_le hle]
      rfl
    rw [list, next_eq h, hnone]
    simp only [Nat.max_eq_left hle]

theorem list_add (h : Inside data dir) (position m n : Nat) :
    list data dir position (m + n) =
      { list data dir (list data dir position m).position n with
        entries := (list data dir position m).entries ++
          (list data dir (list data dir position m).position n).entries } := by
  induction m generalizing position with
  | zero => rw [Nat.zero_add]; rfl
  | succ m ih =>
    have hsucc : m + 1 + n = m + n + 1 := by omega
    rw [hsucc, list, list, next_eq h]
    cases hs : slotFrom (slots data dir) (!·.isFree) position with
    | none =>
      simp only [list_behind h (Nat.le_max_right _ _), List.append_nil]
    | some r =>
      obtain ⟨e, k⟩ := r
      simp only [ih]
      rfl

end Directory

/-- The entries of batches of these sizes, each of which goes on where the one before it ended. -/
def Volume.batches (v : Volume) (dir : UInt32) :
    (position : Nat) → List Nat → Fallible VolumeError (List Entry)
  | _, [] => return []
  | position, limit :: rest => do
    let listing ← v.list dir position limit
    return listing.entries ++ (← v.batches dir listing.position rest)

theorem Volume.Sound.batches_eq {v : Volume} (h : v.Sound) {dir : UInt32} {node : Inode}
    (hdir : v.directory dir = .ok node) (position : Nat) (limits : List Nat) :
    v.batches dir position limits =
      .ok (Directory.list v.data node position limits.sum).entries := by
  obtain ⟨hlive, -, hdirectory⟩ := live_of_directory h.whole.sized hdir
  induction limits generalizing position with
  | nil => rfl
  | cons limit rest ih =>
    rw [batches, h.list_eq hlive, if_pos hdirectory]
    simp only [ih, List.sum_cons, Directory.list_add (h.whole.inside hlive), bind, Except.bind,
      pure, Except.pure]

namespace Namespace

variable {ns ns' : Namespace} {r : Request} {dir n : UInt32} {k : Nat} {e : Entry}

/-- The directory has the entry in the slot, as long as it is a directory in use. -/
def KeepsSlot (ns : Namespace) (dir : UInt32) (k : Nat) (e : Entry) : Prop :=
  ns.isDirectory dir = true → (ns.entries dir)[k]? = some e

theorem KeepsSlot.of_ne (h : ns.KeepsSlot dir k e) (hsame : ns' dir = ns dir) :
    ns'.KeepsSlot dir k e := by
  rw [KeepsSlot, isDirectory, entries, hsame]
  exact h

theorem KeepsSlot.set_none (h : ns.KeepsSlot dir k e) (n : UInt32) :
    (ns.set n none).KeepsSlot dir k e := by
  by_cases hn : dir = n
  · subst hn
    intro hdirectory
    rw [isDirectory, set_self] at hdirectory
    cases hdirectory
  · exact h.of_ne (set_ne hn)

theorem KeepsSlot.onLinks (h : ns.KeepsSlot dir k e) (n : UInt32) (f : Nat → Nat) :
    (ns.edit n (.onLinks f)).KeepsSlot dir k e := by
  by_cases hn : dir = n
  · subst hn
    rw [KeepsSlot, isDirectory, entries, edit_self]
    rw [KeepsSlot, isDirectory, entries] at h
    cases hm : ns dir with
    | none => simp
    | some m =>
      rw [hm] at h
      exact h
  · exact h.of_ne (edit_ne hn)

theorem KeepsSlot.onSlots (h : ns.KeepsSlot dir k e) {f : List Entry → List Entry}
    (hf : dir = n → ∀ l : List Entry, ns.entries dir = l → l[k]? = some e → (f l)[k]? = some e) :
    (ns.edit n (.onSlots f)).KeepsSlot dir k e := by
  by_cases hn : dir = n
  · subst hn
    rw [KeepsSlot, isDirectory, entries, edit_self]
    rw [KeepsSlot, isDirectory] at h
    cases hm : ns dir with
    | none => simp
    | some m =>
      cases hslots : m.slots with
      | none => simp [Member.isDirectory, Member.onSlots, hslots]
      | some l =>
        have hl : ns.entries dir = l := by simp [entries, hm, Member.entries, hslots]
        intro _
        have hk := h (by simp [hm, Member.isDirectory, hslots])
        rw [hl] at hk
        simpa [Member.entries, Member.onSlots, hslots] using hf rfl l hl hk
  · exact h.of_ne (edit_ne hn)

end Namespace

theorem Directory.getElem?_placed (entry : Entry) {l : List Entry} {k : Nat} {e : Entry}
    (hk : l[k]? = some e) (hused : e.isFree = false) : (placed entry l)[k]? = some e := by
  obtain ⟨hlt, rfl⟩ := List.getElem?_eq_some_iff.1 hk
  rw [placed]
  split
  · rw [List.getElem?_set_ne, hk]
    rintro rfl
    have hfree : l[l.findIdx fun a : Entry => a.isFree].isFree = true := List.findIdx_getElem
    rw [hfree] at hused
    cases hused
  · rw [List.getElem?_append_left hlt, hk]

open Directory in
theorem Namespace.Effect.slot {ns ns' : Namespace} {r : Request} {dir : UInt32} {k : Nat} {e : Entry}
    (heffect : ns.Effect r ns') (hused : e.isFree = false) (hk : (ns.entries dir)[k]? = some e) :
    ns'.KeepsSlot dir k e ∨ ∃ name time, r = .remove dir name time ∧
      (ns.entries dir).findIdx (·.isFor name) = k := by
  have hslot : ns.KeepsSlot dir k e := fun _ => hk
  have hlive : ns dir ≠ none := by
    intro hnone
    rw [entries, hnone] at hk
    cases hk
  have hput : ∀ {ns : Namespace} (n : UInt32) (entry : Entry), ns.KeepsSlot dir k e →
      (ns.edit n (.onSlots (placed entry))).KeepsSlot dir k e :=
    fun n entry h => h.onSlots fun _ l _ hl => getElem?_placed entry hl hused
  have hnew : ∀ (n : UInt32) (m : Member), ns n = none → (ns.set n (some m)).KeepsSlot dir k e :=
    fun n m hfresh => hslot.of_ne (set_ne fun hn => hlive (hn ▸ hfresh))
  cases heffect with
  | keep => exact .inl hslot
  | @create parent n name mode owner now hdirectory hname hfresh hnumber =>
    left
    have hentered := hput parent ⟨Entry.fieldOf name, n⟩ (hnew n (.ofMode mode) hfresh)
    rw [Namespace.create]
    split
    · exact (hentered.onLinks n _).onLinks parent _
    · exact hentered
  | createInode hfresh => exact .inl (hnew _ _ hfresh)
  | @insert dir' target name now t hdirectory hname htarget hnumber =>
    exact .inl ((hput dir' ⟨Entry.fieldOf name, target⟩ hslot).onLinks target _)
  | @remove parent n name now target hfound htarget hspare =>
    -- no other call empties a slot than the removal of the first entry with its name
    by_cases hfirst : dir = parent ∧ (ns.entries dir).findIdx (·.isFor name) = k
    · obtain ⟨rfl, hfirst⟩ := hfirst
      exact .inr ⟨name, now, rfl, hfirst⟩
    left
    have hcleared : (ns.edit parent (.onSlots (cleared name))).KeepsSlot dir k e := by
      refine hslot.onSlots fun hdir l hl hlk => ?_
      rw [cleared, List.getElem?_set_ne, hlk]
      exact fun hindex => hfirst ⟨hdir, hl ▸ hindex⟩
    rw [Namespace.remove, leave]
    split
    · split
      · exact (hcleared.onLinks parent _).set_none n
      · exact hcleared.set_none n
    · exact hcleared.onLinks n _
  | grow =>
    refine .inl (hslot.onSlots fun _ l _ hlk => ?_)
    rw [List.getElem?_append_left (List.getElem?_eq_some_iff.1 hlk).1, hlk]

def Volume.HasSlot (v : Volume) (dir : UInt32) (k : Nat) (e : Entry) : Prop :=
  ∃ node, v.directory dir = .ok node ∧ (Directory.slots v.data node)[k]? = some e

theorem Volume.Sound.hasSlot_iff {v : Volume} (h : v.Sound) {dir : UInt32} {k : Nat} {e : Entry} :
    v.HasSlot dir k e ↔ (v.members.entries dir)[k]? = some e := by
  constructor
  · rintro ⟨node, hdir, hk⟩
    obtain ⟨hlive, -, hdirectory⟩ := live_of_directory h.whole.sized hdir
    rw [← entries_member v.data hdirectory] at hk
    rw [Namespace.entries, members_live hlive]
    exact hk
  · intro hk
    cases hm : v.members dir with
    | none =>
      rw [Namespace.entries, hm] at hk
      cases hk
    | some m =>
      obtain ⟨node, hlive, rfl⟩ := members_eq_some hm
      cases hdirectory : node.isDirectory with
      | false => simp [Namespace.entries, hm, Member.entries, Inode.member, hdirectory] at hk
      | true =>
        rw [Namespace.entries, hm] at hk
        exact ⟨node, h.directory_eq hlive hdirectory, entries_member v.data hdirectory ▸ hk⟩

theorem Volume.Sound.slot_stays {v v' : Volume} (h : v.Sound) {r : Request} (hr : r.Returns v v')
    {dir : UInt32} {node : Inode} {k : Nat} {e : Entry} (hdir : v.directory dir = .ok node)
    (hdir' : ∃ node', v'.directory dir = .ok node') (hused : e.isFree = false)
    (hslot : v.HasSlot dir k e) :
    v'.HasSlot dir k e ∨ ∃ name time, r = .remove dir name time ∧
      (Directory.slots v.data node).findIdx (·.isFor name) = k := by
  have hsound' := Request.sound h hr
  obtain ⟨hlive, -, hdirectory⟩ := live_of_directory h.whole.sized hdir
  obtain ⟨node', hnode'⟩ := hdir'
  obtain ⟨hlive', -, hdirectory'⟩ := live_of_directory hsound'.whole.sized hnode'
  have hentries : v.members.entries dir = Directory.slots v.data node := by
    rw [Namespace.entries, members_live hlive]
    exact entries_member v.data hdirectory
  rw [← hentries]
  obtain hkept | hremoved := (Request.effect h hr).slot hused (h.hasSlot_iff.1 hslot)
  · left
    exact hsound'.hasSlot_iff.2 (hkept ((isDirectory_live hlive').trans hdirectory'))
  · exact .inr hremoved

/-- A walk through a directory: where it stands, what it has met, and whether its last batch met the
end of the directory. -/
structure Walk where
  volume : Volume
  position : Nat
  met : List (Entry × Nat)
  ended : Bool

namespace Walk

def start (v : Volume) : Walk := ⟨v, 0, [], false⟩

inductive Step (dir : UInt32) : Walk → Walk → Prop where
  | batch {w : Walk} {node : Inode} (limit : Nat) (hdir : w.volume.directory dir = .ok node) :
      Step dir w {
        volume := w.volume
        position := (Directory.list w.volume.data node w.position limit).position
        met := w.met ++ Directory.met w.volume.data node w.position limit
        ended := (Directory.met w.volume.data node w.position limit).length < limit }
  | call {w : Walk} {r : Request} {v' : Volume} (hr : r.Returns w.volume v') :
      Step dir w { w with volume := v' }

abbrev Run (dir : UInt32) : Walk → Walk → Prop := Relation.ReflTransGen (Step dir)

abbrev RunWith (dir : UInt32) (k : Nat) (e : Entry) : Walk → Walk → Prop :=
  Relation.ReflTransGen fun w w' => Step dir w w' ∧ w'.volume.HasSlot dir k e

variable {dir : UInt32} {w w' : Walk} {k : Nat} {e : Entry}

theorem Step.sound (hstep : Step dir w w') (h : w.volume.Sound) : w'.volume.Sound := by
  cases hstep with
  | batch => exact h
  | call hr => exact Request.sound h hr

def Ordered (w : Walk) : Prop :=
  w.met.Pairwise (fun a b => a.2 < b.2) ∧ ∀ r ∈ w.met, r.2 < w.position

theorem Step.ordered (hstep : Step dir w w') (h : w.volume.Sound) (ho : w.Ordered) :
    w'.Ordered := by
  cases hstep with
  | @batch node limit hdir =>
    obtain ⟨hlive, -⟩ := Volume.live_of_directory h.whole.sized hdir
    have hstands := Directory.list_stands (h.whole.inside hlive) w.position limit
    obtain ⟨hsorted, hbetween⟩ := hstands.numbers
    refine ⟨List.pairwise_append.2 ⟨ho.1, hsorted, fun a ha b hb => ?_⟩, fun r hr => ?_⟩
    · exact Nat.lt_of_lt_of_le (ho.2 a ha) (hbetween b hb).1
    · obtain hr | hr := List.mem_append.1 hr
      · exact Nat.lt_of_lt_of_le (ho.2 r hr) hstands.le
      · exact (hbetween r hr).2
  | call => exact ho

/-- The entry was met once if the walk has passed its slot, and it has passed all slots at the end. -/
structure Passes (k : Nat) (e : Entry) (w : Walk) : Prop where
  once : w.met.filter (·.2 == k) = if k < w.position then [(e, k)] else []
  ended : w.ended = true → k < w.position

theorem Step.passes (hstep : Step dir w w') (h : w.volume.Sound) (hused : e.isFree = false)
    (hslot : w.volume.HasSlot dir k e) (hp : w.Passes k e) : w'.Passes k e := by
  cases hstep with
  | @batch node limit hdir =>
    obtain ⟨node', hdir', hk⟩ := hslot
    obtain rfl := Except.ok.inj (hdir.symm.trans hdir')
    obtain ⟨hlive, -⟩ := Volume.live_of_directory h.whole.sized hdir
    have hstands := Directory.list_stands (h.whole.inside hlive) w.position limit
    have hle := hstands.le
    refine ⟨?_, fun hended => ?_⟩
    · rw [List.filter_append, hp.once, hstands.filter_found hk hused]
      by_cases hbefore : k < w.position
      · rw [if_pos hbefore, if_neg (by omega), if_pos (by simp only; omega), List.append_nil]
      · simp only [Nat.le_of_not_lt hbefore, true_and, if_neg hbefore, List.nil_append]
    · have hlt := (List.getElem?_eq_some_iff.1 hk).1
      exact Nat.lt_of_lt_of_le hlt (hstands.ended (of_decide_eq_true hended))
  | call => exact ⟨hp.once, hp.ended⟩

theorem Run.ordered (hrun : Run dir w w') (h : w.volume.Sound) (ho : w.Ordered) : w'.Ordered := by
  have hall : w'.volume.Sound ∧ w'.Ordered := by
    induction hrun with
    | refl => exact ⟨h, ho⟩
    | tail _ hstep ih => exact ⟨hstep.sound ih.1, hstep.ordered ih.1 ih.2⟩
  exact hall.2

theorem RunWith.passes (hrun : RunWith dir k e w w') (h : w.volume.Sound) (hused : e.isFree = false)
    (hslot : w.volume.HasSlot dir k e) (hp : w.Passes k e) : w'.Passes k e := by
  have hall : w'.volume.Sound ∧ w'.volume.HasSlot dir k e ∧ w'.Passes k e := by
    induction hrun with
    | refl => exact ⟨h, hslot, hp⟩
    | tail _ hstep ih =>
      obtain ⟨hstep, hslot'⟩ := hstep
      exact ⟨hstep.sound ih.1, hslot', hstep.passes ih.1 hused ih.2.1 ih.2.2⟩
  exact hall.2.2

end Walk

structure Volume.Pausable (v : Volume) (dir : UInt32) (node : Inode) : Prop where
  lists : ∀ position limit, ∃ listing, v.list dir position limit = .ok listing ∧
    listing.stopped = none ∧
    listing.entries = (Directory.met v.data node position limit).map Prod.fst ∧
    Directory.met v.data node position limit =
      (Directory.occupiedFrom (Directory.slots v.data node) position).take limit
  batches : ∀ limits, v.batches dir 0 limits = (·.entries) <$> v.list dir 0 limits.sum
  distinct : ∀ w, Walk.Run dir (.start v) w → w.met.Pairwise fun a b => a.2 < b.2
  once : ∀ k e w, e.isFree = false → v.HasSlot dir k e → Walk.RunWith dir k e (.start v) w →
    w.ended = true → w.met.filter (·.2 == k) = [(e, k)]
  stays : ∀ (r : Request) v' k e, r.Returns v v' → (∃ node', v'.directory dir = .ok node') →
    e.isFree = false → v.HasSlot dir k e →
    v'.HasSlot dir k e ∨ ∃ name time, r = .remove dir name time ∧
      (Directory.slots v.data node).findIdx (·.isFor name) = k

/-- In every state of a run, a directory can be walked through in batches. -/
theorem directories_are_pausable {D : Type} [BlockDevice D] [FaithfulDevice D] (g : Geometry)
    (id : VolumeId) (now : Int64) (d d' : D) (v₀ : Volume) (u : Usage D) (dir : UInt32)
    (node : Inode) (hvalid : FaithfulDevice.Valid d)
    (hformat : Volume.format g id now d = .ok v₀ d') (hrun : Usage.Run ⟨v₀, d', some v₀⟩ u)
    (hdir : u.volume.directory dir = .ok node) : u.volume.Pausable dir node := by
  have h := ((Usage.safe_of_format hvalid hformat).run hrun).fits.sound
  obtain ⟨hlive, -, hdirectory⟩ := Volume.live_of_directory h.whole.sized hdir
  have hinside := h.whole.inside hlive
  have hlist : ∀ position limit, u.volume.list dir position limit =
      .ok (Directory.list u.volume.data node position limit) := fun position limit => by
    rw [h.list_eq hlive, if_pos hdirectory]
  refine ⟨fun position limit => ?_, fun limits => ?_, fun w hwalk => ?_,
    fun k e w hused hslot hwalk hended => ?_, fun r v' k e hr hdir' hused hslot => ?_⟩
  · exact ⟨_, hlist position limit, (Directory.list_entries hinside position limit).2,
      Directory.list_entries_met _ _ _ _, Directory.met_eq hinside position limit⟩
  · rw [h.batches_eq hdir, hlist]
    rfl
  · exact (hwalk.ordered h ⟨List.Pairwise.nil, by simp [Walk.start]⟩).1
  · have hpasses := hwalk.passes h hused hslot ⟨by simp [Walk.start], by simp [Walk.start]⟩
    rw [hpasses.once, if_pos (hpasses.ended hended)]
  · exact h.slot_stays hr hdir hdir' hused hslot

theorem root_is_pausable : ∃ (v₀ v : Volume) (d' : MemoryDisk) (root : Inode) (e : Entry),
    Volume.format ⟨4, 4⟩ ⟨.replicate 16 0⟩ 0 (MemoryDisk.blank 8) = .ok v₀ d' ∧
      Usage.Run ⟨v₀, d', some v₀⟩ ⟨v, d', some v₀⟩ ∧ v.directory 1 = .ok root ∧
      e.isFree = false ∧ v.HasSlot 1 0 e ∧ v.Pausable 1 root := by
  obtain ⟨v₀, d', hformat⟩ := Volume.format_memoryDisk
  have hdraft : ((Draft.fresh ⟨4, 4⟩).next? (.create 1 "a" .defaultFile default 0)).any
      (fun p => (p.ns.entries 1)[0]?.any (!·.isFree)) = true := by decide +kernel
  obtain ⟨p, hp, hfirst⟩ := (Option.any_eq_true _ _).1 hdraft
  obtain ⟨v, hr, hfits⟩ :=
    (Draft.fits_of_formatted (Volume.formatted_of_format hformat)).next hp
  have hrun : Usage.Run ⟨v₀, d', some v₀⟩ ⟨v, d', some v₀⟩ := .single (.call hr)
  obtain ⟨e, he, hused⟩ := (Option.any_eq_true _ _).1 hfirst
  rw [← hfits.members] at he
  have hslot := hfits.sound.hasSlot_iff.2 he
  have hused : e.isFree = false := by simpa using hused
  obtain ⟨root, hroot, -⟩ := id hslot
  exact ⟨v₀, v, d', root, e, hformat, hrun, hroot, hused, hslot,
    directories_are_pausable ⟨4, 4⟩ ⟨.replicate 16 0⟩ 0 (MemoryDisk.blank 8) d' v₀
      ⟨v, d', some v₀⟩ 1 root trivial hformat hrun hroot⟩

end ExtentVolume
