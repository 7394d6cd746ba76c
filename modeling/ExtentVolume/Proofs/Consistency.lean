import Mathlib.Data.List.Nodup
import Mathlib.Data.List.Pairwise
import ExtentVolume.Consistency
import ExtentVolume.Proofs.Ownership

namespace ExtentVolume

theorem nodup_flatMap_iff {α β : Type} {l : List α} {f : α → List β} (hl : l.Nodup) :
    (l.flatMap f).Nodup ↔ (∀ a ∈ l, (f a).Nodup) ∧
      ∀ a ∈ l, ∀ b ∈ l, ∀ x, x ∈ f a → x ∈ f b → a = b := by
  rw [List.nodup_flatMap]
  apply and_congr_right'
  constructor
  · intro hpair a ha b hb x hxa hxb
    by_contra hne
    have hsymm : Std.Symm (Function.onFun List.Disjoint f) := ⟨fun _ _ h _ ha hb => h hb ha⟩
    exact hpair.forall ha hb hne hxa hxb
  · intro hunshared
    apply hl.pairwise_of_forall_ne
    intro a ha b hb hne x hxa hxb
    exact hne (hunshared a ha b hb x hxa hxb)

namespace Volume

def inodeNumbers (v : Volume) : List UInt32 :=
  (List.range' 1 (v.space.inodes.total.toNat - 1)).map .ofNat

theorem mem_inodeNumbers {v : Volume} {n : UInt32} :
    n ∈ v.inodeNumbers ↔ 0 < n ∧ n < v.space.inodes.total := by
  simp only [inodeNumbers, List.mem_map, List.mem_range'_1, UInt32.lt_iff_toNat_lt,
    UInt32.toNat_zero]
  constructor
  · rintro ⟨k, hk, rfl⟩
    have htotal := v.space.inodes.total.toNat_lt
    rw [UInt32.toNat_ofNat_of_lt' (by simp only [UInt32.size]; omega)]
    omega
  · intro hn
    exact ⟨n.toNat, by omega, UInt32.ofNat_toNat⟩

theorem nodup_inodeNumbers (v : Volume) : v.inodeNumbers.Nodup := by
  apply List.Nodup.map_on ?_ List.nodup_range'
  intro k hk m hm heq
  rw [List.mem_range'_1] at hk hm
  have htotal := v.space.inodes.total.toNat_lt
  have hnat := congrArg UInt32.toNat heq
  rwa [UInt32.toNat_ofNat_of_lt' (by simp only [UInt32.size]; omega),
    UInt32.toNat_ofNat_of_lt' (by simp only [UInt32.size]; omega)] at hnat

def live? (v : Volume) (n : UInt32) : Option Inode :=
  if v.space.inodes.used n.toNat then v.table.get? n else none

/-- The blocks that an inode owns; one that is not in use owns none. -/
def blocksOf (v : Volume) (n : UInt32) : List Nat :=
  match v.live? n with
  | some node => node.extents.blockNumbers
  | none => []

/-- The parts are made for the same numbers of blocks and inodes, and inode 0 is reserved. -/
structure Sized (v : Volume) : Prop where
  table : v.table.total = v.space.inodes.total
  records : v.table.records.size = v.space.inodes.total.toNat
  cells : v.data.cells.size = v.space.blocks.total.toNat
  inodeReserved : v.space.inodes.reserved = 1
  blockReserved : v.space.blocks.reserved = 0

structure Consistent (v : Volume) : Prop where
  freeInodes : v.space.inodes.free.toNat + v.space.inodes.popcount = v.space.inodes.total.toNat
  freeBlocks : v.space.blocks.free.toNat + v.space.blocks.popcount = v.space.blocks.total.toNat
  counted : ∀ n node, v.live? n = some node → node.extents.Counted
  held : ∀ n node, v.live? n = some node →
    node.blocks.toNat = node.extents.blockNumbers.length
  inside : ∀ n, ∀ b ∈ v.blocksOf n, b < v.space.blocks.total.toNat
  nodup : ∀ n, (v.blocksOf n).Nodup
  unshared : ∀ n m b, b ∈ v.blocksOf n → b ∈ v.blocksOf m → n = m
  used_iff : ∀ b < v.space.blocks.total.toNat,
    v.space.blocks.used b = true ↔ ∃ n, b ∈ v.blocksOf n

end Volume

namespace Consistency

namespace Survey

variable {v : Volume}

/-- No problem was found so far, and the blocks of the list are those that have an owner. -/
structure Claimed (v : Volume) (blocks : List Nat) (s : Survey) : Prop where
  clean : s.problems = #[]
  nodup : blocks.Nodup
  free_iff : ∀ b, s.owners[b]? = some 0 ↔ b < v.space.blocks.total.toNat ∧ b ∉ blocks
  size : s.owners.size = v.space.blocks.total.toNat
  owned : s.owned = blocks.length

/-- The step claims the blocks of the list, and finds no problem exactly if `fine` holds and none of
them is claimed already. -/
structure Claims (v : Volume) (step : Survey → Checked Survey) (fine : Prop) (more : List Nat) :
    Prop where
  clean_of : ∀ s s', step s = .ok s' → s'.problems = #[] → s.problems = #[]
  proceeds : ∀ blocks s, Claimed v blocks s → fine → (blocks ++ more).Nodup →
    ∃ s', step s = .ok s' ∧ Claimed v (blocks ++ more) s'
  sound : ∀ blocks s s', Claimed v blocks s → step s = .ok s' → s'.problems = #[] →
    fine ∧ (blocks ++ more).Nodup

theorem Claims.congr {step : Survey → Checked Survey} {fine fine' : Prop} {more : List Nat}
    (h : Claims v step fine more) (hfine : fine ↔ fine') : Claims v step fine' more :=
  propext hfine ▸ h

theorem Claims.ok : Claims v .ok True [] := by
  refine ⟨?_, fun blocks s hs _ _ => ⟨s, rfl, by rwa [List.append_nil]⟩, ?_⟩
  · rintro s _ ⟨⟩ hclean
    exact hclean
  · rintro blocks s _ hs ⟨⟩ -
    exact ⟨trivial, by rw [List.append_nil]; exact hs.nodup⟩

theorem Claims.bind {f g : Survey → Checked Survey} {fine fine' : Prop} {more more' : List Nat}
    (hf : Claims v f fine more) (hg : Claims v g fine' more') :
    Claims v (fun s => f s >>= g) (fine ∧ fine') (more ++ more') := by
  refine ⟨fun s s'' h hclean => ?_, fun blocks s hs hfine hnodup => ?_,
    fun blocks s s'' hs h hclean => ?_⟩
  · cases hs' : f s with
    | error t =>
      rw [hs'] at h
      cases h
    | ok s' =>
      rw [hs'] at h
      exact hf.clean_of s s' hs' (hg.clean_of s' s'' h hclean)
  · rw [← List.append_assoc] at hnodup ⊢
    obtain ⟨s', hs', hclaimed⟩ := hf.proceeds blocks s hs hfine.1 (List.Nodup.of_append_left hnodup)
    obtain ⟨s'', hs'', hclaimed'⟩ := hg.proceeds _ s' hclaimed hfine.2 hnodup
    refine ⟨s'', ?_, hclaimed'⟩
    rw [hs']
    exact hs''
  · cases hs' : f s with
    | error t =>
      rw [hs'] at h
      cases h
    | ok s' =>
      rw [hs'] at h
      obtain ⟨hfine, hnodup⟩ := hf.sound blocks s s' hs hs' (hg.clean_of s' s'' h hclean)
      obtain ⟨s₁, hs₁, hclaimed⟩ := hf.proceeds blocks s hs hfine hnodup
      obtain rfl := Except.ok.inj (hs'.symm.trans hs₁)
      obtain ⟨hfine', hnodup'⟩ := hg.sound _ s' s'' hclaimed h hclean
      exact ⟨⟨hfine, hfine'⟩, by rwa [← List.append_assoc]⟩

theorem Claims.foldlM {α : Type} {step : Survey → α → Checked Survey} {fine : α → Prop}
    {more : α → List Nat} (l : List α)
    (h : ∀ a ∈ l, Claims v (fun s => step s a) (fine a) (more a)) :
    Claims v (fun s => l.foldlM step s) (∀ a ∈ l, fine a) (l.flatMap more) := by
  induction l with
  | nil => exact Claims.ok.congr (by simp)
  | cons a l ih =>
    have hbind := (h a (by simp)).bind (ih fun a ha => h a (List.mem_cons_of_mem _ ha))
    exact hbind.congr (by simp)

theorem Claims.note {p : Problem} {more : List Nat} :
    Claims v (fun s => .ok (s.note p)) False more := by
  have hnote : ∀ s : Survey, (s.note p).problems ≠ #[] := by
    intro s
    simp [Survey.note]
  refine ⟨?_, fun _ _ _ hfine => hfine.elim, ?_⟩
  · rintro s _ ⟨⟩ hclean
    exact absurd hclean (hnote s)
  · rintro blocks s _ - ⟨⟩ hclean
    exact absurd hclean (hnote s)

theorem Claims.error {t : Trap} {more : List Nat} : Claims v (fun _ => .error t) False more := by
  refine ⟨?_, fun _ _ _ hfine => hfine.elim, ?_⟩
  · rintro s _ ⟨⟩
  · rintro blocks s _ - ⟨⟩

theorem Claims.noteIf {c : Prop} [Decidable c] {p : Problem} :
    Claims v (fun s => .ok (s.noteIf c p)) (¬c) [] := by
  unfold Survey.noteIf
  by_cases hc : c
  · simp only [hc, if_true, not_true]
    exact .note
  · simp only [hc, if_false, not_false_iff]
    exact .ok

def own (inode block : UInt32) (s : Survey) : Checked Survey :=
  match s.owners[block.toNat]? with
  | none => .error .indexOutOfRange
  | some 0 => .ok
      { s with owned := s.owned + 1, owners := s.owners.setIfInBounds block.toNat inode }
  | some other => .ok (s.note (.shared block other inode))

theorem own_cases (inode block : UInt32) (s : Survey) :
    (s.owners[block.toNat]? = some 0 ∧ own inode block s = .ok
      { s with owned := s.owned + 1, owners := s.owners.setIfInBounds block.toNat inode }) ∨
    (s.owners[block.toNat]? ≠ some 0 ∧ ∀ s', own inode block s = .ok s' → s'.problems ≠ #[]) := by
  cases ho : s.owners[block.toNat]? with
  | none =>
    right
    refine ⟨by simp, fun s' h => ?_⟩
    simp [own, ho] at h
  | some other =>
    by_cases h0 : other = 0
    · left
      subst h0
      exact ⟨rfl, by simp only [own, ho]⟩
    · right
      refine ⟨by simpa using h0, fun s' h => ?_⟩
      simp only [own, ho, Except.ok.injEq] at h
      rw [← h]
      simp [Survey.note]

theorem Claims.own {inode block : UInt32} (hinode : inode ≠ 0) :
    Claims v (own inode block) (block.toNat < v.space.blocks.total.toNat) [block.toNat] := by
  refine ⟨fun s s' h hclean => ?_, fun blocks s hs hlt hnodup => ?_,
    fun blocks s s' hs h hclean => ?_⟩
  · obtain ⟨-, hok⟩ | ⟨-, hbad⟩ := own_cases inode block s
    · obtain rfl := Except.ok.inj (hok.symm.trans h)
      exact hclean
    · exact absurd hclean (hbad s' h)
  · have hmem : block.toNat ∉ blocks := by
      intro hmem
      exact (List.nodup_append.1 hnodup).2.2 _ hmem _ (List.mem_singleton.2 rfl) rfl
    obtain ⟨-, hok⟩ | ⟨hne, -⟩ := own_cases inode block s
    · refine ⟨_, hok, hs.clean, hnodup, fun b => ?_, ?_, ?_⟩
      · simp only [Array.getElem?_setIfInBounds, List.mem_append, List.mem_singleton, not_or]
        by_cases hb : block.toNat = b
        · subst hb
          simp [hs.size, hlt, hinode]
        · rw [if_neg hb, hs.free_iff]
          simp [Ne.symm hb]
      · simp [hs.size]
      · simp [hs.owned]
    · exact absurd ((hs.free_iff _).2 ⟨hlt, hmem⟩) hne
  · obtain ⟨hfree, -⟩ | ⟨-, hbad⟩ := own_cases inode block s
    · obtain ⟨hlt, hmem⟩ := (hs.free_iff _).1 hfree
      refine ⟨hlt, List.nodup_append.2 ⟨hs.nodup, by simp, ?_⟩⟩
      rintro a ha b hb rfl
      exact hmem (List.mem_singleton.1 hb ▸ ha)
    · exact absurd hclean (hbad s' h)

theorem claim_eq (inode : UInt32) {block : UInt32}
    (hblock : block.toNat < v.space.blocks.total.toNat) (s : Survey) :
    claim v inode s block =
      own inode block (s.noteIf (v.space.blocks.used block.toNat = false) (.unmarked inode block)) := by
  have hused : v.space.blocks.isUsed block = .ok (v.space.blocks.used block.toNat) :=
    Bitmap.isUsed_eq (Nat.lt_of_lt_of_le hblock (Bitmap.le_paddedBits _))
  rw [claim, hused]
  rfl

theorem claims_claim {inode block : UInt32} (hinode : inode ≠ 0)
    (hblock : block.toNat < v.space.blocks.total.toNat) :
    Claims v (fun s => claim v inode s block) (v.space.blocks.used block.toNat = true)
      [block.toNat] := by
  have hclaim : (fun s => claim v inode s block) = fun s =>
      (.ok (s.noteIf (v.space.blocks.used block.toNat = false) (.unmarked inode block)) :
        Checked Survey) >>= Survey.own inode block := funext (claim_eq inode hblock)
  rw [hclaim]
  exact (Claims.noteIf.bind (.own hinode)).congr (by simp [hblock])

theorem claims_claimRun {inode : UInt32} (hinode : inode ≠ 0) (start count : Nat)
    (hend : start + count ≤ v.space.blocks.total.toNat) :
    Claims v (fun s => claimRun v inode s start count)
      (∀ b ∈ List.range' start count, v.space.blocks.used b = true)
      (List.range' start count) := by
  induction count with
  | zero => exact Claims.ok.congr (by simp)
  | succ count ih =>
    have hnat : (UInt32.ofNat (start + count)).toNat = start + count :=
      Bitmap.toNat_ofNat_of_le v.space.blocks.total (by omega)
    have hlast : Claims v (fun s => claim v inode s (.ofNat (start + count)))
        (v.space.blocks.used (UInt32.ofNat (start + count)).toNat = true)
        [(UInt32.ofNat (start + count)).toNat] := claims_claim hinode (by omega)
    rw [hnat] at hlast
    have hbind := (ih (by omega)).bind hlast
    rw [List.range'_1_concat]
    exact hbind.congr (by simp [or_imp, forall_and])

theorem claims_surveyExtent {inode : UInt32} (hinode : inode ≠ 0) {e : Extent}
    (he : 0 < e.count.toNat) :
    Claims v (fun s => surveyExtent v inode s e)
      (∀ b ∈ List.range' e.start.toNat e.count.toNat,
        b < v.space.blocks.total.toNat ∧ v.space.blocks.used b = true)
      (List.range' e.start.toNat e.count.toNat) := by
  have hlast : e.start.toNat + e.count.toNat - 1 ∈ List.range' e.start.toNat e.count.toNat := by
    rw [List.mem_range'_1]
    omega
  unfold surveyExtent
  by_cases hout : v.space.blocks.total.toNat < e.endBlock
  · simp only [hout, if_true]
    refine Claims.note.congr ⟨False.elim, fun hall => ?_⟩
    have := (hall _ hlast).1
    simp only [Extent.endBlock] at hout
    omega
  · simp only [hout, if_false]
    simp only [Extent.endBlock, Nat.not_lt] at hout
    refine (claims_claimRun hinode _ _ hout).congr ⟨fun hall b hb => ⟨?_, hall b hb⟩,
      fun hall b hb => (hall b hb).2⟩
    rw [List.mem_range'_1] at hb
    omega

/-- What a check asks of the record of an inode in use. -/
def Fine (v : Volume) (node : Inode) : Prop :=
  node.extents.Counted ∧ node.blocks = node.extents.totalBlocks ∧
    ∀ b ∈ node.extents.blockNumbers,
      b < v.space.blocks.total.toNat ∧ v.space.blocks.used b = true

theorem claims_surveyRecord {inode : UInt32} (hinode : inode ≠ 0) (node : Inode) :
    Claims v (fun s => surveyRecord v s inode node) (Fine v node) node.extents.blockNumbers := by
  have hcount : Claims v (fun s => .ok { s with inodes := s.inodes + 1 }) True [] := by
    refine ⟨?_, fun blocks s hs _ _ => ⟨_, rfl, ?_⟩, ?_⟩
    · rintro s _ ⟨⟩ hclean
      exact hclean
    · rw [List.append_nil]
      exact ⟨hs.clean, hs.nodup, hs.free_iff, hs.size, hs.owned⟩
    · rintro blocks s _ hs ⟨⟩ -
      exact ⟨trivial, by rw [List.append_nil]; exact hs.nodup⟩
  have hextents : Claims v (fun s => node.extents.inUse.foldlM (surveyExtent v inode) s) _ _ :=
    Claims.foldlM node.extents.inUse fun e he =>
      claims_surveyExtent hinode (ExtentMap.blockNumbers_pos_of_mem he)
  have hall := hcount.bind ((Claims.noteIf
    (c := node.extents.stated.toNat ≠ node.extents.inUse.length)
    (p := .extentCount inode node.extents.stated node.extents.inUse.length)).bind
    ((Claims.noteIf (c := node.blocks ≠ node.extents.totalBlocks)
      (p := .blockCount inode node.blocks node.extents.totalBlocks)).bind hextents))
  apply Claims.congr hall
  simp only [ne_eq, not_not, true_and, Fine, ExtentMap.Counted, ExtentMap.blockNumbers,
    ExtentVolume.blockNumbers, List.mem_flatMap, forall_exists_index, and_imp]
  constructor
  · rintro ⟨hcounted, hblocks, hin⟩
    exact ⟨hcounted, hblocks, fun b e he hb => hin e he b hb⟩
  · rintro ⟨hcounted, hblocks, hin⟩
    exact ⟨hcounted, hblocks, fun e he b hb => hin b e he hb⟩

theorem surveyInode_eq {n : UInt32} (hn : n ∈ v.inodeNumbers) (s : Survey) :
    surveyInode v s n.toNat =
      if v.space.inodes.used n.toNat = true then
        match v.table.get? n with
        | none => .ok (s.note (.recordMissing n))
        | some node => surveyRecord v s n node
      else .ok s := by
  have hlt := UInt32.lt_iff_toNat_lt.1 (Volume.mem_inodeNumbers.1 hn).2
  have hused : v.space.inodes.isUsed n = .ok (v.space.inodes.used n.toNat) :=
    Bitmap.isUsed_eq (Nat.lt_of_lt_of_le hlt (Bitmap.le_paddedBits _))
  rw [surveyInode, UInt32.ofNat_toNat, hused]
  rfl

theorem claims_surveyInode {n : UInt32} (hn : n ∈ v.inodeNumbers) :
    Claims v (fun s => surveyInode v s n.toNat)
      (v.space.inodes.used n.toNat = true → ∃ node, v.table.get? n = some node ∧ Fine v node)
      (v.blocksOf n) := by
  have hne := UInt32.pos_iff_ne_zero.1 (Volume.mem_inodeNumbers.1 hn).1
  simp only [surveyInode_eq hn, Volume.blocksOf, Volume.live?]
  cases v.space.inodes.used n.toNat with
  | false => exact Claims.ok.congr (by simp)
  | true =>
    cases v.table.get? n with
    | none => exact Claims.note.congr (by simp)
    | some node => exact (claims_surveyRecord hne node).congr (by simp)

def surveyCounter (b : Bitmap) (p : UInt32 → Problem) (s : Survey) : Checked Survey := do
  let used ← b.usedCount
  let accounted ← word32 (b.free.toNat + used.toNat)
  return s.noteIf (accounted ≠ b.total) (p used)

theorem claims_surveyCounter (b : Bitmap) (p : UInt32 → Problem) :
    Claims v (surveyCounter b p) (b.free.toNat + b.popcount = b.total.toNat) [] := by
  have htotal := b.total.toNat_lt
  unfold surveyCounter Bitmap.usedCount
  by_cases hcount : b.popcount < 2 ^ 32
  · have hused : (UInt32.ofNat b.popcount).toNat = b.popcount := UInt32.toNat_ofNat_of_lt' hcount
    have hword : word32 b.popcount = .ok (.ofNat b.popcount) := word32_ok hcount
    by_cases hsum : b.free.toNat + b.popcount < 2 ^ 32
    · have hword' : word32 (b.free.toNat + b.popcount) =
          .ok (.ofNat (b.free.toNat + b.popcount)) := word32_ok hsum
      simp only [hword, hused, hword', bind, Except.bind]
      refine Claims.congr (Claims.noteIf (c := UInt32.ofNat (b.free.toNat + b.popcount) ≠ b.total)
        (p := p (.ofNat b.popcount))) ?_
      rw [ne_eq, not_not, ← UInt32.toNat_inj, UInt32.toNat_ofNat_of_lt' hsum]
    · have hword' : word32 (b.free.toNat + b.popcount) = .error .overflow := word32_overflow hsum
      simp only [hword, hused, hword', bind, Except.bind]
      exact Claims.error.congr ⟨False.elim, by omega⟩
  · have hword : word32 b.popcount = .error .overflow := word32_overflow hcount
    simp only [hword, bind, Except.bind]
    exact Claims.error.congr ⟨False.elim, by omega⟩

theorem surveyBlock_eq (s : Survey) {b : Nat} (hb : b < v.space.blocks.total.toNat) :
    surveyBlock v s b = .ok (s.noteIf (v.space.blocks.used b = true ∧ s.owners[b]? = some 0)
      (.unowned (.ofNat b))) := by
  have hnat : (UInt32.ofNat b).toNat = b :=
    Bitmap.toNat_ofNat_of_le v.space.blocks.total (Nat.le_of_lt hb)
  have hused : v.space.blocks.isUsed (.ofNat b) = .ok (v.space.blocks.used b) := by
    rw [Bitmap.isUsed_eq (by rw [hnat]; exact Nat.lt_of_lt_of_le hb (Bitmap.le_paddedBits _)), hnat]
  rw [surveyBlock, hused]
  rfl

/-- From `s` to `s'` nothing is claimed, and no problem is taken back. -/
structure Noted (s s' : Survey) : Prop where
  clean_of : s'.problems = #[] → s.problems = #[]
  owned : s'.owned = s.owned

theorem noted_surveyBlock {number : Nat} {s s' : Survey} (h : surveyBlock v s number = .ok s') :
    Noted s s' := by
  cases hu : v.space.blocks.isUsed (.ofNat number) with
  | error t =>
    simp only [surveyBlock, hu, bind, Except.bind] at h
    cases h
  | ok used =>
    simp only [surveyBlock, hu, bind, Except.bind] at h
    refine ⟨(Claims.noteIf (v := v)).clean_of s s' h, ?_⟩
    obtain rfl := Except.ok.inj h
    unfold Survey.noteIf
    split <;> rfl

theorem noted_surveyBlocks {l : List Nat} {s s' : Survey}
    (h : l.foldlM (surveyBlock v) s = .ok s') : Noted s s' := by
  induction l generalizing s with
  | nil =>
    obtain rfl := Except.ok.inj h
    exact ⟨id, rfl⟩
  | cons b l ih =>
    rw [List.foldlM_cons] at h
    cases hs : surveyBlock v s b with
    | error t =>
      rw [hs] at h
      cases h
    | ok s₁ =>
      rw [hs] at h
      have hfirst := noted_surveyBlock hs
      have hrest := ih h
      exact ⟨hfirst.clean_of ∘ hrest.clean_of, hrest.owned.trans hfirst.owned⟩

theorem surveyBlocks_iff {blocks : List Nat} {s : Survey} (hs : Claimed v blocks s) (l : List Nat)
    (hl : ∀ b ∈ l, b < v.space.blocks.total.toNat) :
    (∃ s', l.foldlM (surveyBlock v) s = .ok s' ∧ s'.problems = #[]) ↔
      ∀ b ∈ l, v.space.blocks.used b = true → b ∈ blocks := by
  induction l with
  | nil => simpa using ⟨s, rfl, hs.clean⟩
  | cons b l ih =>
    have hb := hl b (by simp)
    have hbad : (v.space.blocks.used b = true ∧ s.owners[b]? = some 0) ↔
        ¬(v.space.blocks.used b = true → b ∈ blocks) := by
      rw [hs.free_iff]
      simp [hb]
    rw [List.foldlM_cons, surveyBlock_eq s hb, List.forall_mem_cons]
    by_cases hc : v.space.blocks.used b = true ∧ s.owners[b]? = some 0
    · refine ⟨?_, fun hall => absurd hall.1 (hbad.1 hc)⟩
      rintro ⟨s', hfold, hclean⟩
      have hnote := (noted_surveyBlocks hfold).clean_of hclean
      rw [Survey.noteIf, if_pos hc] at hnote
      simp [Survey.note] at hnote
    · rw [Survey.noteIf, if_neg hc]
      apply (ih fun b hb => hl b (List.mem_cons_of_mem _ hb)).trans
      exact ⟨fun hall => ⟨not_not.1 (mt hbad.2 hc), hall⟩, And.right⟩

end Survey

/-- The part of a check that claims blocks: the counters, then every inode in use. -/
def survey (v : Volume) (s : Survey) : Checked Survey := do
  let s ← Survey.surveyCounter v.space.blocks
    (.freeBlocks v.space.blocks.free · v.space.blocks.total) s
  let s ← Survey.surveyCounter v.space.inodes
    (.freeInodes v.space.inodes.free · v.space.inodes.total) s
  (List.range' 1 (v.space.inodes.total.toNat - 1)).foldlM (Survey.surveyInode v) s

theorem check_eq (v : Volume) : check v = do
    let s ← survey v ⟨0, 0, #[], Array.replicate v.space.blocks.total.toNat 0⟩
    let s ← (List.range v.space.blocks.total.toNat).foldlM (Survey.surveyBlock v) s
    return ⟨s.inodes, s.owned, s.problems.toList⟩ := by
  simp only [check, survey, Survey.surveyCounter, bind_assoc, pure_bind]

def allBlocks (v : Volume) : List Nat := v.inodeNumbers.flatMap v.blocksOf

/-- What a check asks of the counters, and of the record of each inode in use. -/
structure Accounted (v : Volume) : Prop where
  freeBlocks : v.space.blocks.free.toNat + v.space.blocks.popcount = v.space.blocks.total.toNat
  freeInodes : v.space.inodes.free.toNat + v.space.inodes.popcount = v.space.inodes.total.toNat
  fine : ∀ n ∈ v.inodeNumbers, v.space.inodes.used n.toNat = true →
    ∃ node, v.table.get? n = some node ∧ Survey.Fine v node

theorem surveyInodes_eq (v : Volume) (s : Survey) :
    (List.range' 1 (v.space.inodes.total.toNat - 1)).foldlM (Survey.surveyInode v) s =
      v.inodeNumbers.foldlM (fun s n => Survey.surveyInode v s n.toNat) s := by
  rw [Volume.inodeNumbers, List.foldlM_map]
  congr 1
  funext s k
  unfold Survey.surveyInode
  rw [UInt32.ofNat_toNat]

theorem claims_survey (v : Volume) : Survey.Claims v (survey v) (Accounted v) (allBlocks v) := by
  have hinodes := Survey.Claims.foldlM v.inodeNumbers
    fun n hn => Survey.claims_surveyInode (v := v) hn
  simp only [← surveyInodes_eq] at hinodes
  have hall := (Survey.claims_surveyCounter v.space.blocks
    (.freeBlocks v.space.blocks.free · v.space.blocks.total)).bind
    ((Survey.claims_surveyCounter v.space.inodes
      (.freeInodes v.space.inodes.free · v.space.inodes.total)).bind hinodes)
  exact Survey.Claims.congr hall
    ⟨fun ⟨hblocks, hinodes, hfine⟩ => ⟨hblocks, hinodes, hfine⟩,
      fun h => ⟨h.freeBlocks, h.freeInodes, h.fine⟩⟩

theorem claimed_nil (v : Volume) :
    Survey.Claimed v [] ⟨0, 0, #[], Array.replicate v.space.blocks.total.toNat 0⟩ := by
  refine ⟨rfl, List.nodup_nil, fun b => ?_, Array.size_replicate, rfl⟩
  simp [Array.getElem?_replicate]

theorem of_clean {v : Volume} {r : Report} (h : check v = .ok r) (hclean : r.isClean = true) :
    (Accounted v ∧ (allBlocks v).Nodup ∧
      ∀ b < v.space.blocks.total.toNat, v.space.blocks.used b = true → b ∈ allBlocks v) ∧
    r.owned = (allBlocks v).length := by
  have hnil := claimed_nil v
  rw [check_eq] at h
  generalize (⟨0, 0, #[], Array.replicate v.space.blocks.total.toNat 0⟩ : Survey) = s₀ at hnil h
  cases hs : survey v s₀ with
  | error t =>
    rw [hs] at h
    cases h
  | ok s =>
    cases hs' : (List.range v.space.blocks.total.toNat).foldlM (Survey.surveyBlock v) s with
    | error t =>
      simp only [hs, bind, Except.bind, hs'] at h
      cases h
    | ok s' =>
      simp only [hs, bind, Except.bind, hs'] at h
      obtain rfl := Except.ok.inj h
      have hclean' : s'.problems = #[] := by simpa [Report.isClean] using hclean
      have hnoted := Survey.noted_surveyBlocks hs'
      obtain ⟨haccounted, hnodup⟩ :=
        (claims_survey v).sound [] s₀ s hnil hs (hnoted.clean_of hclean')
      obtain ⟨s₁, hs₁, hclaimed⟩ := (claims_survey v).proceeds [] s₀ hnil haccounted hnodup
      obtain rfl := Except.ok.inj (hs.symm.trans hs₁)
      have howned := (Survey.surveyBlocks_iff hclaimed _ fun b => List.mem_range.1).1
        ⟨s', hs', hclean'⟩
      exact ⟨⟨haccounted, hnodup, fun b hb => howned b (List.mem_range.2 hb)⟩,
        hnoted.owned.trans hclaimed.owned⟩

theorem clean_iff_survey {v : Volume} :
    (∃ r, check v = .ok r ∧ r.isClean = true) ↔
      Accounted v ∧ (allBlocks v).Nodup ∧
      ∀ b < v.space.blocks.total.toNat, v.space.blocks.used b = true → b ∈ allBlocks v := by
  constructor
  · rintro ⟨r, hr, hclean⟩
    exact (of_clean hr hclean).1
  · rintro ⟨haccounted, hnodup, hall⟩
    have hnil := claimed_nil v
    rw [check_eq]
    generalize (⟨0, 0, #[], Array.replicate v.space.blocks.total.toNat 0⟩ : Survey) = s₀ at hnil ⊢
    obtain ⟨s, hs, hclaimed⟩ := (claims_survey v).proceeds [] s₀ hnil haccounted hnodup
    obtain ⟨s', hs', hclean⟩ := (Survey.surveyBlocks_iff hclaimed _ fun b => List.mem_range.1).2
      fun b hb => hall b (List.mem_range.1 hb)
    refine ⟨⟨s'.inodes, s'.owned, s'.problems.toList⟩, ?_, by simp [Report.isClean, hclean]⟩
    simp only [hs, bind, Except.bind, hs', pure, Except.pure]

end Consistency

namespace Volume

variable {v : Volume}

theorem live?_eq_some {n : UInt32} {node : Inode} :
    v.live? n = some node ↔ v.space.inodes.used n.toNat = true ∧ v.table.get? n = some node := by
  unfold live?
  split <;> simp_all

theorem mem_blocksOf {n : UInt32} {b : Nat} :
    b ∈ v.blocksOf n ↔ ∃ node, v.live? n = some node ∧ b ∈ node.extents.blockNumbers := by
  unfold blocksOf
  cases v.live? n <;> simp

theorem blocksOf_live {n : UInt32} {node : Inode} (h : v.live? n = some node) :
    v.blocksOf n = node.extents.blockNumbers := by
  rw [blocksOf, h]

theorem mem_inodeNumbers_of_live (hv : v.Sized) {n : UInt32} {node : Inode}
    (h : v.live? n = some node) : n ∈ v.inodeNumbers := by
  obtain ⟨-, hget⟩ := live?_eq_some.1 h
  unfold InodeTable.get? at hget
  split at hget
  · cases hget
  · rename_i hin
    rw [not_or, hv.table, UInt32.not_le] at hin
    exact mem_inodeNumbers.2 ⟨UInt32.pos_iff_ne_zero.2 hin.1, hin.2⟩

theorem mem_inodeNumbers_of_mem (hv : v.Sized) {n : UInt32} {b : Nat} (hb : b ∈ v.blocksOf n) :
    n ∈ v.inodeNumbers := by
  obtain ⟨node, hnode, -⟩ := mem_blocksOf.1 hb
  exact mem_inodeNumbers_of_live hv hnode

theorem mem_allBlocks (hv : v.Sized) {b : Nat} :
    b ∈ Consistency.allBlocks v ↔ ∃ n, b ∈ v.blocksOf n := by
  rw [Consistency.allBlocks, List.mem_flatMap]
  exact ⟨fun ⟨n, _, hb⟩ => ⟨n, hb⟩, fun ⟨n, hb⟩ => ⟨n, mem_inodeNumbers_of_mem hv hb, hb⟩⟩

theorem nodup_allBlocks (hv : v.Sized) :
    (Consistency.allBlocks v).Nodup ↔ (∀ n, (v.blocksOf n).Nodup) ∧
      ∀ n m b, b ∈ v.blocksOf n → b ∈ v.blocksOf m → n = m := by
  rw [Consistency.allBlocks, nodup_flatMap_iff v.nodup_inodeNumbers]
  constructor
  · rintro ⟨hnodup, hunshared⟩
    refine ⟨fun n => ?_, fun n m b hn hm => ?_⟩
    · cases hn : v.live? n with
      | none =>
        rw [blocksOf, hn]
        exact List.nodup_nil
      | some node => exact hnodup n (mem_inodeNumbers_of_live hv hn)
    · exact hunshared n (mem_inodeNumbers_of_mem hv hn) m (mem_inodeNumbers_of_mem hv hm) b hn hm
  · rintro ⟨hnodup, hunshared⟩
    exact ⟨fun n _ => hnodup n, fun n _ m _ b => hunshared n m b⟩

theorem exists_get? (hv : v.Sized) {n : UInt32} (h0 : n ≠ 0)
    (hlt : n.toNat < v.space.inodes.total.toNat) : ∃ node, v.table.get? n = some node := by
  have hin : n.toNat < v.table.records.size := by
    rw [hv.records]
    exact hlt
  have hle : ¬(n = 0 ∨ v.table.total ≤ n) := by
    rw [not_or, hv.table, UInt32.le_iff_toNat_le]
    exact ⟨h0, by omega⟩
  rw [InodeTable.get?, if_neg hle, Array.getElem?_eq_getElem hin]
  exact ⟨_, rfl⟩

theorem accounted_iff (hv : v.Sized) :
    Consistency.Accounted v ↔
      v.space.blocks.free.toNat + v.space.blocks.popcount = v.space.blocks.total.toNat ∧
      v.space.inodes.free.toNat + v.space.inodes.popcount = v.space.inodes.total.toNat ∧
      ∀ n node, v.live? n = some node → Consistency.Survey.Fine v node := by
  constructor
  · intro h
    refine ⟨h.freeBlocks, h.freeInodes, fun n node hn => ?_⟩
    obtain ⟨hused, hget⟩ := live?_eq_some.1 hn
    obtain ⟨node', hget', hfine⟩ := h.fine n (mem_inodeNumbers_of_live hv hn) hused
    rw [hget] at hget'
    exact Option.some.inj hget' ▸ hfine
  · rintro ⟨hblocks, hinodes, hfine⟩
    refine ⟨hblocks, hinodes, fun n hn hused => ?_⟩
    obtain ⟨hpos, hlt⟩ := mem_inodeNumbers.1 hn
    obtain ⟨node, hnode⟩ := exists_get? hv (UInt32.pos_iff_ne_zero.1 hpos)
      (UInt32.lt_iff_toNat_lt.1 hlt)
    exact ⟨node, hnode, hfine n node (live?_eq_some.2 ⟨hused, hnode⟩)⟩

theorem clean_iff_consistent (hv : v.Sized) :
    (∃ r, Consistency.check v = .ok r ∧ r.isClean = true) ↔ v.Consistent := by
  rw [Consistency.clean_iff_survey, nodup_allBlocks hv, accounted_iff hv]
  simp only [mem_allBlocks hv]
  constructor
  · rintro ⟨⟨hblocks, hinodes, hlive⟩, ⟨hnodup, hunshared⟩, howned⟩
    have hinside : ∀ n, ∀ b ∈ v.blocksOf n,
        b < v.space.blocks.total.toNat ∧ v.space.blocks.used b = true := by
      intro n b hb
      obtain ⟨node, hn, hb⟩ := mem_blocksOf.1 hb
      exact (hlive n node hn).2.2 b hb
    refine ⟨hinodes, hblocks, fun n node hn => (hlive n node hn).1, fun n node hn => ?_,
      fun n b hb => (hinside n b hb).1, hnodup, hunshared, fun b hb => ⟨howned b hb, ?_⟩⟩
    · have hlen : (v.blocksOf n).length ≤ v.space.blocks.total.toNat :=
        Inode.length_le_of_nodup (hnodup n) fun b hb => (hinside n b hb).1
      rw [blocksOf_live hn] at hlen
      have htotal := v.space.blocks.total.toNat_lt
      rw [(hlive n node hn).2.1, ExtentMap.toNat_totalBlocks]
      omega
    · rintro ⟨n, hn⟩
      exact (hinside n b hn).2
  · intro h
    refine ⟨⟨h.freeBlocks, h.freeInodes, fun n node hn => ⟨h.counted _ node hn, ?_, ?_⟩⟩,
      ⟨h.nodup, h.unshared⟩, fun b hb => (h.used_iff b hb).1⟩
    · have hlt := node.blocks.toNat_lt
      apply UInt32.toNat_inj.1
      have hheld := h.held _ node hn
      rw [ExtentMap.toNat_totalBlocks]
      omega
    · intro b hb
      have hb' := blocksOf_live hn ▸ hb
      exact ⟨h.inside _ b hb', (h.used_iff b (h.inside _ b hb')).2 ⟨_, hb'⟩⟩

end Volume

end ExtentVolume
