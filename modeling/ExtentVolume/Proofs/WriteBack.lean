import ExtentVolume.Proofs.BlockCache
import ExtentVolume.Proofs.Device

namespace ExtentVolume.BlockCache

open BlockDevice

variable {D : Type} [BlockDevice D] {holds : D → (Nat → Block) → Prop} {a a' a'' : BlockCache} {d : D}
  {c c' c'' : Nat → Block} {limit : Nat}

/-- The device holds the block of the data area that it has no newer content for. -/
def Backed (a : BlockCache) (c : Nat → Block) (b : Nat) : Prop :=
  Dirty a.cells b ∨ a.block? b = some (c (a.start.toNat + b))

structure WrittenBack (a a' : BlockCache) (c c' : Nat → Block) : Prop where
  start : a'.start = a.start
  size : a'.cells.size = a.cells.size
  content : ∀ b, a'.block? b = a.block? b
  block : ∀ b, (a'.cells[b]? = a.cells[b]? ∧ c' (a.start.toNat + b) = c (a.start.toNat + b)) ∨
    (¬Dirty a'.cells b ∧ a.block? b = some (c' (a.start.toNat + b)))
  before : ∀ n < a.start.toNat, c' n = c n

theorem WrittenBack.refl (a : BlockCache) (c : Nat → Block) : WrittenBack a a c c :=
  ⟨rfl, rfl, fun _ => rfl, fun _ => .inl ⟨rfl, rfl⟩, fun _ _ => rfl⟩

theorem WrittenBack.trans (h : WrittenBack a a' c c') (h' : WrittenBack a' a'' c' c'') :
    WrittenBack a a'' c c'' := by
  refine ⟨h'.start.trans h.start, h'.size.trans h.size,
    fun b => (h'.content b).trans (h.content b), fun b => ?_, fun n hn => ?_⟩
  · have hlast := h'.block b
    rw [h.start, h.content] at hlast
    obtain ⟨hcell, hheld⟩ | hclean := hlast
    · rw [hcell, hheld]
      refine (h.block b).imp id fun ⟨hclean, hblock⟩ => ⟨?_, hblock⟩
      rintro ⟨content, hdirty⟩
      exact hclean ⟨content, hcell ▸ hdirty⟩
    · exact .inr hclean
  · exact (h'.before n (h.start.symm ▸ hn)).trans (h.before n hn)

theorem WrittenBack.backed {b : Nat} (h : WrittenBack a a' c c') (hb : a.Backed c b) :
    a'.Backed c' b := by
  rw [Backed, h.start, h.content]
  obtain ⟨hcell, hheld⟩ | ⟨-, hblock⟩ := h.block b
  · rw [hheld]
    refine hb.imp ?_ id
    rintro ⟨content, hdirty⟩
    exact ⟨content, hcell.trans hdirty⟩
  · exact .inr hblock

theorem WrittenBack.clean {b : Nat} (h : WrittenBack a a' c c') (hb : ¬Dirty a.cells b) :
    ¬Dirty a'.cells b := by
  obtain ⟨hcell, -⟩ | ⟨hclean, -⟩ := h.block b
  · rintro ⟨content, hdirty⟩
    exact hb ⟨content, hcell ▸ hdirty⟩
  · exact hclean

/-- A dirty block that was stored and made clean is written back. -/
theorem writtenBack_modify {i : Nat} {content : Block} (hi : a.cells[i]? = some ⟨content, true⟩) :
    WrittenBack a { a with cells := a.cells.modify i ({ · with dirty := false }) } c
        (Function.update c (a.start.toNat + i) content) ∧
      ¬Dirty (a.cells.modify i ({ · with dirty := false })) i := by
  have hclean : ¬Dirty (a.cells.modify i ({ · with dirty := false })) i := by
    rintro ⟨content', hdirty⟩
    rw [Array.getElem?_modify, if_pos rfl, hi] at hdirty
    simp at hdirty
  refine ⟨⟨rfl, Array.size_modify, fun b => ?_, fun b => ?_, fun n hn => ?_⟩, hclean⟩
  · simp only [block?, Array.getElem?_modify]
    split
    · rw [Option.map_map]
      rfl
    · rfl
  · by_cases hb : i = b
    · subst hb
      rw [block?, hi, Function.update_self]
      exact .inr ⟨hclean, rfl⟩
    · have hne : a.start.toNat + b ≠ a.start.toNat + i := by omega
      rw [Array.getElem?_modify, if_neg hb, Function.update_of_ne hne]
      exact .inl ⟨rfl, rfl⟩
  · rw [Function.update_of_ne (by omega)]

theorem syncBlock_ensures (htracks : Tracks holds) (hd : holds d c) (hlimit : limit ≤ 2 ^ 64)
    (hin : a.start.toNat + a.cells.size ≤ limit) (i : Nat) :
    Action.Ensures (syncBlock i) (a, d)
      (fun _ s => ∃ c', holds s.2 c' ∧ WrittenBack a s.1 c c' ∧ ¬Dirty s.1.cells i)
      (fun _ s => Refuses holds limit ∧ ∃ c', holds s.2 c' ∧ WrittenBack a s.1 c c') False := by
  simp only [syncBlock, Action.ensures_bind, Action.ensures_get]
  split
  · rename_i content hi
    have hlt : i < a.cells.size := (Array.getElem?_eq_some_iff.1 hi).1
    rw [Action.ensures_bind, Action.ensures_within]
    refine (store_ensures htracks hd hlimit (by omega) content).mono ?_ ?_ id
    · intro _ d' hd'
      exact ⟨_, hd', writtenBack_modify hi⟩
    · rintro _ d' ⟨rfl, hrefused⟩
      exact ⟨hrefused, c, hd, .refl a c⟩
  · rename_i hclean
    refine ⟨c, hd, .refl a c, ?_⟩
    rintro ⟨content, hdirty⟩
    exact hclean content hdirty

theorem syncBlocks_ensures (htracks : Tracks holds) (hd : holds d c) (hlimit : limit ≤ 2 ^ 64)
    (hin : a.start.toNat + a.cells.size ≤ limit) (l : List Nat) :
    Action.Ensures (l.forM syncBlock) (a, d)
      (fun _ s => ∃ c', holds s.2 c' ∧ WrittenBack a s.1 c c' ∧ ∀ i ∈ l, ¬Dirty s.1.cells i)
      (fun _ s => Refuses holds limit ∧ ∃ c', holds s.2 c' ∧ WrittenBack a s.1 c c') False := by
  induction l generalizing a d c with
  | nil => exact ⟨c, hd, .refl a c, by simp⟩
  | cons i l ih =>
    rw [List.forM_eq_forM, List.forM_cons, Action.ensures_bind]
    apply (syncBlock_ensures htracks hd hlimit hin i).imp
    rintro _ ⟨a₁, d₁⟩ ⟨c₁, hd₁, hback₁, hclean₁⟩
    have hin₁ : a₁.start.toNat + a₁.cells.size ≤ limit := by
      rw [hback₁.start, hback₁.size]
      exact hin
    refine (ih hd₁ hin₁).mono ?_ ?_ id
    · rintro _ ⟨a₂, d₂⟩ ⟨c₂, hd₂, hback₂, hclean₂⟩
      refine ⟨c₂, hd₂, hback₁.trans hback₂, ?_⟩
      simp only [List.mem_cons, forall_eq_or_imp]
      exact ⟨hback₂.clean hclean₁, hclean₂⟩
    · rintro _ ⟨a₂, d₂⟩ ⟨hrefused, c₂, hd₂, hback₂⟩
      exact ⟨hrefused, c₂, hd₂, hback₁.trans hback₂⟩

theorem sync_cleans (htracks : Tracks holds) (hd : holds d c) (hlimit : limit ≤ 2 ^ 64)
    (hin : a.start.toNat + a.cells.size ≤ limit) :
    Action.Ensures sync (a, d)
      (fun _ s => ∃ c', holds s.2 c' ∧ WrittenBack a s.1 c c' ∧ ∀ b, ¬Dirty s.1.cells b)
      (fun _ s => Refuses holds limit ∧ ∃ c', holds s.2 c' ∧ WrittenBack a s.1 c c') False := by
  simp only [sync, Action.ensures_bind, Action.ensures_get]
  apply (syncBlocks_ensures htracks hd hlimit hin _).imp
  rintro _ ⟨a', d'⟩ ⟨c', hd', hback, hclean⟩
  refine ⟨c', hd', hback, fun b hdirty => ?_⟩
  obtain ⟨content, hcell⟩ := hdirty
  have hlt : b < a.cells.size := by
    rw [← hback.size]
    exact (Array.getElem?_eq_some_iff.1 hcell).1
  exact hclean b (List.mem_range.2 hlt) ⟨content, hcell⟩

/-- After all dirty blocks were written back, the device holds every block that it was to hold. -/
theorem sync_ensures (htracks : Tracks holds) (hd : holds d c) (hlimit : limit ≤ 2 ^ 64)
    (hin : a.start.toNat + a.cells.size ≤ limit) :
    Action.Ensures sync (a, d)
      (fun _ s => ∃ c', holds s.2 c' ∧ WrittenBack a s.1 c c' ∧
        ∀ b, a.Backed c b → s.1.block? b = some (c' (a.start.toNat + b)))
      (fun _ s => Refuses holds limit ∧ ∃ c', holds s.2 c' ∧ WrittenBack a s.1 c c') False := by
  apply (sync_cleans htracks hd hlimit hin).imp
  rintro _ ⟨a', d'⟩ ⟨c', hd', hback, hclean⟩
  refine ⟨c', hd', hback, fun b hb => ?_⟩
  have hblock := (hback.backed hb).resolve_left (hclean b)
  rwa [hback.start] at hblock

theorem sync_clean (h : ∀ i, ¬Dirty a.cells i) :
    Action.Ensures sync (a, d) (fun _ s => s = (a, d)) (fun _ _ => False) False := by
  have hblocks : ∀ l : List Nat, Action.Ensures (l.forM syncBlock) (a, d)
      (fun _ s => s = (a, d)) (fun _ _ => False) False := by
    intro l
    induction l with
    | nil => exact Action.ensures_pure.2 rfl
    | cons i l ih =>
      simp only [List.forM_eq_forM, List.forM_cons, syncBlock, Action.ensures_bind,
        Action.ensures_get]
      split
      · rename_i content hi
        exact absurd ⟨content, hi⟩ (h i)
      · exact ih
  exact hblocks _

def ofDevice (start : UInt64) (count : Nat) (c : Nat → Block) : BlockCache :=
  ⟨((List.range count).map fun i => ⟨c (start.toNat + i), false⟩).toArray, start⟩

theorem block?_ofDevice {start : UInt64} {count b : Nat} (hb : b < count) :
    (ofDevice start count c).block? b = some (c (start.toNat + b)) := by
  simp [block?, ofDevice, hb]

theorem clean_ofDevice {start : UInt64} {count : Nat} (b : Nat) :
    ¬Dirty (ofDevice start count c).cells b := by
  rintro ⟨content, hdirty⟩
  simp [ofDevice] at hdirty

theorem load_eq {start : UInt64} {count : UInt32} (hd : Shows d limit c)
    (hin : start.toNat + count.toNat ≤ limit) :
    load d start count = .ok (ofDevice start count.toNat c) := by
  have hall : ∀ i ∈ List.range count.toNat, fetch d start i = .ok (c (start.toNat + i)) := by
    intro i hi
    rw [List.mem_range] at hi
    exact fetch_ok hd (by omega)
  simp only [load, fetchRun, mapM_ok hall, List.map_map, bind, Except.bind, pure, Except.pure]
  rfl

end ExtentVolume.BlockCache
