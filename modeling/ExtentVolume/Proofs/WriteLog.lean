import ExtentVolume.Proofs.BlockCache
import ExtentVolume.Proofs.Device

namespace ExtentVolume

open BlockDevice

/-- A device and the numbers of the blocks that were written to it, in the order of the writes. -/
structure LoggedDisk (D : Type) where
  disk : D
  log : List Nat

instance {D : Type} [BlockDevice D] : BlockDevice (LoggedDisk D) where
  blockCount d := blockCount d.disk
  readBlock d n := readBlock d.disk n
  writeBlock d n b := (fun disk => ⟨disk, d.log ++ [n]⟩) <$> writeBlock d.disk n b

instance {D : Type} [BlockDevice D] [FaithfulDevice D] : FaithfulDevice (LoggedDisk D) where
  Valid d := FaithfulDevice.Valid d.disk
  held d := FaithfulDevice.held d.disk
  read_eq hd h := FaithfulDevice.read_eq hd h
  write_eq {d d' n b} hd h := by
    simp only [writeBlock] at h
    cases hw : writeBlock d.disk n b with
    | error e => simp [hw, Functor.map, Except.map] at h
    | ok disk =>
      simp only [hw, Functor.map, Except.map, Except.ok.injEq] at h
      obtain rfl := h
      exact FaithfulDevice.write_eq hd hw

/-- The step writes just these blocks, one after the other. If it reports an error, it has come some
way through them, and it never traps. -/
def Action.Writes {ε σ α : Type} (x : Action ε σ α) (log : σ → List Nat) (s : σ)
    (numbers : List Nat) : Prop :=
  Ensures x s (fun _ s' => log s' = log s ++ numbers)
    (fun _ s' => ∃ written, log s' = log s ++ numbers.take written) False

section Rules

variable {ε ε' σ τ α : Type} {log : σ → List Nat} {s : σ} {numbers : List Nat}

theorem Action.writes_restate {f : ε → ε'} {x : Action ε σ α} (h : Writes x log s numbers) :
    Writes (restate f x) log s numbers :=
  ensures_restate.2 h

theorem Action.writes_within {part : σ → τ} {replace : σ → τ → σ} {x : Action ε τ α}
    {log' : τ → List Nat} (h : Writes x log' (part s) numbers) (hs : log s = log' (part s))
    (hlog : ∀ t, log (replace s t) = log' t) : Writes (within part replace x) log s numbers := by
  apply ensures_within.2
  simp only [hlog, hs]
  exact h

end Rules

variable {D : Type} [BlockDevice D] {start : UInt64} {index : Nat}

namespace LoggedDisk

theorem store_ensures (h : start.toNat + index < 2 ^ 64) (b : Block) (d : LoggedDisk D) :
    Action.Ensures (store start index b) d
      (fun _ d' => d'.log = d.log ++ [start.toNat + index]) (fun _ d' => d' = d) False := by
  simp only [store, Action.ensures_bind, Action.ensures_get, Action.ensures_checked,
    blockNumber_ok h]
  cases hwrite : writeBlock d.disk (start.toNat + index) b with
  | ok disk =>
    have hlogged : writeBlock d (start.toNat + index) b =
        .ok ⟨disk, d.log ++ [start.toNat + index]⟩ := by
      simp only [writeBlock, hwrite, Functor.map, Except.map]
    rw [hlogged]
    rfl
  | error e =>
    have hlogged : writeBlock d (start.toNat + index) b = .error e := by
      simp only [writeBlock, hwrite, Functor.map, Except.map]
    rw [hlogged]
    rfl

theorem storeRun_writes {blocks : List Block} (h : start.toNat + index + blocks.length ≤ 2 ^ 64)
    (d : LoggedDisk D) :
    (storeRun start index blocks).Writes log d
      (List.range' (start.toNat + index) blocks.length) := by
  induction blocks generalizing d index with
  | nil => exact (List.append_nil d.log).symm
  | cons b rest ih =>
    rw [List.length_cons] at h
    rw [List.length_cons, List.range'_succ, Action.Writes, storeRun, Action.ensures_bind]
    apply (store_ensures (by omega) b d).mono
    · intro _ d₁ hd₁
      have hrest := ih (show start.toNat + (index + 1) + rest.length ≤ 2 ^ 64 by omega) d₁
      apply hrest.mono
      · intro _ d₂ hd₂
        rw [hd₂, hd₁, List.append_assoc]
        rfl
      · rintro _ d₂ ⟨written, hd₂⟩
        apply Exists.intro (written + 1)
        rw [hd₂, hd₁, List.append_assoc]
        rfl
      · exact id
    · intro _ d₁ hd₁
      apply Exists.intro 0
      rw [hd₁]
      exact (List.append_nil d.log).symm
    · exact id

end LoggedDisk

namespace BlockCache

variable {a : BlockCache}

def dirtyAt (a : BlockCache) (b : Nat) : Bool := a.cells[b]?.any (·.dirty)

theorem dirtyAt_eq_true {b : Nat} : a.dirtyAt b = true ↔ Dirty a.cells b := by
  unfold dirtyAt Dirty
  match a.cells[b]? with
  | none => simp
  | some ⟨content, true⟩ => exact ⟨fun _ => ⟨content, rfl⟩, fun _ => rfl⟩
  | some ⟨content, false⟩ => simp

/-- The numbers on the device of those of the blocks that are dirty. -/
def dirtyNumbers (a : BlockCache) (l : List Nat) : List Nat :=
  (l.filter a.dirtyAt).map (a.start.toNat + ·)

theorem dirtyNumbers_congr {a' : BlockCache} {l : List Nat} (hstart : a'.start = a.start)
    (hcells : ∀ b ∈ l, a'.cells[b]? = a.cells[b]?) : a'.dirtyNumbers l = a.dirtyNumbers l := by
  have hdirty : l.filter a'.dirtyAt = l.filter a.dirtyAt := by
    apply List.filter_congr
    intro b hb
    rw [dirtyAt, dirtyAt, hcells b hb]
  rw [dirtyNumbers, dirtyNumbers, hstart, hdirty]

theorem syncBlock_writes (hin : a.start.toNat + a.cells.size ≤ 2 ^ 64) (i : Nat)
    (d : LoggedDisk D) :
    Action.Ensures (syncBlock i) (a, d)
      (fun _ s => s.2.log = d.log ++ a.dirtyNumbers [i] ∧ s.1.start = a.start ∧
        s.1.cells.size = a.cells.size ∧ ∀ b, b ≠ i → s.1.cells[b]? = a.cells[b]?)
      (fun _ s => s.2.log = d.log) False := by
  simp only [syncBlock, Action.ensures_bind, Action.ensures_get]
  split
  · rename_i content hi
    have hlt : i < a.cells.size := (Array.getElem?_eq_some_iff.1 hi).1
    have hdirty : a.dirtyAt i = true := dirtyAt_eq_true.2 ⟨content, hi⟩
    rw [Action.ensures_bind, Action.ensures_within]
    apply (LoggedDisk.store_ensures (by omega) content d).mono
    · intro _ d' hd'
      refine ⟨?_, rfl, Array.size_modify, fun b hb => ?_⟩
      · rw [dirtyNumbers, List.filter_cons_of_pos hdirty]
        exact hd'
      · exact Array.getElem?_modify.trans (if_neg hb.symm)
    · intro _ d' hd'
      exact congrArg LoggedDisk.log hd'
    · exact id
  · rename_i hclean
    have hdirty : ¬a.dirtyAt i = true := by
      intro hdirty
      obtain ⟨content, hi⟩ := dirtyAt_eq_true.1 hdirty
      exact hclean content hi
    refine ⟨?_, rfl, rfl, fun _ _ => rfl⟩
    rw [dirtyNumbers, List.filter_cons_of_neg hdirty]
    exact (List.append_nil d.log).symm

theorem syncBlocks_writes {l : List Nat} (hl : l.Nodup)
    (hin : a.start.toNat + a.cells.size ≤ 2 ^ 64) (d : LoggedDisk D) :
    (l.forM syncBlock).Writes (fun s : BlockCache × LoggedDisk D => s.2.log) (a, d)
      (a.dirtyNumbers l) := by
  induction l generalizing a d with
  | nil => exact (List.append_nil d.log).symm
  | cons i l ih =>
    obtain ⟨hi, hl⟩ := List.nodup_cons.1 hl
    have hsplit : a.dirtyNumbers (i :: l) = a.dirtyNumbers [i] ++ a.dirtyNumbers l := by
      rw [dirtyNumbers, dirtyNumbers, dirtyNumbers, ← List.map_append, ← List.filter_append]
      rfl
    rw [hsplit, Action.Writes, List.forM_eq_forM, List.forM_cons, Action.ensures_bind]
    apply (syncBlock_writes hin i d).mono
    · rintro _ ⟨a₁, d₁⟩ ⟨hlog, hstart, hsize, hcells⟩
      change d₁.log = _ at hlog
      have hin₁ : a₁.start.toNat + a₁.cells.size ≤ 2 ^ 64 := by
        rw [hstart, hsize]
        exact hin
      have hlater : a₁.dirtyNumbers l = a.dirtyNumbers l := by
        apply dirtyNumbers_congr hstart
        intro b hb
        exact hcells b (ne_of_mem_of_not_mem hb hi)
      apply (ih hl hin₁ d₁).mono
      · intro _ s hs
        change s.2.log = d₁.log ++ _ at hs
        rw [hs, hlog, hlater, List.append_assoc]
      · rintro _ s ⟨written, hs⟩
        change s.2.log = d₁.log ++ _ at hs
        apply Exists.intro ((a.dirtyNumbers [i]).length + written)
        rw [hs, hlog, hlater, List.append_assoc, List.take_length_add_append]
      · exact id
    · intro _ s hs
      apply Exists.intro 0
      rw [hs]
      exact (List.append_nil d.log).symm
    · exact id

theorem sync_writes (hin : a.start.toNat + a.cells.size ≤ 2 ^ 64) (d : LoggedDisk D) :
    sync.Writes (fun s : BlockCache × LoggedDisk D => s.2.log) (a, d)
      (a.dirtyNumbers (List.range a.cells.size)) := by
  rw [Action.Writes, sync, Action.ensures_bind, Action.ensures_get]
  exact syncBlocks_writes List.nodup_range hin d

theorem mem_dirtyNumbers {l : List Nat} {n : Nat} :
    n ∈ a.dirtyNumbers l ↔ ∃ b ∈ l, Dirty a.cells b ∧ a.start.toNat + b = n := by
  simp only [dirtyNumbers, List.mem_map, List.mem_filter, dirtyAt_eq_true, and_assoc]

end BlockCache

end ExtentVolume
