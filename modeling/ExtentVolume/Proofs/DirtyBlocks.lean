import ExtentVolume.Proofs.RegionLayout
import ExtentVolume.Proofs.WriteLog

namespace ExtentVolume.BlockCache

open BlockDevice

/-- An access that may change the area: bytes are lent out and then replaced or left as they are,
or an extent is cleared. -/
inductive Access where
  | write (address : Nat) (bytes : List UInt8)
  | touch (address length : Nat)
  | zero (e : Extent)

namespace Access

def address : Access → Nat
  | write address _ | touch address _ => address
  | zero e => e.byteStart

def length : Access → Nat
  | write _ bytes => bytes.length
  | touch _ length => length
  | zero e => e.byteLength

def stop (x : Access) : Nat := x.address + x.length

def apply (a : BlockCache) : Access → Fallible VolumeError BlockCache
  | write address bytes => a.write address bytes
  | touch address length => a.touch address length
  | zero e => a.zeroExtent e

def changed (a : BlockCache) : Access → BlockCache
  | write address bytes => { a with cells := setBytes a.cells address bytes }
  | touch address length =>
    if length = 0 then a
    else
      let first := address / blockSize
      let last := (address + length - 1) / blockSize
      { a with cells := markBlocks a.cells first (last + 1 - first) }
  | zero e => { a with cells := zeroBlocks a.cells e.start.toNat e.count.toNat }

def run (x : Access) : Action VolumeError BlockCache Unit := do
  let a ← get
  set (← liftM (x.apply a))

def Meets (x : Access) (b : Nat) : Prop := ∃ i < x.length, (x.address + i) / blockSize = b

def left (a : BlockCache) (n : Nat) : Access → UInt8
  | write address bytes => bytes[n - address]?.getD 0
  | touch _ _ => a.byteAt n
  | zero _ => 0

/-- The access took place: the blocks that it meets are dirty, and nothing outside its range has
changed. -/
structure Applied (x : Access) (a a' : BlockCache) : Prop where
  start : a'.start = a.start
  size : a'.cells.size = a.cells.size
  dirty : ∀ b, Dirty a'.cells b ↔ Dirty a.cells b ∨ x.Meets b
  bytes : ∀ n, a'.byteAt n = if x.address ≤ n ∧ n < x.stop then x.left a n else a.byteAt n
  cells : ∀ b, ¬x.Meets b → a'.cells[b]? = a.cells[b]?

variable {x : Access} {a a' : BlockCache}

theorem meets_zero {e : Extent} {b : Nat} :
    (zero e).Meets b ↔ e.start.toNat ≤ b ∧ b < e.start.toNat + e.count.toNat := by
  simp only [Meets, address, length, Extent.byteStart, Extent.byteLength, blockSize]
  constructor
  · rintro ⟨i, hi, rfl⟩
    omega
  · rintro ⟨hfirst, hlast⟩
    exact ⟨(b - e.start.toNat) * 4096, by omega, by omega⟩

theorem meets_touch {first size b : Nat} (h : size ≠ 0) :
    (touch first size).Meets b ↔
      first / blockSize ≤ b ∧ b < first / blockSize +
        ((first + size - 1) / blockSize + 1 - first / blockSize) := by
  simp only [Meets, address, length, blockSize]
  constructor
  · rintro ⟨i, hi, rfl⟩
    omega
  · rintro ⟨hfirst, hlast⟩
    by_cases hb : first / 4096 = b
    · exact ⟨0, by omega, hb⟩
    · exact ⟨b * 4096 - first, by omega, by omega⟩

theorem apply_eq (a : BlockCache) (x : Access) : x.apply a = (do
    a.check x.address x.length
    return x.changed a) := by
  cases x with
  | write first bytes => rfl
  | touch first size =>
    simp only [apply, BlockCache.touch, changed]
    split <;> rfl
  | zero e => rfl

theorem check_ok (hwords : x.stop < 2 ^ 64) (h : x.stop ≤ a.size) :
    a.check x.address x.length = .ok () :=
  (check_eq a hwords).trans (if_neg (Nat.not_lt.2 h))

theorem run_eq (a : BlockCache) (x : Access) : x.run a =
    (liftM (x.apply a) >>= set : Action VolumeError BlockCache Unit) a := rfl

theorem run_refused (hwords : x.stop < 2 ^ 64) (h : a.size < x.stop) :
    x.run a = .error (.failure (.fault (.outsideData x.address x.stop a.size))) a := by
  have hcheck : a.check x.address x.length =
      fail (.fault (.outsideData x.address x.stop a.size)) :=
    (check_eq a hwords).trans (if_pos h)
  have happly : x.apply a = fail (.fault (.outsideData x.address x.stop a.size)) := by
    rw [apply_eq, hcheck]
    rfl
  rw [run_eq, happly]
  rfl

theorem run_ok (hwords : x.stop < 2 ^ 64) (h : x.stop ≤ a.size) :
    x.run a = .ok () (x.changed a) := by
  have happly : x.apply a = .ok (x.changed a) := by
    rw [apply_eq, check_ok hwords h]
    rfl
  rw [run_eq, happly]
  rfl

theorem write_applied {first : Nat} {bytes : List UInt8} (h : first + bytes.length ≤ a.size) :
    (write first bytes).Applied a ((write first bytes).changed a) where
  start := rfl
  size := size_setBytes
  dirty _ := dirty_setBytes h
  bytes := byteAt_setBytes a.start h
  cells _ hb := getElem?_setBytes fun i hi hmeets => hb ⟨i, hi, hmeets⟩

theorem touch_applied {first size : Nat} (h : first + size ≤ a.size) :
    (touch first size).Applied a ((touch first size).changed a) := by
  by_cases hsize : size = 0
  · rw [changed, if_pos hsize]
    subst hsize
    exact ⟨rfl, rfl, fun b => by simp [Meets, length], fun n => (ite_self _).symm, fun _ _ => rfl⟩
  rw [changed, if_neg hsize]
  refine ⟨rfl, size_markBlocks, fun b => ?_, fun n => ?_, fun b hb => ?_⟩
  · rw [meets_touch hsize]
    apply dirty_markBlocks
    simp only [BlockCache.size, blockSize] at h ⊢
    omega
  · rw [byteAt_congr (block?_markBlocks a.cells a.start _ _ _)]
    exact (ite_self _).symm
  · rw [meets_touch hsize] at hb
    rw [getElem?_markBlocks, if_neg hb]

theorem zero_applied {e : Extent} (h : e.byteStart + e.byteLength ≤ a.size) :
    (zero e).Applied a ((zero e).changed a) where
  start := rfl
  size := size_zeroBlocks
  dirty b := by
    rw [meets_zero]
    apply dirty_zeroBlocks
    simp only [BlockCache.size, Extent.byteStart, Extent.byteLength, blockSize] at h
    omega
  bytes n := by
    have hmeets : ((zero e).address ≤ n ∧ n < (zero e).stop) ↔ e.start.toNat ≤ n / blockSize ∧
        n / blockSize < e.start.toNat + e.count.toNat := by
      simp only [stop, address, length, Extent.byteStart, Extent.byteLength, blockSize]
      omega
    simp only [hmeets]
    split
    · rename_i hin
      exact byteAt_zeroBlocks a.start n hin
    · rename_i hout
      apply byteAt_congr
      rw [changed, block?_zeroBlocks, if_neg hout]
  cells b hb := by
    rw [meets_zero] at hb
    rw [changed, getElem?_zeroBlocks, if_neg hb]

theorem applied (h : x.stop ≤ a.size) : x.Applied a (x.changed a) := by
  cases x with
  | write first bytes => exact write_applied h
  | touch first size => exact touch_applied h
  | zero e => exact zero_applied h

theorem run_ensures (hwords : x.stop < 2 ^ 64) :
    Action.Ensures x.run a (fun _ a' => x.stop ≤ a.size ∧ x.Applied a a')
      (fun _ a' => a.size < x.stop ∧ a' = a) False := by
  by_cases h : a.size < x.stop
  · unfold Action.Ensures
    rw [run_refused hwords h]
    exact ⟨h, rfl⟩
  · have hin := Nat.not_lt.1 h
    exact (Action.ensures_of_ok (run_ok hwords hin)).2 ⟨hin, applied hin⟩

end Access

variable {D : Type} [BlockDevice D]

/-- The device as it takes a log of the writes to it and refuses to write some of its blocks. -/
def refusing (d : D) (blocks : List Nat) : LoggedDisk (FaultyDisk D) := ⟨⟨d, [], blocks⟩, []⟩

inductive Step : BlockCache × D → BlockCache × D → Prop where
  | access {a a' : BlockCache} {d : D} {x : Access} (hwords : x.stop < 2 ^ 64)
      (h : Action.Returns x.run a a') : Step (a, d) (a', d)
  | sync {a a' : BlockCache} {d : D} {blocks : List Nat} {l : LoggedDisk (FaultyDisk D)}
      (h : Action.Returns sync (a, refusing d blocks) (a', l)) : Step (a, d) (a', l.disk.disk)

abbrev Run : BlockCache × D → BlockCache × D → Prop := Relation.ReflTransGen Step

/-- What a sync did, as far as it came: in memory no byte has changed, and the blocks that it wrote
were dirty and came one after the other. -/
structure Flushed (a a' : BlockCache) (log : List Nat) : Prop where
  start : a'.start = a.start
  size : a'.cells.size = a.cells.size
  content : ∀ b, a'.block? b = a.block? b
  ascending : log.Pairwise (· < ·)
  dirty : ∀ n ∈ log, ∃ b, Dirty a.cells b ∧ a.start.toNat + b = n

variable [FaithfulDevice D] {a a' a₀ : BlockCache} {d d' : D} {start : UInt64} {count : UInt32}

structure Held (start : UInt64) (count : UInt32) (a : BlockCache) (d : D) : Prop where
  valid : FaithfulDevice.Valid d
  inWords : start.toNat + count.toNat ≤ 2 ^ 64
  start_eq : a.start = start
  size_eq : a.cells.size = count.toNat
  backed : ∀ b < count.toNat, a.Backed (FaithfulDevice.held d) b

theorem held_of_load (hvalid : FaithfulDevice.Valid d) (h : load d start count = .ok a) :
    Held start count a d := by
  obtain ⟨hstart, hsize, hfetched⟩ := of_load h
  refine ⟨hvalid, hfetched.le_words, hstart, hsize, fun b hb => .inr ?_⟩
  rw [hstart]
  exact block?_of_load hvalid h hb

theorem Held.access (h : Held start count a d) {x : Access} (hx : x.Applied a a') :
    Held start count a' d := by
  refine ⟨h.valid, h.inWords, hx.start.trans h.start_eq, hx.size.trans h.size_eq, fun b hb => ?_⟩
  by_cases hmeets : x.Meets b
  · exact .inl ((hx.dirty b).2 (.inr hmeets))
  · refine (h.backed b hb).imp (fun hdirty => (hx.dirty b).2 (.inl hdirty)) fun hblock => ?_
    rw [block?_congr (hx.cells b hmeets), hx.start]
    exact hblock

theorem flushed_of_take {c c' : Nat → Block} {log : List Nat} (hback : WrittenBack a a' c c')
    {written : Nat} (hlog : log = (a.dirtyNumbers (List.range a.cells.size)).take written) :
    Flushed a a' log := by
  refine ⟨hback.start, hback.size, hback.content, ?_, ?_⟩
  · have hnumbers : (a.dirtyNumbers (List.range a.cells.size)).Pairwise (· < ·) := by
      refine List.pairwise_map.2 ((List.pairwise_lt_range.filter _).imp ?_)
      intro b b' hlt
      exact Nat.add_lt_add_left hlt _
    rw [hlog]
    exact hnumbers.sublist (List.take_sublist _ _)
  · intro n hn
    rw [hlog] at hn
    obtain ⟨b, -, hb⟩ := mem_dirtyNumbers.1 (List.mem_of_mem_take hn)
    exact ⟨b, hb⟩

theorem Held.sync_ensures (h : Held start count a d) (blocks : List Nat) :
    Action.Ensures sync (a, refusing d blocks)
      (fun _ s => Held start count s.1 s.2.disk.disk ∧ Flushed a s.1 s.2.log ∧
        (∀ b, Dirty a.cells b → a.start.toNat + b ∈ s.2.log) ∧ ∀ b, ¬Dirty s.1.cells b)
      (fun _ s => Held start count s.1 s.2.disk.disk ∧ Flushed a s.1 s.2.log) False := by
  have hin : a.start.toNat + a.cells.size ≤ 2 ^ 64 := by
    rw [h.start_eq, h.size_eq]
    exact h.inWords
  have hheld : Contains (blockCount (refusing d blocks)) (refusing d blocks)
      (FaithfulDevice.held d) := ⟨h.valid, rfl, rfl⟩
  have hkept : ∀ {a' : BlockCache} {l : LoggedDisk (FaultyDisk D)} {c' : Nat → Block},
      Contains (blockCount (refusing d blocks)) l c' →
      WrittenBack a a' (FaithfulDevice.held d) c' → Held start count a' l.disk.disk := by
    rintro a' l c' ⟨hvalid, -, rfl⟩ hback
    exact ⟨hvalid, h.inWords, hback.start.trans h.start_eq, hback.size.trans h.size_eq,
      fun b hb => hback.backed (h.backed b hb)⟩
  have hcleans := sync_cleans (tracks_contains _) hheld (Nat.le_refl _) hin
  have hwrites := sync_writes hin (refusing d blocks)
  refine (hcleans.and hwrites).mono ?_ ?_ (·.1)
  · rintro _ ⟨a', l⟩ ⟨⟨c', hc', hback, hclean⟩, hlog⟩
    change l.log = a.dirtyNumbers (List.range a.cells.size) at hlog
    have hall := hlog.trans List.take_length.symm
    refine ⟨hkept hc' hback, flushed_of_take hback hall, fun b hb => ?_, hclean⟩
    obtain ⟨content, hcell⟩ := hb
    have hlt : b < a.cells.size := (Array.getElem?_eq_some_iff.1 hcell).1
    rw [hlog]
    exact mem_dirtyNumbers.2 ⟨b, List.mem_range.2 hlt, ⟨content, hcell⟩, rfl⟩
  · rintro _ ⟨a', l⟩ ⟨⟨-, c', hc', hback⟩, written, hlog⟩
    exact ⟨hkept hc' hback, flushed_of_take hback hlog⟩

theorem Held.step {s s' : BlockCache × D} (h : Held start count s.1 s.2) (hstep : Step s s') :
    Held start count s'.1 s'.2 := by
  cases hstep with
  | @access a a' d x hwords hrun =>
    have hens : Action.Leaves x.run a fun a' => Held start count a' d :=
      (Access.run_ensures hwords).mono (fun _ _ happlied => h.access happlied.2)
        (fun _ _ hkept => hkept.2 ▸ h) False.elim
    exact hens.of_returns hrun
  | @sync a a' d blocks l hsync =>
    have hens : Action.Leaves sync (a, refusing d blocks) fun s =>
        Held start count s.1 s.2.disk.disk :=
      (h.sync_ensures blocks).mono (fun _ _ hs => hs.1) (fun _ _ hs => hs.1) False.elim
    exact hens.of_returns hsync

theorem Held.run {s s' : BlockCache × D} (h : Held start count s.1 s.2) (hrun : Run s s') :
    Held start count s'.1 s'.2 := by
  induction hrun with
  | refl => exact h
  | tail _ hstep ih => exact ih.step hstep

/-- After a load and any accesses and syncs, refused ones among them, the device holds every block
that is not dirty. An access outside the area is an error that changes nothing; any other succeeds,
makes just the blocks dirty that it meets and changes no byte outside its range. A sync writes dirty
blocks only and in ascending order; if it succeeds, it has written all of them, none is dirty any
more and the device holds the whole area. -/
theorem dirty_tracking_is_exact {D : Type} [BlockDevice D] [FaithfulDevice D] (d d' : D)
    (start : UInt64) (count : UInt32) (a₀ a : BlockCache) (hvalid : FaithfulDevice.Valid d)
    (hload : load d start count = .ok a₀) (hrun : Run (a₀, d) (a, d')) :
    (∀ b < count.toNat, ¬Dirty a.cells b →
      a.block? b = some (FaithfulDevice.held d' (start.toNat + b))) ∧
    (∀ x : Access, x.stop < 2 ^ 64 →
      if a.size < x.stop then
        x.run a = .error (.failure (.fault (.outsideData x.address x.stop a.size))) a
      else ∃ a', x.run a = .ok () a' ∧ x.Applied a a') ∧
    ∀ blocks, Action.Ensures sync (a, refusing d' blocks)
      (fun _ s => Flushed a s.1 s.2.log ∧
        (∀ b, Dirty a.cells b → start.toNat + b ∈ s.2.log) ∧
        ∀ b < count.toNat, ¬Dirty s.1.cells b ∧
          s.1.block? b = some (FaithfulDevice.held s.2.disk.disk (start.toNat + b)))
      (fun _ s => Flushed a s.1 s.2.log) False := by
  have hheld : Held start count a d' := (held_of_load hvalid hload).run hrun
  have hblock : ∀ {a : BlockCache} {d : D}, Held start count a d → ∀ b < count.toNat,
      ¬Dirty a.cells b → a.block? b = some (FaithfulDevice.held d (start.toNat + b)) := by
    intro a d h b hb hclean
    rw [← h.start_eq]
    exact (h.backed b hb).resolve_left hclean
  refine ⟨hblock hheld, fun x hwords => ?_, fun blocks => ?_⟩
  · split
    · rename_i hout
      exact Access.run_refused hwords hout
    · rename_i hin
      exact ⟨_, Access.run_ok hwords (Nat.not_lt.1 hin), Access.applied (Nat.not_lt.1 hin)⟩
  · refine (hheld.sync_ensures blocks).mono ?_ (fun _ _ h => h.2) id
    rintro _ s ⟨hheld', hflushed, hall, hclean⟩
    refine ⟨hflushed, fun b hb => ?_, fun b hb => ⟨hclean b, hblock hheld' b hb (hclean b)⟩⟩
    rw [← hheld.start_eq]
    exact hall b hb

/-- Four bytes across the border of the first two blocks of three. -/
theorem write_across_border_marks_two : ∃ a₀ a : BlockCache,
    load (MemoryDisk.blank 8) 4 3 = .ok a₀ ∧
      (Access.write 4094 [1, 2, 3, 4]).run a₀ = .ok () a ∧
      (∀ b, Dirty a.cells b ↔ b = 0 ∨ b = 1) ∧
      a.block? 2 = some (FaithfulDevice.held (MemoryDisk.blank 8) 6) := by
  have hshows : Shows (MemoryDisk.blank 8) 8 (FaithfulDevice.held (MemoryDisk.blank 8)) :=
    Contains.shows ⟨trivial, rfl, rfl⟩ (fun n hn => ReliableDevice.read_ok trivial hn)
      (Nat.le_refl 8) (by decide)
  have hload : load (MemoryDisk.blank 8) 4 3 = .ok _ := load_eq hshows (by decide)
  obtain ⟨-, haccess, -⟩ := dirty_tracking_is_exact (MemoryDisk.blank 8) (MemoryDisk.blank 8) 4 3
    _ _ trivial hload .refl
  obtain ⟨a, hwrite, happlied⟩ := haccess (.write 4094 [1, 2, 3, 4]) (by decide)
  have hdirty : ∀ b, Dirty a.cells b ↔ b = 0 ∨ b = 1 := by
    intro b
    rw [happlied.dirty, or_iff_right (clean_ofDevice b)]
    simp only [Access.Meets, Access.address, Access.length, List.length_cons, List.length_nil,
      blockSize]
    constructor
    · rintro ⟨i, hi, rfl⟩
      omega
    · rintro (rfl | rfl)
      · exact ⟨0, by omega, by omega⟩
      · exact ⟨2, by omega, by omega⟩
  obtain ⟨hclean, -⟩ := dirty_tracking_is_exact (MemoryDisk.blank 8) (MemoryDisk.blank 8) 4 3 _ a
    trivial hload (.single (.access (x := .write 4094 [1, 2, 3, 4]) (by decide) (.inl ⟨(), hwrite⟩)))
  exact ⟨_, a, hload, hwrite, hdirty, hclean 2 (by decide) (by simp [hdirty])⟩

end ExtentVolume.BlockCache
