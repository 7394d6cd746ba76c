import ExtentVolume.Proofs.RegionLayout

namespace ExtentVolume

open BlockDevice

namespace Bitmap

variable {b : Bitmap} {n : Nat}

def vacant (b : Bitmap) : List Nat :=
  (List.range' b.reserved (b.total.toNat - b.reserved)).filter b.isClear

def idle (b : Bitmap) : List Nat := (List.range (min b.reserved b.total.toNat)).filter b.isClear

theorem isClear_eq (hn : n < b.total.toNat) : b.isClear n = !b.used n := by
  have hpad := le_paddedBits b.total
  rw [Bool.eq_iff_iff, isClear_iff, Bool.not_eq_true']
  exact and_iff_right (by omega)

theorem mem_vacant : n ∈ b.vacant ↔ b.reserved ≤ n ∧ n < b.total.toNat ∧ b.used n = false := by
  have hpad := le_paddedBits b.total
  rw [vacant, List.mem_filter, List.mem_range'_1, isClear_iff]
  constructor
  · rintro ⟨⟨hle, hlt⟩, -, hclear⟩
    exact ⟨hle, by omega, hclear⟩
  · rintro ⟨hle, hlt, hclear⟩
    exact ⟨⟨hle, by omega⟩, by omega, hclear⟩

theorem popcount_add (b : Bitmap) :
    b.popcount + (b.vacant.length + b.idle.length) = b.total.toNat + b.stray := by
  have hsplit : List.range b.total.toNat = List.range (min b.reserved b.total.toNat) ++
      List.range' b.reserved (b.total.toNat - b.reserved) := by
    rw [List.range_eq_range', List.range_eq_range']
    by_cases hle : b.reserved ≤ b.total.toNat
    · have happend : List.range' 0 b.reserved ++
          List.range' (0 + b.reserved) (b.total.toNat - b.reserved) = _ := List.range'_append_1
      rw [Nat.zero_add, Nat.add_sub_cancel' hle] at happend
      rw [Nat.min_eq_left hle, happend]
    · have hnone : b.total.toNat - b.reserved = 0 := by omega
      rw [Nat.min_eq_right (by omega), hnone, List.range'_zero, List.append_nil]
  have hclear : (List.range b.total.toNat).countP b.isClear =
      b.idle.length + b.vacant.length := by
    rw [hsplit, List.countP_append, List.countP_eq_length_filter, List.countP_eq_length_filter]
    rfl
  have hnot : (List.range b.total.toNat).countP b.isClear =
      (List.range b.total.toNat).countP fun n => ¬b.used n := by
    apply List.countP_congr
    intro n hn
    rw [isClear_eq (List.mem_range.1 hn)]
    simp
  have hall := List.length_eq_countP_add_countP b.used (l := List.range b.total.toNat)
  rw [List.length_range] at hall
  rw [popcount_eq_add_stray]
  omega

theorem lowestFree?_eq (b : Bitmap) : b.lowestFree? = b.vacant.head? := by
  rw [lowestFree?, firstFrom_eq, vacant, List.head?_filter]

theorem take_none (h : b.vacant = []) : b.take = .ok none := by
  have hlowest := b.lowestFree?_eq
  rw [h] at hlowest
  rw [take, hlowest]
  rfl

theorem take_trap {rest : List Nat} (h : b.vacant = n :: rest) (hfree : b.free.toNat = 0) :
    b.take = .error .overflow := by
  have hlowest := b.lowestFree?_eq
  have hless : ¬(1 : UInt32) ≤ b.free := by
    rw [UInt32.le_iff_toNat_le, hfree]
    decide
  rw [h] at hlowest
  rw [take, hlowest]
  simp only [List.head?_cons, difference32, hless, if_false, bind, Except.bind]

theorem take_some {rest : List Nat} (h : b.vacant = n :: rest) (hfree : b.free.toNat ≠ 0) :
    ∃ b', b.take = .ok (some (.ofNat n, b')) ∧ b'.free.toNat + 1 = b.free.toNat ∧
      b'.vacant = rest := by
  have hlowest := b.lowestFree?_eq
  have hone : (1 : UInt32) ≤ b.free := by
    rw [UInt32.le_iff_toNat_le]
    exact Nat.pos_of_ne_zero hfree
  have hpad := le_paddedBits b.total
  have hn : n ∈ b.vacant := h ▸ List.mem_cons_self
  obtain ⟨-, hlt, -⟩ := mem_vacant.1 hn
  have hnodup : (n :: rest).Nodup := by
    rw [← h, vacant]
    exact List.Nodup.filter _ List.nodup_range'
  rw [h] at hlowest
  refine ⟨{ b with free := b.free - 1, bits := b.bits.setIfInBounds n true }, ?_, ?_, ?_⟩
  · rw [take, hlowest]
    simp only [List.head?_cons, difference32, hone, if_true, bind, Except.bind, pure, Except.pure]
  · have hsub : (b.free - 1).toNat = b.free.toNat - 1 := UInt32.toNat_sub_of_le _ _ hone
    change (b.free - 1).toNat + 1 = b.free.toNat
    omega
  · -- of the numbers that were vacant, `n` is not any more
    have hkept : rest = b.vacant.filter fun k => k != n := by
      rw [h, List.filter_cons_of_neg (by simp), eq_comm, List.filter_eq_self]
      intro k hk
      exact bne_iff_ne.2 (ne_of_mem_of_not_mem hk (List.nodup_cons.1 hnodup).1)
    rw [hkept, vacant, vacant, List.filter_filter]
    apply List.filter_congr
    intro k hk
    have hlt' : k < b.total.toNat := by
      change k ∈ List.range' b.reserved (b.total.toNat - b.reserved) at hk
      rw [List.mem_range'_1] at hk
      omega
    rw [isClear_eq (by exact hlt'), isClear_eq hlt', used_set b n true _ k (by omega)]
    by_cases hkn : k = n
    · simp [hkn]
    · simp [hkn]

/-- Numbers that are taken one after the other, as many as that or until none is left. -/
def takeTimes (b : Bitmap) : (count : Nat) → Checked (List UInt32 × Bitmap)
  | 0 => return ([], b)
  | count + 1 => do
    match ← b.take with
    | none => return ([], b)
    | some (n, b) =>
      let (taken, b) ← b.takeTimes count
      return (n :: taken, b)

theorem takeTimes_ok {count : Nat} (h : min count b.vacant.length ≤ b.free.toNat) :
    ∃ b', b.takeTimes count = .ok ((b.vacant.take count).map .ofNat, b') ∧
      b'.free.toNat + min count b.vacant.length = b.free.toNat ∧
      b'.vacant = b.vacant.drop count := by
  induction count generalizing b with
  | zero =>
    refine ⟨b, rfl, ?_, rfl⟩
    rw [Nat.zero_min, Nat.add_zero]
  | succ count ih =>
    cases hvacant : b.vacant with
    | nil =>
      refine ⟨b, ?_, ?_, hvacant⟩
      · rw [takeTimes, take_none hvacant]
        rfl
      · rw [List.length_nil, Nat.min_zero, Nat.add_zero]
    | cons n rest =>
      rw [hvacant, List.length_cons] at h
      obtain ⟨b₁, htake, hfree, hrest⟩ := take_some hvacant (by omega)
      obtain ⟨b', htakes, hfree', hrest'⟩ := ih (b := b₁) (by rw [hrest]; omega)
      rw [hrest] at htakes hfree' hrest'
      refine ⟨b', ?_, ?_, ?_⟩
      · simp only [takeTimes, htake, htakes, bind, Except.bind, pure, Except.pure,
          List.take_succ_cons, List.map_cons]
      · rw [List.length_cons]
        omega
      · rw [hrest', List.drop_succ_cons]

theorem takeTimes_trap {count : Nat} (h : b.free.toNat < min count b.vacant.length) :
    b.takeTimes count = .error .overflow := by
  induction count generalizing b with
  | zero =>
    rw [Nat.zero_min] at h
    exact absurd h (Nat.not_lt_zero _)
  | succ count ih =>
    cases hvacant : b.vacant with
    | nil =>
      rw [hvacant, List.length_nil, Nat.min_zero] at h
      exact absurd h (Nat.not_lt_zero _)
    | cons n rest =>
      rw [hvacant, List.length_cons] at h
      by_cases hfree : b.free.toNat = 0
      · simp only [takeTimes, take_trap hvacant hfree, bind, Except.bind]
      · obtain ⟨b₁, htake, hfree₁, hrest⟩ := take_some hvacant hfree
        have htakes := ih (b := b₁) (by rw [hrest]; omega)
        simp only [takeTimes, htake, htakes, bind, Except.bind]

theorem free_of_load {D : Type} [BlockDevice D] {d : D} {reserved : Nat} {total : UInt32}
    {start : UInt64} (h : load d reserved total start = .ok b) :
    b.popcount < 2 ^ 32 ∧ b.free.toNat = b.total.toNat - b.popcount := by
  obtain ⟨blocks, -, h⟩ := Fallible.of_bind_ok h
  rw [ofBlocks_eq] at h
  obtain ⟨hcount, rfl⟩ := of_recounted (Fallible.of_lift_ok h)
  exact ⟨hcount, toNat_ofNat_of_le total (Nat.sub_le _ _)⟩

end Bitmap

theorem Volume.bitmaps_of_mount {D : Type} [BlockDevice D] {d : D} {v : Volume}
    (h : mount d = .ok v) :
    Bitmap.load d 1 v.superBlock.inodeCount v.superBlock.inodeBitmapStart = .ok v.space.inodes ∧
      Bitmap.load d 0 v.superBlock.blockCount v.superBlock.blockBitmapStart =
        .ok v.space.blocks := by
  obtain ⟨s, -, h⟩ := Fallible.of_bind_ok h
  obtain ⟨space, hspace, h⟩ := Fallible.of_bind_ok h
  obtain ⟨table, -, h⟩ := Fallible.of_bind_ok h
  obtain ⟨data, -, h⟩ := Fallible.of_bind_ok h
  split at h
  · obtain rfl := Except.ok.inj h
    exact FreeSpace.of_load (Fallible.of_restate_ok hspace)
  · cases h

/-- Whatever the device has, the counter of a bitmap that was loaded from it, also by a mount, is
the number of vacant numbers plus that of the idle ones minus that of the strays. It is exact if
there are as many of the one as of the other, or if nothing is vacant and there are not fewer
strays. From any bitmap the vacant numbers are taken in ascending order for as long as its counter
does not run out; if it runs out before they do, the next attempt traps. -/
theorem loaded_counter_exact_iff {D : Type} [BlockDevice D] (d : D) :
    (∀ (reserved : Nat) (total : UInt32) (start : UInt64) (b : Bitmap),
      Bitmap.load d reserved total start = .ok b →
        b.free.toNat = b.vacant.length + b.idle.length - b.stray ∧
          (b.free.toNat = b.vacant.length ↔
            b.idle.length = b.stray ∨ b.vacant = [] ∧ b.idle.length ≤ b.stray)) ∧
      (∀ v : Volume, Volume.mount d = .ok v →
        Bitmap.load d 1 v.superBlock.inodeCount v.superBlock.inodeBitmapStart =
            .ok v.space.inodes ∧
          Bitmap.load d 0 v.superBlock.blockCount v.superBlock.blockBitmapStart =
            .ok v.space.blocks) ∧
      ∀ (b : Bitmap) (count : Nat),
        if min count b.vacant.length ≤ b.free.toNat then
          ∃ b', b.takeTimes count = .ok ((b.vacant.take count).map .ofNat, b') ∧
            b'.free.toNat + min count b.vacant.length = b.free.toNat ∧
            b'.vacant = b.vacant.drop count
        else b.takeTimes count = .error .overflow := by
  refine ⟨fun reserved total start b h => ?_, fun v h => Volume.bitmaps_of_mount h,
    fun b count => ?_⟩
  · have hfree : b.free.toNat = b.vacant.length + b.idle.length - b.stray := by
      have hload := (Bitmap.free_of_load h).2
      have hbits := b.popcount_add
      omega
    refine ⟨hfree, ?_⟩
    rw [hfree, ← List.length_eq_zero_iff]
    omega
  · split
    · rename_i henough
      exact Bitmap.takeTimes_ok henough
    · rename_i hless
      exact Bitmap.takeTimes_trap (Nat.not_le.1 hless)

/-- A format puts the root directory into one of four blocks, and the other three are taken as often
as a mounted volume counts them. -/
theorem formatted_counter_is_exact :
    ∃ (v₀ v : Volume) (d' : MemoryDisk) (taken : List UInt32) (b' : Bitmap),
      Volume.format ⟨4, 4⟩ ⟨.replicate 16 0⟩ 0 (MemoryDisk.blank 8) = .ok v₀ d' ∧
        Volume.mount d' = .ok v ∧ v.space.blocks.free.toNat = v.space.blocks.vacant.length ∧
        v.space.blocks.takeTimes 3 = .ok (taken, b') ∧ taken.length = 3 ∧ b'.vacant = [] := by
  obtain ⟨v₀, d', hformat⟩ := Volume.format_memoryDisk
  have hformatted := Volume.formatted_of_format hformat
  obtain ⟨v, hmount, hrestored⟩ := Volume.mount_of_format trivial hformat
  obtain ⟨hcounters, hmounted, htakes⟩ := loaded_counter_exact_iff d'
  obtain ⟨-, hexact⟩ := hcounters _ _ _ _ (hmounted v hmount).2
  have hstray : v.space.blocks.stray = 0 := by
    rw [hrestored.space]
    exact hformatted.sound.whole.blockPadding.stray_eq
  have hidle : v.space.blocks.idle = [] := by
    rw [Bitmap.idle, hrestored.space, hformatted.sound.whole.sized.blockReserved, Nat.zero_min]
    rfl
  have hfree := hexact.2 (.inl (by rw [hidle, hstray]; rfl))
  have hthree : v.space.blocks.free.toNat = 3 := by
    have hcount : v₀.space.blocks.free.toNat + 1 = 4 := hformatted.free
    rw [hrestored.space]
    omega
  have htake := htakes v.space.blocks 3
  have hlength : v.space.blocks.vacant.length = 3 := hfree.symm.trans hthree
  rw [if_pos (by rw [hlength, hthree]; decide)] at htake
  obtain ⟨b', htaken, -, hrest⟩ := htake
  refine ⟨v₀, v, d', _, b', hformat, hmount, hfree, htaken, ?_, ?_⟩
  · rw [List.length_map, List.length_take, hlength]
    decide
  · rw [hrest, List.drop_eq_nil_of_le (Nat.le_of_eq hlength)]

namespace Bitmap

def secondOnly (reserved : Nat) (total free : UInt32) : Bitmap :=
  { reserved, total, free, start := 0, bits := Vector.ofFn fun i => i.val == 1 }

def secondOnlyDisk : MemoryDisk := ⟨#[.ofBytes [2]]⟩

theorem load_secondOnly {reserved : Nat} {total free : UInt32}
    (hbytes : (secondOnly reserved total free).toBytes = [2]) (hsize : regionSize total = 1)
    (hcount : (secondOnly reserved total free).popcount = 1)
    (hfree : free = .ofNat (total.toNat - 1)) :
    load secondOnlyDisk reserved total 0 = .ok (secondOnly reserved total free) := by
  have hshows : Shows secondOnlyDisk 1 fun _ => .ofBytes [2] := by
    refine ⟨by decide, fun n hn => ?_⟩
    obtain rfl : n = 0 := by omega
    rfl
  have hholds : Holds (fun _ => Block.ofBytes [2]) (secondOnly reserved total free).start.toNat
      (Block.split (secondOnly reserved total free).toBytes (regionSize total)) := by
    rw [hbytes, hsize]
    rintro (_ | i) b hi
    · exact Option.some.inj hi
    · cases hi
  have hin : (0 : UInt64).toNat + regionSize total ≤ 1 := by
    rw [hsize]
    decide
  have hload : load secondOnlyDisk reserved total 0 = _ :=
    load_eq_recounted (secondOnly reserved total free) hshows hholds hin
  rw [hload, recounted_eq, hcount, if_pos (by decide)]
  subst hfree
  rfl

end Bitmap

open Bitmap in
/-- The bit of number 1 is set and all others are clear. Where there is a number 0 only, it is
vacant and not counted, and taking it traps; where 0 is reserved and 1 is the other number, none is
vacant and one is counted. -/
theorem loaded_counters_may_be_wrong : ∃ (d : MemoryDisk) (blocks inodes : Bitmap),
    load d 0 1 0 = .ok blocks ∧ blocks.free = 0 ∧ blocks.vacant = [0] ∧
      blocks.takeTimes 1 = .error .overflow ∧
      load d 1 2 0 = .ok inodes ∧ inodes.free = 1 ∧ inodes.vacant = [] := by
  have hvacant : (secondOnly 0 1 0).vacant = [0] := by decide
  refine ⟨secondOnlyDisk, secondOnly 0 1 0, secondOnly 1 2 1, ?_, rfl, hvacant, ?_, ?_, rfl, ?_⟩
  · exact load_secondOnly (by decide) (by decide) (by decide) rfl
  · exact takeTimes_trap (by rw [hvacant]; decide)
  · exact load_secondOnly (by decide) (by decide) (by decide) rfl
  · decide

end ExtentVolume
