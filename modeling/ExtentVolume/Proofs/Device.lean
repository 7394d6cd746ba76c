import Mathlib.Logic.Function.Basic
import Mathlib.Logic.Relation
import ExtentVolume.Device.Image
import ExtentVolume.Device.Memory
import ExtentVolume.Proofs.Outcome

namespace ExtentVolume

/-- A device that keeps what is written to it. Any access may be refused; one that succeeds reads
what is held, or replaces one block of it. -/
class FaithfulDevice (D : Type) [BlockDevice D] where
  Valid : D → Prop
  held : D → Nat → Block
  read_eq {d : D} {n : Nat} {b : Block} : Valid d → BlockDevice.readBlock d n = .ok b → b = held d n
  write_eq {d d' : D} {n : Nat} {b : Block} : Valid d → BlockDevice.writeBlock d n b = .ok d' →
    Valid d' ∧ BlockDevice.blockCount d' = BlockDevice.blockCount d ∧
      held d' = Function.update (held d) n b

/-- A faithful device that refuses no access below its block count. -/
class ReliableDevice (D : Type) [BlockDevice D] extends FaithfulDevice D where
  read_ok {d : D} {n : Nat} : Valid d → n < BlockDevice.blockCount d →
    ∃ b, BlockDevice.readBlock d n = .ok b
  write_ok {d : D} {n : Nat} (b : Block) : Valid d → n < BlockDevice.blockCount d →
    ∃ d', BlockDevice.writeBlock d n b = .ok d'

namespace BlockDevice

variable {D : Type} [BlockDevice D]

/-- Every write that succeeds keeps the relation between a device and what it holds. -/
def Tracks (holds : D → (Nat → Block) → Prop) : Prop :=
  ∀ ⦃d c n b d'⦄, holds d c → writeBlock d n b = .ok d' → holds d' (Function.update c n b)

/-- Some write to one of the first `limit` blocks is refused. -/
def Refuses (holds : D → (Nat → Block) → Prop) (limit : Nat) : Prop :=
  ∃ d c n b e, holds d c ∧ n < limit ∧ writeBlock d n b = .error e

/-- What is held after the blocks from `first` on were written. -/
def replaced (c : Nat → Block) (first : Nat) (blocks : List Block) (n : Nat) : Block :=
  if first ≤ n then blocks[n - first]?.getD (c n) else c n

variable {holds : D → (Nat → Block) → Prop} {c : Nat → Block} {first n : Nat} {blocks : List Block}

theorem replaced_nil : replaced c first [] = c := by
  funext n
  simp [replaced]

theorem replaced_cons (b : Block) : replaced c first (b :: blocks) =
    replaced (Function.update c first b) (first + 1) blocks := by
  funext n
  unfold replaced
  obtain h | rfl | h := Nat.lt_trichotomy n first
  · rw [if_neg (by omega), if_neg (by omega), Function.update_of_ne (by omega)]
  · rw [if_pos (Nat.le_refl n), if_neg (by omega), Nat.sub_self, Function.update_self]
    rfl
  · have hsub : n - first = (n - (first + 1)) + 1 := by omega
    rw [if_pos (by omega), if_pos (by omega), hsub, List.getElem?_cons_succ,
      Function.update_of_ne (by omega)]

theorem replaced_outside (h : n < first ∨ first + blocks.length ≤ n) :
    replaced c first blocks n = c n := by
  unfold replaced
  split
  · rw [List.getElem?_eq_none (by omega), Option.getD_none]
  · rfl

theorem replaced_at {i : Nat} {b : Block} (h : blocks[i]? = some b) :
    replaced c first blocks (first + i) = b := by
  rw [replaced, if_pos (by omega), Nat.add_sub_cancel_left, h, Option.getD_some]

theorem blockNumber_ok {start : UInt64} {index : Nat} (h : start.toNat + index < 2 ^ 64) :
    blockNumber start index = .ok (start.toNat + index) := by
  have hnat : (UInt64.ofNat (start.toNat + index)).toNat = start.toNat + index :=
    UInt64.toNat_ofNat_of_lt' (by simp only [UInt64.size]; omega)
  rw [blockNumber, word64_ok h]
  exact congrArg Except.ok hnat

variable {d : D} {start : UInt64} {index limit : Nat}

theorem store_ensures (htracks : Tracks holds) (hd : holds d c) (hlimit : limit ≤ 2 ^ 64)
    (hin : start.toNat + index < limit) (b : Block) :
    Action.Ensures (store start index b) d
      (fun _ d' => holds d' (Function.update c (start.toNat + index) b))
      (fun _ d' => d' = d ∧ Refuses holds limit) False := by
  simp only [store, Action.ensures_bind, Action.ensures_get, Action.ensures_checked,
    blockNumber_ok (by omega : start.toNat + index < 2 ^ 64)]
  cases hwrite : writeBlock d (start.toNat + index) b with
  | ok d' => exact htracks hd hwrite
  | error e => exact ⟨rfl, d, c, _, b, e, hd, hin, hwrite⟩

theorem storeRun_ensures (htracks : Tracks holds) (hd : holds d c) (hlimit : limit ≤ 2 ^ 64)
    (hin : start.toNat + index + blocks.length ≤ limit) :
    Action.Ensures (storeRun start index blocks) d
      (fun _ d' => holds d' (replaced c (start.toNat + index) blocks))
      (fun _ d' => Refuses holds limit ∧
        ∃ written, holds d' (replaced c (start.toNat + index) (blocks.take written))) False := by
  induction blocks generalizing d c index with
  | nil =>
    rw [replaced_nil]
    exact hd
  | cons b rest ih =>
    rw [List.length_cons] at hin
    rw [storeRun, Action.ensures_bind]
    refine (store_ensures htracks hd hlimit (by omega) b).mono ?_ ?_ id
    · intro _ d₁ hd₁
      have hrest := ih hd₁ (show start.toNat + (index + 1) + rest.length ≤ limit by omega)
      refine hrest.mono ?_ ?_ id
      · intro _ d₂ hd₂
        rw [replaced_cons]
        exact hd₂
      · rintro _ d₂ ⟨hrefused, written, hd₂⟩
        refine ⟨hrefused, written + 1, ?_⟩
        rw [List.take_succ_cons, replaced_cons]
        exact hd₂
    · rintro _ d₁ ⟨rfl, hrefused⟩
      refine ⟨hrefused, 0, ?_⟩
      rw [List.take_zero, replaced_nil]
      exact hd

theorem mapM_ok {ε α β : Type} {f : α → Fallible ε β} {g : α → β} {as : List α}
    (h : ∀ a ∈ as, f a = .ok (g a)) : as.mapM f = .ok (as.map g) := by
  induction as with
  | nil => rfl
  | cons a as ih =>
    rw [List.mapM_cons, h a List.mem_cons_self, ih fun x hx => h x (List.mem_cons_of_mem _ hx)]
    rfl

def Readable (d : D) : Prop := ∀ n < blockCount d, ∃ b, readBlock d n = .ok b

def Shows (d : D) (limit : Nat) (c : Nat → Block) : Prop :=
  limit ≤ 2 ^ 64 ∧ ∀ n < limit, readBlock d n = .ok (c n)

def Holds (c : Nat → Block) (first : Nat) (blocks : List Block) : Prop :=
  ∀ i b, blocks[i]? = some b → c (first + i) = b

theorem holds_replaced : Holds (replaced c first blocks) first blocks :=
  fun _ _ h => replaced_at h

theorem Holds.replaced_eq (h : Holds c first blocks) : replaced c first blocks = c := by
  funext n
  by_cases hin : first ≤ n ∧ n < first + blocks.length
  · obtain ⟨i, rfl⟩ := Nat.exists_eq_add_of_le hin.1
    have hi : blocks[i]? = some _ := List.getElem?_eq_getElem (by omega)
    rw [replaced_at hi, h i _ hi]
  · exact replaced_outside (by omega)

theorem storeRun_held (htracks : Tracks holds) (hd : holds d c) (hlimit : limit ≤ 2 ^ 64)
    (hin : start.toNat + blocks.length ≤ limit) (h : Holds c start.toNat blocks) :
    Action.Ensures (storeRun start 0 blocks) d (fun _ d' => holds d' c)
      (fun _ _ => Refuses holds limit) False := by
  apply (storeRun_ensures htracks hd hlimit hin).mono
  · intro _ d' hd'
    rwa [Nat.add_zero, h.replaced_eq] at hd'
  · rintro _ _ ⟨hrefused, -⟩
    exact hrefused
  · exact id

theorem Holds.replaced {blocks' : List Block} {first' : Nat} (h : Holds c first blocks)
    (hout : first + blocks.length ≤ first' ∨ first' + blocks'.length ≤ first) :
    Holds (replaced c first' blocks') first blocks := by
  intro i b hi
  have hlt : i < blocks.length := (List.getElem?_eq_some_iff.1 hi).1
  rw [replaced_outside (by omega)]
  exact h i b hi

theorem Holds.congr {c' : Nat → Block} (h : Holds c first blocks)
    (hc : ∀ n, first ≤ n → n < first + blocks.length → c' n = c n) : Holds c' first blocks := by
  intro i b hi
  have hlt : i < blocks.length := (List.getElem?_eq_some_iff.1 hi).1
  rw [hc _ (by omega) (by omega)]
  exact h i b hi

theorem Holds.map_range (h : Holds c first blocks) :
    (List.range blocks.length).map (fun i => c (first + i)) = blocks := by
  apply List.ext_getElem
  · simp
  · intro i _ hi
    rw [List.getElem_map, List.getElem_range]
    exact h i _ (List.getElem?_eq_getElem hi)

theorem fetch_ok (h : Shows d limit c) (hin : start.toNat + index < limit) :
    fetch d start index = .ok (c (start.toNat + index)) := by
  have hlimit := h.1
  have hnumber := blockNumber_ok (by omega : start.toNat + index < 2 ^ 64)
  simp only [fetch, hnumber, h.2 _ hin, liftM, monadLift, MonadLift.monadLift, bind, Except.bind,
    pure, Except.pure]

theorem fetchRun_ok (h : Shows d limit c) (hholds : Holds c start.toNat blocks) {count : Nat}
    (hcount : blocks.length = count) (hin : start.toNat + count ≤ limit) :
    fetchRun d start count = .ok blocks := by
  subst hcount
  have hall : ∀ i ∈ List.range blocks.length, fetch d start i = .ok (c (start.toNat + i)) := by
    intro i hi
    rw [List.mem_range] at hi
    exact fetch_ok h (by omega)
  rw [fetchRun, mapM_ok hall, hholds.map_range]

theorem readBlock_of_fetch {b : Block} (h : fetch d start index = .ok b) :
    ∃ n, blockNumber start index = .ok n ∧ readBlock d n = .ok b := by
  obtain ⟨n, hn, hread⟩ := Fallible.of_bind_ok h
  cases hnumber : blockNumber start index with
  | error t =>
    rw [hnumber] at hn
    cases hn
  | ok m =>
    rw [hnumber] at hn
    obtain rfl : m = n := Except.ok.inj hn
    refine ⟨m, rfl, ?_⟩
    cases hb : readBlock d m with
    | error e =>
      rw [hb] at hread
      cases hread
    | ok b' =>
      rw [hb] at hread
      exact congrArg Except.ok (Except.ok.inj hread)

theorem of_mapM_ok {ε α β : Type} {f : α → Fallible ε β} {as : List α} {bs : List β}
    (h : as.mapM f = .ok bs) : ∀ a ∈ as, ∃ b, f a = .ok b := by
  induction as generalizing bs with
  | nil => simp
  | cons a as ih =>
    rw [List.mapM_cons] at h
    obtain ⟨b, hb, hrest⟩ := Fallible.of_bind_ok h
    obtain ⟨bs', hbs', -⟩ := Fallible.of_bind_ok hrest
    simp only [List.mem_cons, forall_eq_or_imp]
    exact ⟨⟨b, hb⟩, ih hbs'⟩

theorem length_of_mapM_ok {ε α β : Type} {f : α → Fallible ε β} {as : List α} {bs : List β}
    (h : as.mapM f = .ok bs) : bs.length = as.length := by
  induction as generalizing bs with
  | nil =>
    obtain rfl := Except.ok.inj h
    rfl
  | cons a as ih =>
    rw [List.mapM_cons] at h
    obtain ⟨b, -, hrest⟩ := Fallible.of_bind_ok h
    obtain ⟨bs', hbs', hrest⟩ := Fallible.of_bind_ok hrest
    obtain rfl := Except.ok.inj hrest
    rw [List.length_cons, List.length_cons, ih hbs']

def Fetched (d : D) (start : UInt64) (count : Nat) : Prop :=
  ∀ i < count, ∃ b, fetch d start i = .ok b

theorem fetched_of_fetchRun {count : Nat} (h : fetchRun d start count = .ok blocks) :
    Fetched d start count :=
  fun i hi => of_mapM_ok h i (List.mem_range.2 hi)

theorem Fetched.readBlock {count : Nat} (h : Fetched d start count)
    (hlimit : start.toNat + count ≤ 2 ^ 64) (hn : start.toNat ≤ n) (hlt : n < start.toNat + count) :
    ∃ b, readBlock d n = .ok b := by
  obtain ⟨b, hb⟩ := h (n - start.toNat) (by omega)
  obtain ⟨m, hm, hread⟩ := readBlock_of_fetch hb
  rw [blockNumber_ok (by omega)] at hm
  obtain rfl : start.toNat + (n - start.toNat) = m := Except.ok.inj hm
  rw [Nat.add_sub_cancel' hn] at hread
  exact ⟨b, hread⟩

/-- A valid device of `count` blocks holds the contents. -/
def Contains [FaithfulDevice D] (count : Nat) (d : D) (c : Nat → Block) : Prop :=
  FaithfulDevice.Valid d ∧ blockCount d = count ∧ FaithfulDevice.held d = c

theorem tracks_contains [FaithfulDevice D] (count : Nat) :
    Tracks (Contains count : D → (Nat → Block) → Prop) := by
  rintro d _ n b d' ⟨hvalid, hcount, rfl⟩ hwrite
  obtain ⟨hvalid', hcount', hheld⟩ := FaithfulDevice.write_eq hvalid hwrite
  exact ⟨hvalid', hcount'.trans hcount, hheld⟩

theorem Contains.shows [FaithfulDevice D] {count : Nat} (h : Contains count d c)
    (hread : Readable d) (hcount : limit ≤ count) (hlimit : limit ≤ 2 ^ 64) : Shows d limit c := by
  obtain ⟨hvalid, rfl, rfl⟩ := h
  refine ⟨hlimit, fun n hn => ?_⟩
  obtain ⟨b, hb⟩ := hread n (by omega)
  rw [hb, FaithfulDevice.read_eq hvalid hb]

theorem not_refuses [ReliableDevice D] {count : Nat} (hcount : limit ≤ count) :
    ¬Refuses (Contains count : D → (Nat → Block) → Prop) limit := by
  rintro ⟨d, c, n, b, e, ⟨hvalid, hblocks, -⟩, hn, hwrite⟩
  obtain ⟨d', hok⟩ := ReliableDevice.write_ok b hvalid (show n < blockCount d by omega)
  rw [hok] at hwrite
  cases hwrite

/-- Every block can be read and written, also after any writes. -/
def Unfailing (d : D) : Prop :=
  ∀ d', Relation.ReflTransGen (fun d d' => ∃ n b, writeBlock d n b = .ok d') d d' →
    Readable d' ∧ ∀ n < blockCount d', ∀ b, ∃ d'', writeBlock d' n b = .ok d''

theorem Unfailing.readable (h : Unfailing d) : Readable d := (h d .refl).1

theorem Unfailing.write {d' : D} {b : Block} (h : Unfailing d)
    (hwrite : writeBlock d n b = .ok d') : Unfailing d' :=
  fun d'' hwrites => h d'' (.head ⟨n, b, hwrite⟩ hwrites)

/-- A valid device of `count` blocks, none of which it refuses, holds the contents. -/
def Maintains [FaithfulDevice D] (count : Nat) (d : D) (c : Nat → Block) : Prop :=
  Contains count d c ∧ Unfailing d

theorem tracks_maintains [FaithfulDevice D] (count : Nat) :
    Tracks (Maintains count : D → (Nat → Block) → Prop) := by
  rintro d c n b d' ⟨hcontains, hunfailing⟩ hwrite
  exact ⟨tracks_contains count hcontains hwrite, hunfailing.write hwrite⟩

theorem maintains_not_refuses [FaithfulDevice D] {count : Nat} (hcount : limit ≤ count) :
    ¬Refuses (Maintains count : D → (Nat → Block) → Prop) limit := by
  rintro ⟨d, c, n, b, e, ⟨⟨-, hblocks, -⟩, hunfailing⟩, hn, hwrite⟩
  obtain ⟨d', hok⟩ := (hunfailing d .refl).2 n (by omega) b
  rw [hok] at hwrite
  cases hwrite

theorem Maintains.readBlock [FaithfulDevice D] {count : Nat} (h : Maintains count d c)
    (hn : n < count) : readBlock d n = .ok (c n) := by
  obtain ⟨⟨hvalid, rfl, rfl⟩, hunfailing⟩ := h
  obtain ⟨b, hb⟩ := hunfailing.readable n hn
  rw [hb, FaithfulDevice.read_eq hvalid hb]

theorem unfailing_of_reliable [ReliableDevice D] (hvalid : FaithfulDevice.Valid d) :
    Unfailing d := by
  intro d' hwrites
  have hvalid' : FaithfulDevice.Valid d' := by
    induction hwrites with
    | refl => exact hvalid
    | tail _ hwrite ih =>
      obtain ⟨n, b, hwrite⟩ := hwrite
      exact (FaithfulDevice.write_eq ih hwrite).1
  exact ⟨fun n hn => ReliableDevice.read_ok hvalid' hn,
    fun n hn b => ReliableDevice.write_ok b hvalid' hn⟩

end BlockDevice

instance : ReliableDevice MemoryDisk where
  Valid _ := True
  held d n := d.blocks[n]?.getD .zero
  read_eq {d n b} _ h := by
    simp only [BlockDevice.readBlock] at h
    split at h
    · rename_i b' hb
      rw [hb, Option.getD_some]
      exact (Except.ok.inj h).symm
    · cases h
  write_eq {d d' n b} _ h := by
    simp only [BlockDevice.writeBlock] at h
    split at h
    · rename_i hn
      obtain rfl := Except.ok.inj h
      refine ⟨trivial, Array.size_set hn, ?_⟩
      funext m
      by_cases hm : m = n
      · subst hm
        simp [hn]
      · rw [Function.update_of_ne hm, Array.getElem?_set_ne hn (Ne.symm hm)]
    · cases h
  read_ok {d n} _ h := by
    obtain ⟨b, hb⟩ : ∃ b, d.blocks[n]? = some b := ⟨_, Array.getElem?_eq_getElem h⟩
    exact ⟨b, by simp only [BlockDevice.readBlock, hb]⟩
  write_ok {d n} b _ h := ⟨_, dif_pos h⟩

instance {D : Type} [BlockDevice D] [FaithfulDevice D] : FaithfulDevice (FaultyDisk D) where
  Valid d := FaithfulDevice.Valid d.disk
  held d := FaithfulDevice.held d.disk
  read_eq {d n b} hd h := by
    simp only [BlockDevice.readBlock] at h
    split at h
    · cases h
    · exact FaithfulDevice.read_eq hd h
  write_eq {d d' n b} hd h := by
    simp only [BlockDevice.writeBlock] at h
    split at h
    · cases h
    · cases hw : BlockDevice.writeBlock d.disk n b with
      | error e => simp [hw, Functor.map, Except.map] at h
      | ok disk =>
        simp only [hw, Functor.map, Except.map, Except.ok.injEq] at h
        obtain rfl := h
        exact FaithfulDevice.write_eq hd hw

theorem Image.resize_blocks {image : Image} (h : image.blocks.size = blocksFor image.size)
    {size : Nat} (hsize : image.size ≤ size) :
    (image.resize size).blocks.size = blocksFor (image.resize size).size ∧
      ∀ m : Nat, (image.resize size).blocks[m]?.getD .zero = image.blocks[m]?.getD .zero := by
  rw [resize, if_neg (Nat.not_lt.2 hsize)]
  refine ⟨Array.size_ofFn, fun m => ?_⟩
  rw [Array.getElem?_ofFn]
  split
  · rfl
  · rename_i hbehind
    have hle : image.blocks.size ≤ m := by
      rw [h]
      simp only [blocksFor, blockSize] at hbehind ⊢
      omega
    rw [Array.getElem?_eq_none hle]

theorem Image.resize_size (image : Image) (size : Nat) : (image.resize size).size = size := by
  unfold Image.resize
  split <;> rfl

theorem Image.writeBlock_blocks {image : Image} (h : image.blocks.size = blocksFor image.size)
    (n : Nat) (b : Block) :
    (image.writeBlock n b).blocks.size = blocksFor (image.writeBlock n b).size ∧
      ∀ m, (image.writeBlock n b).blocks[m]?.getD .zero =
        if m = n then b else image.blocks[m]?.getD .zero := by
  obtain ⟨grown, hwrite, hgrown, hkept, hn⟩ : ∃ grown : Image,
      image.writeBlock n b = { grown with blocks := grown.blocks.setIfInBounds n b } ∧
        grown.blocks.size = blocksFor grown.size ∧
        (∀ m : Nat, grown.blocks[m]?.getD .zero = image.blocks[m]?.getD .zero) ∧
        (n + 1) * blockSize ≤ grown.size := by
    refine ⟨_, rfl, ?_⟩
    split
    · rename_i hgrow
      obtain ⟨hblocks, hkept⟩ := resize_blocks h (Nat.le_of_lt hgrow)
      exact ⟨hblocks, hkept, Nat.le_of_eq (image.resize_size _).symm⟩
    · rename_i hgrow
      exact ⟨h, fun _ => rfl, Nat.not_lt.1 hgrow⟩
  have hlt : n < grown.blocks.size := by
    rw [hgrown]
    simp only [blocksFor, blockSize] at hn ⊢
    omega
  rw [hwrite]
  refine ⟨Array.size_setIfInBounds.trans hgrown, fun m => ?_⟩
  by_cases hm : m = n
  · subst hm
    rw [if_pos rfl, Array.getElem?_setIfInBounds_self_of_lt hlt, Option.getD_some]
  · rw [if_neg hm, Array.getElem?_setIfInBounds_ne (Ne.symm hm), hkept]

instance : FaithfulDevice ImageDisk where
  Valid d := d.image.blocks.size = blocksFor d.image.size
  held d n := d.image.blocks[n]?.getD .zero
  read_eq {d n b} _ h := by
    simp only [BlockDevice.readBlock, Image.readBlock] at h
    split at h
    · split at h
      · exact (Except.ok.inj h).symm
      · cases h
    · cases h
  write_eq {d d' n b} hd h := by
    simp only [BlockDevice.writeBlock] at h
    split at h
    · obtain rfl := Except.ok.inj h
      obtain ⟨hsize, hblocks⟩ := Image.writeBlock_blocks hd n b
      refine ⟨hsize, rfl, ?_⟩
      funext m
      rw [hblocks m, Function.update_apply]
    · cases h

end ExtentVolume
