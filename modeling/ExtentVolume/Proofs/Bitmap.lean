import ExtentVolume.Proofs.Outcome
import ExtentVolume.OpenInode

namespace ExtentVolume.Bitmap

/-- The bit of a number; behind the last bit there is none. -/
def used (b : Bitmap) (n : Nat) : Bool := b.bits[n]?.getD false

def PaddingClear (b : Bitmap) : Prop := ∀ n, b.total.toNat ≤ n → b.used n = false

structure Exact (b : Bitmap) : Prop where
  accounted : b.free.toNat + b.popcount = b.total.toNat
  padding : b.PaddingClear

/-- The bitmap `b'` is for the same numbers as `b`, and `p` says which of them it has in use. -/
structure Becomes (b : Bitmap) (p : Nat → Prop) (b' : Bitmap) : Prop where
  exact : b'.Exact
  reserved : b'.reserved = b.reserved
  total : b'.total = b.total
  start : b'.start = b.start
  used_iff : ∀ n, b'.used n = true ↔ p n

theorem Exact.becomes_self {b : Bitmap} (hb : b.Exact) : b.Becomes (fun n => b.used n = true) b :=
  ⟨hb, rfl, rfl, rfl, fun _ => Iff.rfl⟩

theorem Becomes.congr {b b' : Bitmap} {p q : Nat → Prop} (h : b.Becomes p b')
    (hpq : ∀ n, p n ↔ q n) : b.Becomes q b' :=
  ⟨h.exact, h.reserved, h.total, h.start, fun n => (h.used_iff n).trans (hpq n)⟩

theorem Becomes.trans {b b' b'' : Bitmap} {p q : Nat → Prop} (h : b.Becomes p b')
    (h' : b'.Becomes q b'') : b.Becomes q b'' :=
  ⟨h'.exact, h'.reserved.trans h.reserved, h'.total.trans h.total, h'.start.trans h.start,
    h'.used_iff⟩

theorem le_paddedBits (total : UInt32) : total.toNat ≤ paddedBits total := by
  unfold paddedBits
  omega

theorem toNat_ofNat_of_le (total : UInt32) {n : Nat} (h : n ≤ total.toNat) :
    (UInt32.ofNat n).toNat = n :=
  UInt32.toNat_ofNat_of_lt' (Nat.lt_of_le_of_lt h total.toNat_lt)

theorem lt_of_used {b : Bitmap} (hb : b.PaddingClear) {n : Nat} (h : b.used n = true) :
    n < b.total.toNat := by
  by_contra hn
  rw [hb n (by omega)] at h
  cases h

theorem isUsed_eq {b : Bitmap} {n : UInt32} (h : n.toNat < paddedBits b.total) :
    b.isUsed n = .ok (b.used n.toNat) := by
  simp [isUsed, used, h]

theorem isClear_iff {b : Bitmap} {n : Nat} :
    b.isClear n = true ↔ n < paddedBits b.total ∧ b.used n = false := by
  unfold isClear used
  by_cases h : n < paddedBits b.total
  · simp [h]
  · simp [h]

/-- How many bits behind the last number are set all the same. -/
def stray (b : Bitmap) : Nat :=
  (List.range (paddedBits b.total - b.total.toNat)).countP fun i => b.used (b.total.toNat + i)

theorem popcount_eq_countP (b : Bitmap) :
    b.popcount = (List.range (paddedBits b.total)).countP b.used := by
  have hbits : b.bits.toList = (List.range (paddedBits b.total)).map b.used := by
    apply List.ext_getElem
    · simp
    · intro n h _
      have hn : n < paddedBits b.total := by simpa using h
      simp [used, hn]
  have hid : ((fun x => x == true) ∘ b.used) = b.used := by
    funext n
    simp
  rw [popcount, hbits, List.count, List.countP_map, hid]

theorem popcount_eq_add_stray (b : Bitmap) :
    b.popcount = (List.range b.total.toNat).countP b.used + b.stray := by
  have hrange : List.range (paddedBits b.total) = List.range b.total.toNat ++
      (List.range (paddedBits b.total - b.total.toNat)).map (b.total.toNat + ·) := by
    rw [← List.range_add]
    congr 1
    have := le_paddedBits b.total
    omega
  rw [popcount_eq_countP, hrange, List.countP_append, List.countP_map]
  rfl

theorem PaddingClear.stray_eq {b : Bitmap} (hb : b.PaddingClear) : b.stray = 0 := by
  rw [stray, List.countP_eq_zero]
  intro i _
  simp [hb (b.total.toNat + i) (by omega)]

theorem popcount_eq {b : Bitmap} (hb : b.PaddingClear) :
    b.popcount = (List.range b.total.toNat).countP b.used := by
  rw [popcount_eq_add_stray, hb.stray_eq, Nat.add_zero]

theorem popcount_le {b : Bitmap} (hb : b.PaddingClear) : b.popcount ≤ b.total.toNat := by
  rw [popcount_eq hb]
  simpa using List.countP_le_length (p := b.used) (l := List.range b.total.toNat)

theorem Becomes.free_le {b b' : Bitmap} {p : Nat → Prop} (h : b.Becomes p b') (hb : b.Exact)
    (hp : ∀ n, p n → b.used n = true) : b.free.toNat ≤ b'.free.toNat := by
  have hcount : b'.popcount ≤ b.popcount := by
    rw [popcount_eq h.exact.padding, popcount_eq hb.padding, h.total]
    apply List.countP_mono_left
    intro n _ hn
    exact hp n ((h.used_iff n).1 hn)
  have hbefore := hb.accounted
  have hafter := h.exact.accounted
  rw [h.total] at hafter
  omega

theorem Becomes.free_add {b b' : Bitmap} {l : List Nat}
    (h : b.Becomes (fun n => b.used n = true ∧ n ∉ l) b') (hb : b.Exact) (hnodup : l.Nodup)
    (hused : ∀ n ∈ l, b.used n = true) : b'.free.toNat = b.free.toNat + l.length := by
  have hcount : b.popcount = b'.popcount + l.length := by
    rw [popcount_eq hb.padding, popcount_eq h.exact.padding, h.total, List.countP_eq_length_filter,
      List.countP_eq_length_filter, ← List.length_append]
    have hapart : ((List.range b.total.toNat).filter b'.used ++ l).Nodup := by
      refine List.nodup_append.2 ⟨List.nodup_range.filter _, hnodup, ?_⟩
      rintro n hn k hk rfl
      exact ((h.used_iff n).1 (List.mem_filter.1 hn).2).2 hk
    apply List.Perm.length_eq
    rw [List.perm_ext_iff_of_nodup (List.nodup_range.filter _) hapart]
    intro n
    rw [List.mem_append, List.mem_filter, List.mem_filter, h.used_iff]
    constructor
    · rintro ⟨hin, hn⟩
      by_cases hl : n ∈ l
      · exact .inr hl
      · exact .inl ⟨hin, hn, hl⟩
    · rintro (⟨hin, hn, -⟩ | hl)
      · exact ⟨hin, hn⟩
      · exact ⟨List.mem_range.2 (lt_of_used hb.padding (hused n hl)), hused n hl⟩
  have hbefore := hb.accounted
  have hafter := h.exact.accounted
  rw [h.total] at hafter
  omega

theorem Exact.exists_clear {b : Bitmap} (hb : b.Exact) (hfree : b.free ≠ 0) :
    ∃ n < b.total.toNat, b.used n = false := by
  by_contra hall
  push Not at hall
  have hcount : (List.range b.total.toNat).countP b.used = (List.range b.total.toNat).length := by
    rw [List.countP_eq_length]
    intro n hn
    simpa using hall n (List.mem_range.1 hn)
  have hacc := hb.accounted
  rw [popcount_eq hb.padding, hcount, List.length_range] at hacc
  apply hfree
  apply UInt32.toNat_inj.1
  simp only [UInt32.toNat_zero]
  omega

theorem Exact.free_ne_zero {b : Bitmap} (hb : b.Exact) {n : Nat} (hn : n < b.total.toNat)
    (hclear : b.used n = false) : b.free ≠ 0 := by
  intro hzero
  have hacc := hb.accounted
  rw [hzero, popcount_eq hb.padding, UInt32.toNat_zero, Nat.zero_add] at hacc
  have hall := List.countP_eq_length.1 (hacc.trans List.length_range.symm) n (List.mem_range.2 hn)
  rw [hclear] at hall
  cases hall

theorem popcount_set {b : Bitmap} {n : Nat} (h : n < paddedBits b.total) (v : Bool)
    (free : UInt32) :
    popcount { b with free, bits := b.bits.setIfInBounds n v } + (if b.used n then 1 else 0) =
      b.popcount + (if v then 1 else 0) := by
  have hlt : n < b.bits.toList.length := by simpa using h
  have hget : b.bits.toList[n] = b.used n := by simp [used, h]
  have hle : (if b.used n = true then 1 else 0) ≤ b.bits.toList.count true := by
    split
    · rename_i hu
      apply List.count_pos_iff.2
      rw [← hu, ← hget]
      exact List.getElem_mem hlt
    · exact Nat.zero_le _
  simp only [popcount, Vector.toList_setIfInBounds, List.count_set hlt, hget, beq_iff_eq]
  omega

theorem used_set (b : Bitmap) (k : Nat) (v : Bool) (free : UInt32) (n : Nat)
    (hk : k < paddedBits b.total) :
    used { b with free, bits := b.bits.setIfInBounds k v } n = if n = k then v else b.used n := by
  simp only [used, Vector.getElem?_setIfInBounds]
  by_cases h : k = n
  · subst h
    simp [hk]
  · simp [h, Ne.symm h]

theorem used_setRun (b : Bitmap) (start count : Nat) (free : UInt32)
    (h : start + count ≤ paddedBits b.total) (n : Nat) :
    used { b with free, bits := setRun b.bits start count } n =
      (b.used n || decide (start ≤ n ∧ n < start + count)) := by
  induction count generalizing free with
  | zero =>
    have hout : decide (start ≤ n ∧ n < start + 0) = false := decide_eq_false (by omega)
    rw [hout, Bool.or_false]
    rfl
  | succ count ih =>
    have hset := used_set { b with free, bits := setRun b.bits start count } (start + count) true free
      n (by simp only; omega)
    rw [ih free (by omega)] at hset
    apply hset.trans
    by_cases hn : n = start + count
    · have : start ≤ n ∧ n < start + (count + 1) := by omega
      simp [hn]
    · have : (start ≤ n ∧ n < start + (count + 1)) ↔ (start ≤ n ∧ n < start + count) := by omega
      simp [hn, this]

theorem popcount_setRun (b : Bitmap) (start count : Nat) (free : UInt32)
    (h : start + count ≤ paddedBits b.total) (hclear : ∀ n, start ≤ n → n < start + count →
      b.used n = false) :
    popcount { b with free, bits := setRun b.bits start count } = b.popcount + count := by
  induction count generalizing free with
  | zero => rfl
  | succ count ih =>
    have hset := popcount_set (b := { b with free, bits := setRun b.bits start count })
      (n := start + count) (by simp only; omega) true free
    rw [used_setRun b start count free (by omega), hclear _ (by omega) (by omega),
      ih free (by omega) (fun n h1 h2 => hclear n h1 (by omega))] at hset
    simpa [setRun, Nat.add_assoc] using hset

theorem Exact.setRun {b : Bitmap} (hb : b.Exact) (start : Nat) (length : UInt32)
    (hend : start + length.toNat ≤ b.total.toNat)
    (hclear : ∀ n, start ≤ n → n < start + length.toNat → b.used n = false) :
    difference32 b.free length = .ok (b.free - length) ∧
      b.Becomes (fun n => b.used n = true ∨ (start ≤ n ∧ n < start + length.toNat))
        { b with free := b.free - length, bits := setRun b.bits start length.toNat } := by
  have hpad := le_paddedBits b.total
  have hused : ∀ free n, used { b with free, bits := Bitmap.setRun b.bits start length.toNat } n =
      (b.used n || decide (start ≤ n ∧ n < start + length.toNat)) :=
    fun free n => used_setRun b _ _ free (by omega) n
  have hpadding : ∀ free,
      PaddingClear { b with free, bits := Bitmap.setRun b.bits start length.toNat } := by
    intro free n hn
    simp only at hn
    have hout : ¬(start ≤ n ∧ n < start + length.toNat) := by omega
    simp [hused, hb.padding n hn, hout]
  have hpop := fun free => popcount_setRun b _ _ free (by omega) hclear
  have hacc := hb.accounted
  have hle := popcount_le (hpadding b.free)
  rw [hpop] at hle
  have hfree : length ≤ b.free := by
    simp only at hle
    rw [UInt32.le_iff_toNat_le]
    omega
  refine ⟨if_pos hfree, ⟨?_, hpadding _⟩, rfl, rfl, rfl, fun n => by simp [hused]⟩
  rw [hpop, UInt32.toNat_sub_of_le _ _ hfree]
  rw [UInt32.le_iff_toNat_le] at hfree
  simp only
  omega

theorem Exact.markRun {b : Bitmap} (hb : b.Exact) {start length : UInt32}
    (hend : start.toNat + length.toNat ≤ b.total.toNat)
    (hclear : ∀ n, start.toNat ≤ n → n < start.toNat + length.toNat → b.used n = false) :
    ∃ b', b.markRun start length = .ok b' ∧
      b.Becomes
        (fun n => b.used n = true ∨ (start.toNat ≤ n ∧ n < start.toNat + length.toNat)) b' := by
  obtain ⟨hdiff, hbecomes⟩ := hb.setRun _ _ hend hclear
  refine ⟨_, ?_, hbecomes⟩
  have hpad := le_paddedBits b.total
  have htotal := b.total.toNat_lt
  have hword : word32 (start.toNat + length.toNat) = .ok (start + length) := by
    rw [word32_ok (by omega), UInt32.ofNat_add, UInt32.ofNat_toNat, UInt32.ofNat_toNat]
  have hin : ¬(start < start + length ∧ paddedBits b.total < (start + length).toNat) := by
    rw [UInt32.toNat_add]
    omega
  simp only [Bitmap.markRun, hword, hin, hdiff, bind, Except.bind, pure, Except.pure, if_false]

theorem Exact.release {b : Bitmap} (hb : b.Exact) {n : UInt32} (hres : b.reserved ≤ n.toNat)
    (hused : b.used n.toNat = true) :
    ∃ b', b.release n = .ok b' ∧ b.Becomes (fun k => b.used k = true ∧ k ≠ n.toNat) b' := by
  have hpad := le_paddedBits b.total
  have htotal := b.total.toNat_lt
  have hn := lt_of_used hb.padding hused
  have hacc := hb.accounted
  have hset := popcount_set (b := b) (n := n.toNat) (by omega) false (.ofNat (b.free.toNat + 1))
  simp only [hused, if_true, Bool.false_eq_true, if_false] at hset
  have hword : word32 (b.free.toNat + 1) = .ok (.ofNat (b.free.toNat + 1)) := word32_ok (by omega)
  have hin : ¬(n.toNat < b.reserved ∨ b.total ≤ n) := by
    rw [UInt32.le_iff_toNat_le]
    omega
  refine ⟨{ b with free := .ofNat (b.free.toNat + 1), bits := b.bits.setIfInBounds n.toNat false },
    ?_, ?_⟩
  · simp [Bitmap.release, hin, hword, bind, Except.bind, pure, Except.pure]
  · refine ⟨⟨?_, ?_⟩, rfl, rfl, rfl, ?_⟩
    · simp only
      rw [toNat_ofNat_of_le b.total (by omega)]
      omega
    · intro k hk
      rw [used_set b n.toNat false _ k (by omega)]
      split
      · rfl
      · exact hb.padding k hk
    · intro k
      rw [used_set b n.toNat false _ k (by omega)]
      by_cases hk : k = n.toNat <;> simp [hk]

theorem used_release {b b' : Bitmap} {n : UInt32} (h : b.release n = .ok b') :
    b' = b ∨ ∀ k, b'.used k = if k = n.toNat then false else b.used k := by
  unfold Bitmap.release at h
  split at h
  · exact .inl (Except.ok.inj h).symm
  · rename_i hin
    have hpad := le_paddedBits b.total
    have hn : n.toNat < paddedBits b.total := by
      rw [not_or, UInt32.le_iff_toNat_le] at hin
      omega
    cases hfree : word32 (b.free.toNat + 1) with
    | error t =>
      rw [hfree] at h
      cases h
    | ok free =>
      rw [hfree] at h
      obtain rfl := Except.ok.inj h
      exact .inr fun k => used_set b n.toNat false free k hn

theorem used_of_release {b b' : Bitmap} {n : UInt32} (h : b.release n = .ok b') {k : Nat}
    (hk : b'.used k = true) : b.used k = true := by
  obtain rfl | hused := used_release h
  · exact hk
  · rw [hused] at hk
    split at hk
    · cases hk
    · exact hk

theorem used_release_ne {b b' : Bitmap} {n : UInt32} (h : b.release n = .ok b') {k : Nat}
    (hk : k ≠ n.toNat) : b'.used k = b.used k := by
  obtain rfl | hused := used_release h
  · rfl
  · rw [hused, if_neg hk]

theorem used_of_releaseRun {b b' : Bitmap} {start count : Nat}
    (h : b.releaseRun start count = .ok b') {k : Nat} (hk : b'.used k = true) : b.used k = true := by
  induction count generalizing b' with
  | zero =>
    obtain rfl := Except.ok.inj h
    exact hk
  | succ count ih =>
    rw [Bitmap.releaseRun] at h
    cases hrun : b.releaseRun start count with
    | error t =>
      rw [hrun] at h
      cases h
    | ok c =>
      rw [hrun] at h
      exact ih hrun (used_of_release h hk)

theorem Exact.releaseRun {b : Bitmap} (hb : b.Exact) (start count : Nat) (hres : b.reserved = 0)
    (hused : ∀ n, start ≤ n → n < start + count → b.used n = true) :
    ∃ b', b.releaseRun start count = .ok b' ∧
      b.Becomes (fun n => b.used n = true ∧ ¬(start ≤ n ∧ n < start + count)) b' := by
  induction count with
  | zero =>
    refine ⟨b, rfl, hb.becomes_self.congr fun n => ?_⟩
    simp
  | succ count ih =>
    obtain ⟨c, hc, hbc⟩ := ih (fun n h1 h2 => hused n h1 (by omega))
    have hlast := hused (start + count) (by omega) (by omega)
    have hlt := lt_of_used hb.padding hlast
    have hnat : (UInt32.ofNat (start + count)).toNat = start + count :=
      toNat_ofNat_of_le b.total (Nat.le_of_lt hlt)
    have hin : c.used (start + count) = true := (hbc.used_iff _).2 ⟨hlast, by omega⟩
    obtain ⟨d, hd, hcd⟩ := hbc.exact.release (n := .ofNat (start + count))
      (by rw [hbc.reserved, hres]; exact Nat.zero_le _) (by rw [hnat]; exact hin)
    refine ⟨d, ?_, (hbc.trans hcd).congr fun n => ?_⟩
    · simp only [Bitmap.releaseRun, hc, hd, bind, Except.bind]
    · rw [hbc.used_iff, hnat]
      constructor
      · rintro ⟨⟨hu, hout⟩, hne⟩
        exact ⟨hu, by omega⟩
      · rintro ⟨hu, hout⟩
        exact ⟨⟨hu, by omega⟩, by omega⟩

theorem used_fresh (reserved : Nat) (total : UInt32) (start : UInt64) (n : Nat) :
    (fresh reserved total start).used n = decide (n < reserved ∧ n < total.toNat) := by
  have hpad := le_paddedBits total
  unfold used fresh
  by_cases hn : n < paddedBits total
  · simp [hn]
  · have hout : ¬(n < reserved ∧ n < total.toNat) := by omega
    rw [Vector.getElem?_eq_none (Nat.le_of_not_lt hn), decide_eq_false hout]
    rfl

theorem countP_range_lt (reserved total : Nat) :
    (List.range total).countP (fun n => decide (n < reserved)) = min reserved total := by
  induction total with
  | zero => simp
  | succ total ih =>
    rw [List.range_succ, List.countP_append, ih, List.countP_singleton]
    by_cases h : total < reserved
    · rw [decide_eq_true h, if_pos rfl]
      omega
    · rw [decide_eq_false h, if_neg (by decide)]
      omega

theorem exact_fresh (reserved : Nat) (total : UInt32) (start : UInt64) :
    (fresh reserved total start).Exact := by
  have hpadding : (fresh reserved total start).PaddingClear := by
    intro n hn
    rw [used_fresh]
    exact decide_eq_false fun h => Nat.not_lt.2 hn h.2
  refine ⟨?_, hpadding⟩
  have hcount : (List.range total.toNat).countP (fresh reserved total start).used =
      (List.range total.toNat).countP (fun n => decide (n < reserved)) := by
    apply List.countP_congr
    intro n hn
    rw [used_fresh, decide_eq_true_iff, decide_eq_true_iff]
    exact and_iff_left (List.mem_range.1 hn)
  have hfree : (fresh reserved total start).free.toNat = total.toNat - reserved :=
    toNat_ofNat_of_le total (Nat.sub_le _ _)
  rw [popcount_eq hpadding, hfree]
  change _ + (List.range total.toNat).countP _ = total.toNat
  rw [hcount, countP_range_lt]
  omega

theorem firstFrom_eq (p : Nat → Bool) (start count : Nat) :
    firstFrom p start count = (List.range' start count).find? p := by
  induction count generalizing start with
  | zero => rfl
  | succ count ih =>
    rw [firstFrom, List.range'_succ, List.find?_cons, ih]
    cases p start <;> rfl

theorem firstFrom_some {p : Nat → Bool} {start count n : Nat} (h : firstFrom p start count = some n) :
    start ≤ n ∧ n < start + count ∧ p n = true ∧ ∀ k, start ≤ k → k < n → p k = false := by
  induction count generalizing start with
  | zero => simp [firstFrom] at h
  | succ count ih =>
    rw [firstFrom] at h
    split at h
    · obtain rfl := Option.some.inj h
      exact ⟨Nat.le_refl _, by omega, by assumption, fun k h1 h2 => by omega⟩
    · rename_i hstart
      obtain ⟨h1, h2, h3, h4⟩ := ih h
      refine ⟨by omega, by omega, h3, fun k hk hkn => ?_⟩
      by_cases hks : k = start
      · exact hks ▸ Bool.eq_false_iff.2 hstart
      · exact h4 k (by omega) hkn

theorem firstFrom_none {p : Nat → Bool} {start count : Nat} (h : firstFrom p start count = none)
    {k : Nat} (hstart : start ≤ k) (hend : k < start + count) : p k = false := by
  induction count generalizing start with
  | zero => omega
  | succ count ih =>
    rw [firstFrom] at h
    split at h
    · cases h
    · rename_i hp
      by_cases hks : k = start
      · exact hks ▸ Bool.eq_false_iff.2 hp
      · exact ih h (by omega) (by omega)

theorem used_of_not_clear {b : Bitmap} {k : Nat} (hk : k < b.total.toNat) (h : b.isClear k = false) :
    b.used k = true := by
  have hpad := le_paddedBits b.total
  by_contra hu
  rw [isClear_iff.2 ⟨by omega, by simpa using hu⟩] at h
  cases h

theorem Exact.take {b : Bitmap} (hb : b.Exact) :
    (b.take = .ok none ∧ ∀ k, b.reserved ≤ k → k < b.total.toNat → b.used k = true) ∨
      ∃ n b', b.take = .ok (some (n, b')) ∧ b.reserved ≤ n.toNat ∧
        n < b.total ∧ b.used n.toNat = false ∧
        b.Becomes (fun k => b.used k = true ∨ k = n.toNat) b' ∧
        ∀ k, b.reserved ≤ k → k < n.toNat → b.used k = true := by
  cases hl : b.lowestFree? with
  | none =>
    left
    refine ⟨by simp [Bitmap.take, hl, pure, Except.pure], fun k hres hk => ?_⟩
    exact used_of_not_clear hk (firstFrom_none hl hres (by omega))
  | some n =>
    right
    obtain ⟨hres, hn, hclear, hbelow⟩ := firstFrom_some hl
    rw [isClear_iff] at hclear
    have hnat : (UInt32.ofNat n).toNat = n := toNat_ofNat_of_le b.total (by omega)
    have hone : (1 : UInt32).toNat = 1 := rfl
    have honly : ∀ k, n ≤ k ∧ k < n + 1 ↔ k = n := fun k => by omega
    obtain ⟨hdiff, hbecomes⟩ := hb.setRun n 1 (by rw [hone]; omega) (by
      intro k h1 h2
      rw [hone] at h2
      rw [(honly k).1 ⟨h1, h2⟩]
      exact hclear.2)
    have htake : b.take = .ok (some (.ofNat n, { b with
        free := b.free - 1, bits := Bitmap.setRun b.bits n (1 : UInt32).toNat })) := by
      simp only [Bitmap.take, hl, hdiff, bind, Except.bind, pure, Except.pure]
      rfl
    refine ⟨.ofNat n, _, htake, by omega, ?_, by rw [hnat]; exact hclear.2, ?_, fun k hk hkn => ?_⟩
    · rw [UInt32.lt_iff_toNat_lt, hnat]
      omega
    · refine hbecomes.congr fun k => ?_
      rw [hone, honly, hnat]
    · rw [hnat] at hkn
      exact used_of_not_clear (by omega) (hbelow k hk hkn)

theorem firstRunFrom_some {p : Nat → Bool} {length start count run s : Nat} (hrun : run < length)
    (hstart : run ≤ start) (hp : ∀ n, start - run ≤ n → n < start → p n = true)
    (h : firstRunFrom p length start count run = some s) :
    s + length ≤ start + count ∧ ∀ n, s ≤ n → n < s + length → p n = true := by
  induction count generalizing start run with
  | zero => simp [firstRunFrom] at h
  | succ count ih =>
    rw [firstRunFrom] at h
    have hsnoc : p start = true → ∀ n, start - run ≤ n → n < start + 1 → p n = true := by
      intro hps n h1 h2
      by_cases hn : n = start
      · rw [hn]
        exact hps
      · exact hp n h1 (by omega)
    split at h
    · rename_i hps
      split at h
      · obtain rfl := Option.some.inj h
        exact ⟨by omega, fun n h1 h2 => hsnoc hps n (by omega) (by omega)⟩
      · obtain ⟨h1, h2⟩ := ih (by omega : run + 1 < length) (by omega)
          (fun n h1 h2 => hsnoc hps n (by omega) h2) h
        exact ⟨by omega, h2⟩
    · obtain ⟨h1, h2⟩ := ih (by omega : 0 < length) (by omega) (fun n _ _ => by omega) h
      exact ⟨by omega, h2⟩

theorem firstRunFrom_le {p : Nat → Bool} {length start count run s : Nat} (hrun : run < length)
    (hstart : run ≤ start) (hs : start - run ≤ s) (hend : s + length ≤ start + count)
    (hp : ∀ n, s ≤ n → n < s + length → p n = true) :
    ∃ s' ≤ s, firstRunFrom p length start count run = some s' := by
  induction count generalizing start run with
  | zero => omega
  | succ count ih =>
    rw [firstRunFrom]
    split
    · split
      · exact ⟨start + 1 - length, by omega, rfl⟩
      · exact ih (by omega) (by omega) (by omega) (by omega)
    · rename_i hclear
      have hbehind : start < s := by
        by_contra hle
        exact hclear (hp start (by omega) (by omega))
      exact ih (by omega) (by omega) (by omega) (by omega)

/-- So many numbers from a start on are below the total and free. -/
structure ClearRun (b : Bitmap) (length start : Nat) : Prop where
  inside : start + length ≤ b.total.toNat
  clear : ∀ n, start ≤ n → n < start + length → b.used n = false

theorem findRun_some {b : Bitmap} {length start : UInt32} (h : b.findRun length = some start) :
    0 < length.toNat ∧ b.ClearRun length.toNat start.toNat := by
  have hne := findRun_length_ne_zero h
  have hpos : 0 < length.toNat := UInt32.lt_iff_toNat_lt.1 (UInt32.pos_iff_ne_zero.2 hne)
  simp only [findRun, hne, if_false] at h
  obtain ⟨s, hs, rfl⟩ := Option.map_eq_some_iff.1 h
  obtain ⟨hend, hclear⟩ := firstRunFrom_some hpos (by omega) (fun n _ _ => by omega) hs
  have hnat : (UInt32.ofNat s).toNat = s := toNat_ofNat_of_le b.total (by omega)
  rw [hnat]
  exact ⟨hpos, by omega, fun n h1 h2 => (isClear_iff.1 (hclear n h1 h2)).2⟩

/-- Where there is a run, one is found that does not start behind it. -/
theorem ClearRun.findRun {b : Bitmap} {length : UInt32} {s : Nat} (h : b.ClearRun length.toNat s)
    (hne : length ≠ 0) : ∃ start, b.findRun length = some start ∧ start.toNat ≤ s := by
  have hpos : 0 < length.toNat := UInt32.lt_iff_toNat_lt.1 (UInt32.pos_iff_ne_zero.2 hne)
  have hpad := le_paddedBits b.total
  have hinside := h.inside
  have hclear : ∀ n, s ≤ n → n < s + length.toNat → b.isClear n = true :=
    fun n h1 h2 => isClear_iff.2 ⟨by omega, h.clear n h1 h2⟩
  obtain ⟨s', hle, hs'⟩ : ∃ s' ≤ s, firstRunFrom b.isClear length.toNat 0 b.total.toNat 0 = some s' :=
    firstRunFrom_le hpos (Nat.le_refl 0) (Nat.zero_le s) (by omega) hclear
  have hnat : (UInt32.ofNat s').toNat = s' := toNat_ofNat_of_le b.total (by omega)
  refine ⟨.ofNat s', ?_, by omega⟩
  simp only [Bitmap.findRun, hne, if_false, hs']
  rfl

theorem findRun_one {b : Bitmap} {n : Nat} (hn : n < b.total.toNat) (hclear : b.used n = false) :
    ∃ start, b.findRun 1 = some start := by
  have hrun : b.ClearRun (1 : UInt32).toNat n := by
    refine ⟨hn, fun k h1 h2 => ?_⟩
    obtain rfl : k = n := Nat.le_antisymm (Nat.le_of_lt_succ h2) h1
    exact hclear
  obtain ⟨start, hstart, -⟩ := hrun.findRun (by decide)
  exact ⟨start, hstart⟩

theorem Exact.findRun_one_eq_none_iff {b : Bitmap} (hb : b.Exact) :
    b.findRun 1 = none ↔ b.free = 0 := by
  constructor
  · intro hnone
    by_contra hfree
    obtain ⟨n, hn, hclear⟩ := hb.exists_clear hfree
    obtain ⟨start, hstart⟩ := findRun_one hn hclear
    rw [hnone] at hstart
    cases hstart
  · intro hfree
    cases hrun : b.findRun 1 with
    | none => rfl
    | some start =>
      have hone : (1 : UInt32).toNat = 1 := rfl
      obtain ⟨-, hend, hclear⟩ := findRun_some hrun
      rw [hone] at hend hclear
      exact absurd hfree (hb.free_ne_zero (by omega) (hclear start.toNat (by omega) (by omega)))

theorem free_markRun {b b' : Bitmap} {start length : UInt32}
    (h : b.markRun start length = .ok b') : b'.free.toNat + length.toNat = b.free.toNat := by
  unfold markRun at h
  cases hstop : word32 (start.toNat + length.toNat) with
  | error t => simp [hstop, bind, Except.bind] at h
  | ok stop =>
    by_cases hout : start < stop ∧ paddedBits b.total < stop.toNat
    · simp [hstop, hout, bind, Except.bind, throw, throwThe, MonadExceptOf.throw] at h
    · by_cases hle : length ≤ b.free
      · simp only [hstop, hout, bind, Except.bind, difference32, hle, if_true, if_false, pure,
          Except.pure, Except.ok.injEq] at h
        subst h
        have hsub := UInt32.toNat_sub_of_le _ _ hle
        have hnat := UInt32.le_iff_toNat_le.1 hle
        simp only
        omega
      · simp [hstop, hout, bind, Except.bind, difference32, hle] at h

end ExtentVolume.Bitmap
