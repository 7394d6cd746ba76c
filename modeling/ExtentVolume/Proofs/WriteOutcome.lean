import ExtentVolume.Proofs.Format
import ExtentVolume.Proofs.Requests

namespace ExtentVolume

namespace OpenInode

def room (w : OpenInode) : Nat := min (4 - w.node.extents.inUse.length) w.blocks.free.toNat

/-- Where the extents end with all the blocks that can be added. -/
def reach (w : OpenInode) : Nat := w.node.extents.capacity + blockSize * w.room

/-- How many blocks the extents are short of an end. -/
def missing (w : OpenInode) (limit : Nat) : Nat :=
  (limit - w.node.extents.capacity + (blockSize - 1)) / blockSize

/-- What refuses a block when no more can be added: space is looked for before a slot. -/
def shortage (w : OpenInode) : VolumeError :=
  if w.room = w.blocks.free.toNat then .noSpace else .noExtentSlots

/-- So many extents of one block were added behind those in use. -/
structure Gains (w : OpenInode) (count : Nat) (w' : OpenInode) : Prop where
  added : ∃ added : List Extent, added.length = count ∧ (∀ e ∈ added, e.count = 1) ∧
    w'.node.extents.inUse = w.node.extents.inUse ++ added
  free : w'.blocks.free.toNat + count = w.blocks.free.toNat

inductive Ends (w : OpenInode) (offset length : Nat) :
    (written : Nat) → Option (Stop VolumeError) → OpenInode → Prop where
  | complete {w' : OpenInode} (hle : offset + length ≤ w.reach)
      (h : w.Gains (w.missing (offset + length)) w') : Ends w offset length length none w'
  | short {w' : OpenInode} (hlt : w.reach < offset + length) (h : w.Gains w.room w') :
      Ends w offset length (w.reach - offset) (some (.failure w.shortage)) w'

variable {foreign : Nat → Prop} {w w₁ w' : OpenInode} {offset length written here m n : Nat}
  {stopped : Option (Stop VolumeError)} {bytes : List UInt8}

theorem Gains.refl (w : OpenInode) : w.Gains 0 w :=
  ⟨⟨[], rfl, by simp, (List.append_nil _).symm⟩, rfl⟩

theorem Gains.trans (h : w.Gains m w₁) (h' : w₁.Gains n w') : w.Gains (m + n) w' := by
  obtain ⟨⟨added, rfl, hone, hinUse⟩, hfree⟩ := h
  obtain ⟨⟨more, rfl, hone', hinUse'⟩, hfree'⟩ := h'
  refine ⟨⟨added ++ more, List.length_append, fun e he => ?_, ?_⟩, by omega⟩
  · exact (List.mem_append.1 he).elim (hone e) (hone' e)
  · rw [hinUse', hinUse, List.append_assoc]

theorem length_blockNumbers_singles {extents : List Extent} (h : ∀ e ∈ extents, e.count = 1) :
    (blockNumbers extents).length = extents.length := by
  induction extents with
  | nil => rfl
  | cons e rest ih =>
    rw [blockNumbers_cons, List.length_append, List.length_range', h e List.mem_cons_self,
      ih fun e' he' => h e' (List.mem_cons_of_mem e he'), List.length_cons, Nat.add_comm]
    rfl

theorem Gains.capacity (h : w.Gains n w') :
    w'.node.extents.capacity = w.node.extents.capacity + blockSize * n := by
  obtain ⟨added, rfl, hone, hinUse⟩ := h.added
  rw [ExtentMap.capacity_eq, ExtentMap.capacity_eq, ExtentMap.blockNumbers, hinUse,
    blockNumbers_append, List.length_append, length_blockNumbers_singles hone, Nat.add_mul,
    Nat.mul_comm added.length]
  rfl

theorem Gains.length_inUse (h : w.Gains n w') :
    w'.node.extents.inUse.length = w.node.extents.inUse.length + n := by
  obtain ⟨added, rfl, -, hinUse⟩ := h.added
  rw [hinUse, List.length_append]

theorem Gains.room (h : w.Gains n w') : w'.room + n = w.room := by
  have hlength := h.length_inUse
  have hfree := h.free
  have hslots := w'.node.extents.length_inUse_le
  rw [OpenInode.room, OpenInode.room]
  omega

theorem Gains.reach (h : w.Gains n w') : w'.reach = w.reach := by
  rw [OpenInode.reach, OpenInode.reach, h.capacity, ← h.room, Nat.mul_add]
  omega

theorem Gains.shortage (h : w.Gains n w') : w'.shortage = w.shortage := by
  have hroom := h.room
  have hfree := h.free
  have hiff : w'.room = w'.blocks.free.toNat ↔ w.room = w.blocks.free.toNat := by omega
  rw [OpenInode.shortage, OpenInode.shortage]
  simp only [hiff]

theorem Gains.missing (h : w.Gains 1 w') {limit : Nat} (hlimit : w.node.extents.capacity < limit) :
    1 + w'.missing limit = w.missing limit := by
  rw [OpenInode.missing, OpenInode.missing, h.capacity]
  simp only [blockSize]
  omega

theorem Gains.ends (h : w.Gains 1 w₁) (hlimit : w.node.extents.capacity < offset + length)
    (hends : Ends w₁ offset length written stopped w') :
    Ends w offset length written stopped w' := by
  cases hends with
  | complete hle hmore =>
    have hall := h.trans hmore
    rw [h.missing hlimit] at hall
    exact .complete (h.reach ▸ hle) hall
  | short hlt hmore =>
    have hall := h.trans hmore
    rw [Nat.add_comm, h.room] at hall
    rw [h.reach, h.shortage]
    exact .short (h.reach ▸ hlt) hall

theorem Ends.prepend (hends : Ends w₁ (offset + here) (length - here) written stopped w')
    (hextents : w₁.node.extents = w.node.extents) (hblocks : w₁.blocks = w.blocks)
    (hhere : here ≤ length) (hreach : offset + here ≤ w.reach) :
    Ends w offset length (here + written) stopped w' := by
  have hgains : w.Gains 0 w₁ :=
    ⟨⟨[], rfl, by simp, by rw [hextents, List.append_nil]⟩, by rw [hblocks]; rfl⟩
  have hlimit : offset + here + (length - here) = offset + length := by omega
  cases hends with
  | complete hle hmore =>
    have hall := hgains.trans hmore
    rw [hlimit] at hle hall
    rw [missing, hextents, Nat.zero_add] at hall
    rw [Nat.add_sub_cancel' hhere]
    exact .complete (hgains.reach ▸ hle) hall
  | short hlt hmore =>
    have hall := hgains.trans hmore
    rw [Nat.add_comm, hgains.room] at hall
    rw [hlimit] at hlt
    have hwritten : here + (w₁.reach - (offset + here)) = w.reach - offset := by
      rw [hgains.reach]
      omega
    rw [hwritten, hgains.shortage]
    exact .short (hgains.reach ▸ hlt) hall

theorem capacity_le_of_locate (h : w.node.extents.locate offset = none) :
    w.node.extents.capacity ≤ offset := by
  rw [ExtentMap.capacity_eq]
  exact locate_eq_none_iff.1 h

theorem Owns.gains_block (h : w.Owns foreign) (hpacked : w.node.extents.Packed) {e : Extent}
    (ha : addExtent 1 w = .ok e w') : w.Gains 1 w' := by
  obtain ⟨node, blocks, halloc, rfl⟩ := (addExtent_ensures h 1).of_ok ha
  obtain ⟨hinUse, -⟩ := (h.blocks.grown halloc).1.pushed.packed hpacked
  refine ⟨⟨[e], rfl, ?_, hinUse⟩, (h.blocks.room_of_block halloc).2.2⟩
  rintro _ he
  obtain rfl := List.mem_singleton.1 he
  exact (Inode.of_allocateExtent halloc).2.1

theorem Owns.room_of_refused (h : w.Owns foreign) {stop : Stop VolumeError}
    (ha : addExtent 1 w = .error stop w') :
    w' = w ∧ w.room = 0 ∧ stop = .failure w.shortage := by
  obtain ⟨⟨e, rfl⟩, rfl⟩ := h.addExtent_error ha
  refine ⟨rfl, ?_⟩
  rw [shortage, room]
  obtain ⟨rfl, hfree⟩ | ⟨rfl, hfree, hfull⟩ := h.blocks.block_refused
    ((addExtent_ensures h 1).of_failure ha).2
  · rw [hfree]
    simp
  · have hpos : w'.blocks.free.toNat ≠ 0 := fun h0 => hfree (UInt32.toNat_inj.1 h0)
    rw [hfull]
    simp [Ne.symm hpos]

theorem capacity_le_reach (w : OpenInode) : w.node.extents.capacity ≤ w.reach :=
  Nat.le_add_right _ _

theorem copy_ends (h : w.Owns foreign) (hw : w.Sound) (offset : Nat) (bytes : List UInt8)
    (hempty : bytes = [] → offset ≤ w.node.extents.capacity) :
    Ends w offset bytes.length (w.copy offset bytes).written (w.copy offset bytes).stopped
      (w.copy offset bytes).inode := by
  fun_induction copy w offset bytes with
  | case1 w offset bytes hnil =>
    obtain rfl : bytes = [] := by simpa using hnil
    have hle := hempty rfl
    have hmissing : w.missing (offset + 0) = 0 := by
      rw [missing, Nat.add_zero, Nat.sub_eq_zero_of_le hle]
      rfl
    exact .complete (Nat.le_trans hle w.capacity_le_reach) (hmissing ▸ .refl w)
  | case2 w offset bytes hne hm e w' ha ih =>
    -- one block less is missing, and the reach is the same
    have hstep := (addExtent_steps h 1).of_ok ha
    have hpos : 0 < bytes.length := List.length_pos_iff.2 (by simpa using hne)
    have hcapacity := capacity_le_of_locate hm
    exact (h.gains_block hw.packed ha).ends (by omega)
      (ih (hstep.keeps h).owns (hstep.sound h hw) fun hnil => absurd hnil (by simpa using hne))
  | case3 w offset bytes hne hm stop w' ha =>
    obtain ⟨rfl, hroom, rfl⟩ := h.room_of_refused ha
    have hpos : 0 < bytes.length := List.length_pos_iff.2 (by simpa using hne)
    have hcapacity := capacity_le_of_locate hm
    have hreach : w'.reach = w'.node.extents.capacity := by rw [reach, hroom]; rfl
    have hnone : w'.reach - offset = 0 := by omega
    have hends : Ends w' offset bytes.length (w'.reach - offset) (some (.failure w'.shortage)) w' :=
      .short (by omega) (hroom ▸ .refl w')
    rwa [hnone] at hends
  | case4 w offset bytes hne m hm here stop hwrite =>
    obtain ⟨hok, -⟩ := h.write_piece hm (by simpa using hne)
    rw [hok] at hwrite
    cases hwrite
  | case5 w offset bytes hne m hm here data hwrite size rest ih =>
    obtain ⟨hok, hpos, haddr⟩ := h.write_piece hm (by simpa using hne)
    obtain rfl := Except.ok.inj (hok.symm.trans hwrite)
    have hstep := Step.put hpos haddr
    have hhere : here ≤ bytes.length := Nat.min_le_left _ _
    have hlen : (bytes.take here).length = here := by
      rw [List.length_take]
      exact Nat.min_eq_left hhere
    rw [hlen] at hstep hpos haddr
    have hcapacity : offset + here ≤ w.node.extents.capacity := by
      have hlast := addressAt_lt (haddr (here - 1) (by omega))
      rw [ExtentMap.capacity_eq, ExtentMap.blockNumbers]
      omega
    have hrest := ih (hstep.keeps h).owns (hstep.sound h hw) fun _ => hcapacity
    rw [List.length_drop] at hrest
    exact hrest.prepend rfl rfl hhere (Nat.le_trans hcapacity w.capacity_le_reach)

theorem Gains.touch (h : w.Gains n w') (now : Int64) : w.Gains n (w'.touch now) :=
  ⟨h.added, h.free⟩

theorem Ends.touch (h : Ends w offset length written stopped w') (now : Int64) :
    Ends w offset length written stopped (w'.touch now) := by
  cases h with
  | complete hle h => exact .complete hle (h.touch now)
  | short hlt h => exact .short hlt (h.touch now)

theorem ensureExtent_of_ne (h : w.Owns foreign) (hne : w.node.extents.inUse ≠ []) :
    ensureExtent w = .ok () w := by
  have hcount : w.node.extents.stated.toNat = w.node.extents.inUse.length := h.blocks.counted
  have hstated : w.node.extents.isEmpty = false := by
    rw [ExtentMap.isEmpty, beq_eq_false_iff_ne]
    intro hzero
    rw [hzero] at hcount
    exact hne (List.length_eq_zero_iff.1 hcount.symm)
  change (ensureExtent.run w) = _
  simp [ensureExtent, hstated]

theorem write_ends (h : w.Owns foreign) (hw : w.Sound) (hne : w.node.extents.inUse ≠ [])
    (hbytes : bytes ≠ []) (now : Int64) (offset : Nat) :
    Action.Ensures (write now offset bytes) w
      (fun written w' => Ends w offset bytes.length written none w')
      (fun e w' => Ends w offset bytes.length e.written (some (.failure e.error)) w') False := by
  have hends := copy_ends h hw offset bytes fun hnil => absurd hnil hbytes
  unfold write
  simp only [Action.ensures_bind, Action.ensures_restate,
    Action.ensures_of_ok (ensureExtent_of_ne h hne), Action.ensures_get, Action.ensures_set]
  generalize w.copy offset bytes = copied at hends
  obtain ⟨w', written, stopped⟩ := copied
  have hall : Ends w offset bytes.length written stopped
      (if written = 0 then w' else w'.touch now) := by
    split
    · exact hends
    · exact hends.touch now
  cases stopped with
  | none => exact hall
  | some stop =>
    cases stop with
    | failure e => exact hall
    | trap t => nomatch hends

theorem write_nil (h : w.Owns foreign) (hne : w.node.extents.inUse ≠ []) (now : Int64)
    (offset : Nat) :
    Action.Ensures (write now offset []) w (fun written w' => written = 0 ∧ w' = w)
      (fun _ _ => False) False := by
  unfold write
  simp only [Action.ensures_bind, Action.ensures_restate,
    Action.ensures_of_ok (ensureExtent_of_ne h hne), Action.ensures_get, Action.ensures_set]
  rw [copy]
  exact ⟨rfl, rfl⟩

end OpenInode

theorem OpenInode.Step.inUse_ne_nil {foreign : Nat → Prop} {w w' : OpenInode}
    (hstep : OpenInode.Step w w') (h : w.Owns foreign) (hne : w.node.extents.inUse ≠ []) :
    w'.node.extents.inUse ≠ [] := by
  cases hstep with
  | grow ha =>
    have hlength := (h.blocks.grown ha).1.pushed.perm.length_eq
    rw [List.length_cons] at hlength
    exact List.ne_nil_of_length_eq_add_one hlength
  | put => exact hne
  | wipe => exact hne
  | touch => exact hne

namespace Volume

def Stocked (v : Volume) : Prop := ∀ n node, v.live? n = some node → node.extents.inUse ≠ []

variable {v v' : Volume} {n : UInt32} {node : Inode}

theorem Step.stocked (hstep : Step n v v') (h : v.Whole) (hlive : v.live? n = some node)
    (hs : v.Stocked) : v'.Stocked := by
  have hothers := (hstep.touches_whole h).1.others
  intro m node' hm
  by_cases hne : m = n
  · subst hne
    cases hstep with
    | edit hold hedit =>
      obtain rfl := Option.some.inj ((live?_putBack hold).symm.trans hm)
      exact hedit.inUse_ne_nil (h.owns hold) (hs m _ hold)
    | relink hold =>
      obtain rfl := Option.some.inj
        ((get?_set_self (live?_eq_some.1 hold).2).symm.trans (live?_eq_some.1 hm).2)
      have hkept := hs m _ hold
      exact hkept
    | take htake =>
      rw [h.dead_of_take htake] at hlive
      cases hlive
    | release hold hinodes hblocks =>
      obtain ⟨inodes', -, hinodes', -, hbecomes, -⟩ := h.release hold
      obtain rfl := Except.ok.inj (hinodes'.symm.trans hinodes)
      exact absurd rfl ((hbecomes.used_iff _).1 (live?_eq_some.1 hm).1).2
  · exact hs m node' (hothers.live hne ▸ hm)

theorem Turn.stocked (hturn : Turn n v v') (h : v.Whole) (hs : v.Stocked) : v'.Stocked := by
  cases hturn with
  | step hlive hstep => exact hstep.stocked h hlive hs
  | @creation owner mode now node hnumber hrun =>
    have hcreated := (createInode_ensures h owner mode now).of_ok hrun
    obtain ⟨e, inodes, blocks, htake, ha, -⟩ := (createInode_grown h owner mode now).of_ok hrun
    have hnew : Step node.number v (v.taken node.number inodes (.ofOwner node.number owner mode now)) :=
      .take htake rfl ⟨rfl, rfl, rfl⟩
    have howns := (hnew.touches_whole h).2.owns (h.live?_taken htake _)
    intro m node' hm
    by_cases hne : m = node.number
    · subst hne
      obtain rfl := Option.some.inj (hcreated.live.symm.trans hm)
      rw [((howns.blocks.grown ha).1.pushed.packed ExtentMap.packed_empty).1]
      exact List.cons_ne_nil _ _
    · rw [hcreated.steps.live h hne] at hm
      exact hs m node' hm

theorem Turns.stocked {S : UInt32 → Prop} (hturns : Turns S v v') (h : v.Whole) (hs : v.Stocked) :
    v'.Stocked := by
  induction hturns with
  | refl => exact hs
  | tail hturns hturn ih =>
    obtain ⟨n, -, hturn⟩ := hturn
    exact hturn.stocked (Turns.whole hturns h) ih

theorem Formatted.stocked {g : Geometry} (h : Formatted g v) : v.Stocked := by
  intro n node hlive hnone
  have hmember := members_live hlive
  rw [h.members, Namespace.rooted, Namespace.set_apply] at hmember
  split at hmember
  · have hslots := congrArg Member.entries (Option.some.inj hmember)
    have hempty : (node.member v.data).entries = [] := by
      rw [Member.entries, Inode.member, Directory.slots, ExtentMap.blockNumbers, hnone]
      split <;> rfl
    rw [hempty] at hslots
    cases hslots
  · cases hmember

theorem Sound.write_opened (h : v.Sound) (hlive : v.live? n = some node)
    (hfile : node.isDirectory = false) {offset : Nat} {bytes : List UInt8} {time : Int64}
    {P : Nat → OpenInode → Prop} {F : WriteFailure → OpenInode → Prop}
    (hwrite : Action.Ensures (OpenInode.write time offset bytes) (v.opened node) P F False) :
    Action.Ensures (write n offset bytes time) v
      (fun written v' => ∃ w, v' = v.putBack n w ∧ P written w)
      (fun e v' => ∃ w, v' = v.putBack n w ∧ F e w) False := by
  simp only [write, Action.ensures_bind, Action.ensures_get, Action.ensures_lift, h.inode_eq hlive,
    Fallible.ensures_restate, Fallible.ensures_ok, Action.ensures_refuseIf, hfile,
    Bool.false_eq_true, if_false]
  exact onRecord_ensures hwrite

end Volume

theorem Request.Run.stocked {v v' : Volume} (hrun : Run v v') (h : v.Sound) (hs : v.Stocked) :
    v'.Stocked := by
  induction hrun with
  | refl => exact hs
  | tail hrun hr ih =>
    obtain ⟨r, hr⟩ := hr
    have hwhole := (Run.sound hrun h).whole
    exact (Request.turns hwhole hr).stocked hwhole ih

/-- A write of bytes to a file, in every state that calls lead to from a format. Where the bytes end
within the reach of the file, all of them are written and the blocks that are missing for them are
added; where they do not, the write fills the reach with all the blocks for which there is room, and
says what they are short of. A write of no bytes changes nothing. -/
theorem write_outcome {D : Type} [BlockDevice D] (g : Geometry) (id : VolumeId) (now : Int64)
    (d d' : D) (v₀ v : Volume) (f : UInt32) (node : Inode) (offset : Nat) (bytes : List UInt8)
    (time : Int64) (hformat : Volume.format g id now d = .ok v₀ d') (hrun : Request.Run v₀ v)
    (hnode : v.inode f = .ok node) (hfile : node.isDirectory = false) :
    (bytes = [] → Volume.write f offset bytes time v = .ok 0 v) ∧
      (bytes ≠ [] → ∃ v' node', v'.inode f = .ok node' ∧
        if offset + bytes.length ≤ (v.opened node).reach then
          Volume.write f offset bytes time v = .ok bytes.length v' ∧
            (v.opened node).Gains ((v.opened node).missing (offset + bytes.length))
              (v'.opened node')
        else
          Volume.write f offset bytes time v = .error (.failure
              ⟨(v.opened node).reach - offset, (v.opened node).shortage⟩) v' ∧
            (v.opened node).Gains (v.opened node).room (v'.opened node')) := by
  have hformatted := Volume.formatted_of_format hformat
  have hsound := hrun.sound hformatted.sound
  obtain ⟨hlive, -⟩ := Volume.live_of_inode hsound.whole.sized hnode
  have hne := hrun.stocked hformatted.sound hformatted.stocked f node hlive
  have howns := hsound.whole.owns hlive
  have hfound : ∀ w, (Request.write f offset bytes time).Returns v (v.putBack f w) →
      (v.putBack f w).inode f = .ok w.node := fun w hr =>
    (Request.sound hsound hr).inode_eq (Volume.live?_putBack hlive)
  refine ⟨?_, fun hbytes => ?_⟩
  · rintro rfl
    obtain ⟨written, _, hok, w, rfl, rfl, rfl⟩ :=
      (hsound.write_opened hlive hfile (OpenInode.write_nil howns hne time offset)).exists_ok
        (fun _ _ ⟨_, _, hfalse⟩ => hfalse) fun hfalse => hfalse
    rwa [Volume.putBack_opened hlive] at hok
  · have hens := hsound.write_opened hlive hfile
      (OpenInode.write_ends howns (hsound.content f node hlive) hne hbytes time offset)
    unfold Action.Ensures at hens
    split at hens
    · rename_i written v' hok
      obtain ⟨w, rfl, hends⟩ := hens
      refine ⟨v.putBack f w, w.node, hfound w (.inl ⟨written, hok⟩), ?_⟩
      cases hends with
      | complete hle hgains =>
        rw [if_pos hle]
        exact ⟨hok, hgains⟩
    · rename_i e v' hfailed
      obtain ⟨written, error⟩ := e
      obtain ⟨w, rfl, hends⟩ := hens
      refine ⟨v.putBack f w, w.node, hfound w (.inr ⟨_, hfailed⟩), ?_⟩
      cases hends with
      | short hlt hgains =>
        rw [if_neg (Nat.not_le.2 hlt)]
        exact ⟨hfailed, hgains⟩
    · exact hens.elim

/-- Two blocks are left for a new file, and its second byte behind them is not written. -/
theorem write_outcome_full_volume : ∃ (v₀ v v' : Volume) (d' : MemoryDisk) (node node' : Inode),
    Volume.format ⟨4, 4⟩ ⟨.replicate 16 0⟩ 0 (MemoryDisk.blank 8) = .ok v₀ d' ∧
      Request.Run v₀ v ∧ v.inode node.number = .ok node ∧ node.isDirectory = false ∧
      Volume.write node.number 12287 [5, 6] 0 v = .error (.failure ⟨1, .noSpace⟩) v' ∧
      v'.inode node.number = .ok node' ∧ (v.opened node).Gains 2 (v'.opened node') := by
  have hmade : Action.any (Volume.format ⟨4, 4⟩ ⟨.replicate 16 0⟩ 0) (MemoryDisk.blank 8)
      (fun v₀ _ => Action.any (Volume.createInode default .defaultFile 0) v₀ fun node v =>
        !node.isDirectory && (v.opened node).reach == 12288 && (v.opened node).room == 2 &&
          (v.opened node).shortage == .noSpace) = true := by
    decide +kernel
  obtain ⟨v₀, d', hformat, hmade⟩ := Action.any_eq_true.1 hmade
  obtain ⟨node, v, hcreate, hmade⟩ := Action.any_eq_true.1 hmade
  simp only [Bool.and_eq_true, Bool.not_eq_true', beq_iff_eq] at hmade
  obtain ⟨⟨⟨hfile, hreach⟩, hroom⟩, hshortage⟩ := hmade
  have hsound₀ := (Volume.formatted_of_format hformat).sound
  have hcreated := (Volume.createInode_ensures hsound₀.whole default .defaultFile 0).of_ok hcreate
  have hnode := (hcreated.steps.sound hsound₀).inode_eq hcreated.live
  have hrun : Request.Run v₀ v :=
    .single ⟨.createInode default .defaultFile 0, .inl ⟨node, hcreate⟩⟩
  obtain ⟨-, hwrite⟩ := write_outcome ⟨4, 4⟩ ⟨.replicate 16 0⟩ 0 (MemoryDisk.blank 8) d' v₀ v
    node.number node 12287 [5, 6] 0 hformat hrun hnode hfile
  obtain ⟨v', node', hnode', hends⟩ := hwrite (List.cons_ne_nil _ _)
  rw [hreach, if_neg (by decide), hroom, hshortage] at hends
  exact ⟨v₀, v, v', d', node, node', hformat, hrun, hnode, hfile, hends.1, hnode', hends.2⟩

end ExtentVolume
