import ExtentVolume.Proofs.FileWrite
import ExtentVolume.Proofs.Persistence

namespace ExtentVolume

def overlaid (content : List UInt8) (offset : Nat) (bytes : List UInt8) : List UInt8 :=
  content.take offset ++ List.replicate (offset - content.length) 0 ++ bytes ++
    content.drop (offset + bytes.length)

/-- The content after the first `written` of the bytes were written. -/
def afterWrite (content : List UInt8) (offset : Nat) (bytes : List UInt8) (written : Nat) :
    List UInt8 :=
  if written = 0 then content else overlaid content offset (bytes.take written)

variable {content bytes : List UInt8} {offset written : Nat}

theorem length_overlaid :
    (overlaid content offset bytes).length = max content.length (offset + bytes.length) := by
  simp only [overlaid, List.length_append, List.length_take, List.length_replicate, List.length_drop]
  omega

theorem getElem?_overlaid (i : Nat) : (overlaid content offset bytes)[i]?.getD 0 =
    if offset ≤ i ∧ i < offset + bytes.length then bytes[i - offset]?.getD 0
    else content[i]?.getD 0 := by
  have hfront : (content.take offset ++ List.replicate (offset - content.length) 0).length =
      offset := by
    rw [List.length_append, List.length_take, List.length_replicate]
    omega
  rw [overlaid, List.append_assoc _ bytes]
  by_cases hbefore : i < offset
  · rw [List.getElem?_append_left (by omega), if_neg (by omega)]
    by_cases hin : i < content.length
    · rw [List.getElem?_append_left (by rw [List.length_take]; omega),
        List.getElem?_take_of_lt hbefore]
    · rw [List.getElem?_append_right (by rw [List.length_take]; omega), List.getElem?_replicate,
        List.getElem?_eq_none (by omega : content.length ≤ i)]
      split <;> rfl
  · rw [List.getElem?_append_right (by omega), hfront]
    by_cases hin : i - offset < bytes.length
    · rw [List.getElem?_append_left hin, if_pos (by omega)]
    · rw [List.getElem?_append_right (by omega), List.getElem?_drop, if_neg (by omega)]
      congr 2
      omega

theorem length_afterWrite (h : written ≤ bytes.length) :
    (afterWrite content offset bytes written).length =
      if written = 0 then content.length else max content.length (offset + written) := by
  unfold afterWrite
  split
  · rfl
  · rw [length_overlaid, List.length_take, Nat.min_eq_left h]

theorem OpenInode.Sound.byteIn_eq {w : OpenInode} (h : w.Sound) (i : Nat) :
    byteIn w.data w.node.extents.inUse i = (w.node.content w.data)[i]?.getD 0 := by
  by_cases hi : i < w.node.size.toNat
  · simp [Inode.content, hi]
  · rw [h.tail i (by omega), List.getElem?_eq_none (by simpa using hi), Option.getD_none]

theorem OpenInode.Wrote.content_eq {w w' : OpenInode} (h : w.Wrote offset bytes written w')
    (hw : w.Sound) :
    w'.node.content w'.data = afterWrite (w.node.content w.data) offset bytes written := by
  have hlength : (afterWrite (w.node.content w.data) offset bytes written).length = _ :=
    length_afterWrite h.written_le
  apply List.ext_getElem
  · rw [hlength, Inode.length_content, Inode.length_content, h.size]
  · intro i hi hi'
    have hnew : (w'.node.content w'.data)[i] =
        ExtentVolume.byteIn w'.data w'.node.extents.inUse i := by
      simp only [Inode.content, List.getElem_map, List.getElem_range]
    have hold : (afterWrite (w.node.content w.data) offset bytes written)[i] =
        (afterWrite (w.node.content w.data) offset bytes written)[i]?.getD 0 := by
      rw [List.getElem?_eq_getElem hi', Option.getD_some]
    rw [hnew, hold, h.byteIn, hw.byteIn_eq]
    unfold afterWrite
    by_cases hzero : written = 0
    · rw [if_pos hzero, if_neg (by omega)]
    · have hlen : (bytes.take written).length = written := by
        rw [List.length_take, Nat.min_eq_left h.written_le]
      rw [if_neg hzero, getElem?_overlaid, hlen]
      by_cases hin : offset ≤ i ∧ i < offset + written
      · rw [if_pos hin, if_pos hin, List.getElem?_take_of_lt (by omega)]
      · rw [if_neg hin, if_neg hin]

namespace Volume

variable {v : Volume} {f : UInt32} {node : Inode}

def WriteEnds (v : Volume) (f : UInt32) (offset : Nat) (bytes : List UInt8) (time : Int64)
    (written : Nat) (v' : Volume) : Prop :=
  (write f offset bytes time v = .ok written v' ∧ written = bytes.length) ∨
    ∃ e, write f offset bytes time v = .error (.failure e) v' ∧ e.written = written

theorem Sound.write_ends (h : v.Sound) (hlive : v.live? f = some node) (offset : Nat)
    (bytes : List UInt8) (time : Int64) :
    ∃ written v' node', v.WriteEnds f offset bytes time written v' ∧ written ≤ bytes.length ∧
      v'.Sound ∧ v'.live? f = some node' ∧
      node'.content v'.data = afterWrite (node.content v.data) offset bytes written := by
  have hfiled : ∀ node₁ written w, v.live? f = some node₁ →
      OpenInode.Steps (v.opened node₁) w →
      ((v.opened node₁).Sound → (v.opened node₁).Wrote offset bytes written w) →
      written ≤ bytes.length ∧ (v.putBack f w).Sound ∧ (v.putBack f w).live? f = some w.node ∧
        w.node.content w.data = afterWrite (node.content v.data) offset bytes written := by
    intro node₁ written w hlive₁ hsteps hwrote
    obtain rfl := Option.some.inj (hlive.symm.trans hlive₁)
    have hsound := h.content f node hlive
    exact ⟨(hwrote hsound).written_le,
      (Edited.steps ⟨node, w, hlive, hsteps, rfl⟩).sound h, live?_putBack hlive,
      (hwrote hsound).content_eq hsound⟩
  have hens := write_ensures h.whole f offset bytes time
  unfold Action.Ensures at hens
  split at hens
  · rename_i written v' hok
    obtain ⟨node₁, w, hlive₁, -, rfl, hsteps, hall, hwrote⟩ := hens
    exact ⟨written, _, w.node, .inl ⟨hok, hall⟩, hfiled node₁ written w hlive₁ hsteps hwrote⟩
  · rename_i e v' hfailed
    obtain ⟨rfl, hnone⟩ | ⟨node₁, w, hlive₁, rfl, hsteps, -, hwrote⟩ := hens
    · exact ⟨0, v', node, .inr ⟨e, hfailed, hnone⟩, Nat.zero_le _, h, hlive, (if_pos rfl).symm⟩
    · exact ⟨e.written, _, w.node, .inr ⟨e, hfailed, rfl⟩,
        hfiled node₁ e.written w hlive₁ hsteps hwrote⟩
  · exact hens.elim

end Volume

/-- In every state of a run, a write to a file leaves exactly the bytes that it says it wrote, laid
over the old content, and every read returns what the new content has. -/
theorem read_after_write {D : Type} [BlockDevice D] [FaithfulDevice D] (g : Geometry) (id : VolumeId)
    (now : Int64) (d d' : D) (v₀ : Volume) (u : Usage D) (f : UInt32) (node : Inode) (offset : Nat)
    (bytes : List UInt8) (time : Int64) (hvalid : FaithfulDevice.Valid d)
    (hformat : Volume.format g id now d = .ok v₀ d') (hrun : Usage.Run ⟨v₀, d', some v₀⟩ u)
    (hnode : u.volume.inode f = .ok node) :
    ∃ content written v', u.volume.readAll f = .ok content ∧ content.length = node.size.toNat ∧
      u.volume.WriteEnds f offset bytes time written v' ∧ written ≤ bytes.length ∧
      v'.readAll f = .ok (afterWrite content offset bytes written) ∧
      (afterWrite content offset bytes written).length =
        (if written = 0 then content.length else max content.length (offset + written)) ∧
      (∃ node', v'.inode f = .ok node' ∧
        node'.size.toNat = (afterWrite content offset bytes written).length) ∧
      ∀ position length, v'.read f position length =
        .ok (((afterWrite content offset bytes written).drop position).take length) := by
  have hsound := ((Usage.safe_of_format hvalid hformat).run hrun).fits.sound
  obtain ⟨hlive, -⟩ := Volume.live_of_inode hsound.whole.sized hnode
  obtain ⟨written, v', node', hends, hle, hsound', hlive', hcontent⟩ :=
    hsound.write_ends hlive offset bytes time
  refine ⟨node.content u.volume.data, written, v', hsound.readAll_eq hlive,
    Inode.length_content _ _, hends, hle, ?_, length_afterWrite hle,
    ⟨node', hsound'.inode_eq hlive', ?_⟩, fun position length => ?_⟩
  · rw [hsound'.readAll_eq hlive', hcontent]
  · rw [← hcontent, Inode.length_content]
  · rw [hsound'.read_eq hlive', hcontent]

theorem read_after_write_new_file : ∃ (v₀ v v' : Volume) (d' : MemoryDisk) (node : Inode)
    (content : List UInt8) (written : Nat),
    Volume.format ⟨4, 4⟩ ⟨.replicate 16 0⟩ 0 (MemoryDisk.blank 8) = .ok v₀ d' ∧
      (Request.createInode default .defaultFile 0).Returns v₀ v ∧ v.inode node.number = .ok node ∧
      node.isDirectory = false ∧ v.readAll node.number = .ok content ∧
      v.WriteEnds node.number 2 [5, 6] 0 written v' ∧
      v'.readAll node.number = .ok (afterWrite content 2 [5, 6] written) := by
  have hmade : Action.any (Volume.format ⟨4, 4⟩ ⟨.replicate 16 0⟩ 0) (MemoryDisk.blank 8)
      (fun v₀ _ => Action.any (Volume.createInode default .defaultFile 0) v₀ fun node _ =>
        !node.isDirectory) = true := by
    decide +kernel
  obtain ⟨v₀, d', hformat, hmade⟩ := Action.any_eq_true.1 hmade
  obtain ⟨node, v, hcreate, hmade⟩ := Action.any_eq_true.1 hmade
  have hfile : node.isDirectory = false := Bool.not_eq_true' _ ▸ hmade
  have hsound₀ := (Volume.formatted_of_format hformat).sound
  have hcreated := (Volume.createInode_ensures hsound₀.whole default .defaultFile 0).of_ok hcreate
  have hnode := (hcreated.steps.sound hsound₀).inode_eq hcreated.live
  have hr : (Request.createInode default .defaultFile 0).Returns v₀ v := .inl ⟨node, hcreate⟩
  obtain ⟨content, written, v', hcontent, -, hends, -, hread, -⟩ := read_after_write ⟨4, 4⟩
    ⟨.replicate 16 0⟩ 0 (MemoryDisk.blank 8) d' v₀ ⟨v, d', some v₀⟩ node.number node 2 [5, 6] 0
    trivial hformat (.single (.call hr)) hnode
  exact ⟨v₀, v, v', d', node, content, written, hformat, hr, hnode, hfile, hcontent, hends, hread⟩

end ExtentVolume
