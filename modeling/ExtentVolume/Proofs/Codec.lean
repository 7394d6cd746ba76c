import Mathlib.Algebra.Group.Nat.Defs
import Mathlib.Tactic.Common
import ExtentVolume.Directory.Entry
import ExtentVolume.SuperBlock

namespace ExtentVolume.Codec

class LawfulStored (α : Type) [Stored α] : Prop where
  length_encode (a : α) : (encode a).length = Stored.width α
  decode_encode (a : α) (rest : List UInt8) : decoder (encode a ++ rest) = .ok (a, rest)
  encode_decode (bytes : List UInt8) (h : Stored.width α ≤ bytes.length) :
    ∃ a : α, decoder bytes = .ok (a, bytes.drop (Stored.width α)) ∧
      encode a = bytes.take (Stored.width α)
  decode_short (bytes : List UInt8) (h : bytes.length < Stored.width α) :
    (decoder : Decoder α) bytes = .error .endOfInput

export LawfulStored (length_encode decode_encode encode_decode decode_short)

variable {α β : Type}

@[simp] theorem length_littleEndian (width n : Nat) : (littleEndian width n).length = width := by
  induction width generalizing n with
  | zero => rfl
  | succ width ih => rw [littleEndian, List.length_cons, ih]

theorem ofLittleEndian_littleEndian {width n : Nat} (h : n < 256 ^ width) :
    ofLittleEndian (littleEndian width n) = n := by
  induction width generalizing n with
  | zero =>
    rw [Nat.pow_zero] at h
    simp only [littleEndian, ofLittleEndian]
    omega
  | succ width ih =>
    rw [Nat.pow_succ] at h
    rw [littleEndian, ofLittleEndian, ih (by omega), UInt8.toNat_ofNat']
    omega

theorem ofLittleEndian_lt (bytes : List UInt8) : ofLittleEndian bytes < 256 ^ bytes.length := by
  induction bytes with
  | nil => decide
  | cons b rest ih =>
    have hb := b.toNat_lt
    rw [ofLittleEndian, List.length_cons, Nat.pow_succ]
    omega

theorem littleEndian_ofLittleEndian (bytes : List UInt8) :
    littleEndian bytes.length (ofLittleEndian bytes) = bytes := by
  induction bytes with
  | nil => rfl
  | cons b rest ih =>
    have hb := b.toNat_lt
    have hdiv : (b.toNat + 256 * ofLittleEndian rest) / 256 = ofLittleEndian rest := by omega
    have hmod : (b.toNat + 256 * ofLittleEndian rest) % 256 = b.toNat := by omega
    rw [List.length_cons, littleEndian, ofLittleEndian, hdiv, ih]
    congr 1
    apply UInt8.toNat_inj.1
    rw [UInt8.toNat_ofNat', hmod]

theorem takeBytes_append {n : Nat} (v : Vector UInt8 n) (rest : List UInt8) :
    takeBytes n (v.toList ++ rest) = .ok (v, rest) := by
  have hle : n ≤ (v.toList ++ rest).length := by simp
  rw [takeBytes, dif_pos hle]
  congr 2
  · apply Vector.toList_inj.1
    simp
  · simp

theorem takeBytes_ok {n : Nat} {bytes : List UInt8} (h : n ≤ bytes.length) :
    ∃ v : Vector UInt8 n, takeBytes n bytes = .ok (v, bytes.drop n) ∧ v.toList = bytes.take n := by
  exact ⟨_, by rw [takeBytes, dif_pos h], by simp⟩

theorem takeBytes_short {n : Nat} {bytes : List UInt8} (h : bytes.length < n) :
    takeBytes n bytes = .error .endOfInput := dif_neg (Nat.not_le.2 h)

instance {n : Nat} : LawfulStored (Vector UInt8 n) where
  length_encode v := v.length_toList
  decode_encode := takeBytes_append
  encode_decode _ := takeBytes_ok
  decode_short _ := takeBytes_short

theorem bind_run {d : Decoder α} {f : α → Decoder β} {bytes rest : List UInt8} {a : α}
    (h : d bytes = .ok (a, rest)) : (d >>= f) bytes = f a rest := by
  simp only [bind, StateT.bind, h, Except.bind]

theorem map_run {d : Decoder α} (f : α → β) {bytes rest : List UInt8} {a : α}
    (h : d bytes = .ok (a, rest)) : (f <$> d) bytes = .ok (f a, rest) := by
  simp only [Functor.map, StateT.map, h, bind, Except.bind, pure, Except.pure]

theorem bind_error {d : Decoder α} {f : α → Decoder β} {bytes : List UInt8} {e : CodecError}
    (h : d bytes = .error e) : (d >>= f) bytes = .error e := by
  simp only [bind, StateT.bind, h, Except.bind]

theorem map_error {d : Decoder α} (f : α → β) {bytes : List UInt8} {e : CodecError}
    (h : d bytes = .error e) : (f <$> d) bytes = .error e := by
  simp only [Functor.map, StateT.map, h, bind, Except.bind]

variable [Stored α] [Stored β]

/-- A type whose values are stored as those of a lawful type, one for one, is lawful. -/
theorem LawfulStored.of_equiv [LawfulStored β] (f : β → α) (g : α → β) (hfg : ∀ a, f (g a) = a)
    (hgf : ∀ b, g (f b) = b) (hwidth : Stored.width α = Stored.width β)
    (hencode : ∀ a : α, encode a = encode (g a))
    (hdecoder : (decoder : Decoder α) = f <$> (decoder : Decoder β)) : LawfulStored α where
  length_encode a := by rw [hencode, length_encode, hwidth]
  decode_encode a rest := by
    rw [hencode, hdecoder, map_run f (decode_encode (g a) rest), hfg]
  encode_decode bytes h := by
    rw [hwidth] at h ⊢
    obtain ⟨b, hb, henc⟩ := encode_decode (α := β) bytes h
    exact ⟨f b, by rw [hdecoder, map_run f hb], by rw [hencode, hgf, henc]⟩
  decode_short bytes h := by
    rw [hwidth] at h
    rw [hdecoder, map_error f (decode_short bytes h)]

instance : Stored (α × β) where
  width := Stored.width α + Stored.width β
  encode p := encode p.1 ++ encode p.2
  decoder := return (← decoder, ← decoder)

theorem decoder_prod : (decoder : Decoder (α × β)) = do return (← decoder, ← decoder) := rfl

theorem encode_prod (p : α × β) : encode p = encode p.1 ++ encode p.2 := rfl

instance [LawfulStored α] [LawfulStored β] : LawfulStored (α × β) where
  length_encode p := by
    change (encode p.1 ++ encode p.2).length = Stored.width α + Stored.width β
    rw [List.length_append, length_encode, length_encode]
  decode_encode p rest := by
    change (decoder >>= fun a => decoder >>= fun b => pure (a, b) : Decoder (α × β))
      ((encode p.1 ++ encode p.2) ++ rest) = .ok (p, rest)
    rw [List.append_assoc, bind_run (decode_encode p.1 _), bind_run (decode_encode p.2 _)]
    rfl
  encode_decode bytes h := by
    change Stored.width α + Stored.width β ≤ bytes.length at h
    obtain ⟨a, ha, hea⟩ := encode_decode (α := α) bytes (by omega)
    obtain ⟨b, hb, heb⟩ := encode_decode (α := β) (bytes.drop (Stored.width α)) (by
      rw [List.length_drop]
      omega)
    refine ⟨(a, b), ?_, ?_⟩
    · change (decoder >>= fun a => decoder >>= fun b => pure (a, b) : Decoder (α × β)) bytes = _
      rw [bind_run ha, bind_run hb, List.drop_drop]
      rfl
    · change encode a ++ encode b = bytes.take (Stored.width α + Stored.width β)
      rw [hea, heb, List.take_add]
  decode_short bytes h := by
    change bytes.length < Stored.width α + Stored.width β at h
    change (decoder >>= fun a => decoder >>= fun b => pure (a, b) : Decoder (α × β)) bytes = _
    by_cases hfirst : bytes.length < Stored.width α
    · exact bind_error (decode_short bytes hfirst)
    · obtain ⟨a, ha, -⟩ := encode_decode (α := α) bytes (Nat.le_of_not_lt hfirst)
      rw [bind_run ha]
      apply bind_error
      apply decode_short
      rw [List.length_drop]
      omega

/-- A number is stored exactly if its type has as many values as its digits. -/
theorem LawfulStored.of_number {α : Type} {width : Nat} {toNat : α → Nat} {ofNat : Nat → α}
    (hlt : ∀ a, toNat a < 256 ^ width) (hofNat : ∀ a, ofNat (toNat a) = a)
    (htoNat : ∀ n < 256 ^ width, toNat (ofNat n) = n) :
    @LawfulStored α (.ofNumber width toNat ofNat) := by
  let := Stored.ofNumber width toNat ofNat
  refine .of_equiv (β := Vector UInt8 width) (fun v => ofNat (ofLittleEndian v.toList))
    (fun a => ⟨(littleEndian width (toNat a)).toArray, by simp⟩) (fun a => ?_) (fun v => ?_) rfl
    (fun a => rfl) rfl
  · simp [ofLittleEndian_littleEndian (hlt a), hofNat]
  · have hbytes := ofLittleEndian_lt v.toList
    have hdigits := littleEndian_ofLittleEndian v.toList
    rw [Vector.length_toList] at hbytes hdigits
    apply Vector.toList_inj.1
    simp [htoNat _ hbytes, hdigits]

instance : LawfulStored UInt16 :=
  .of_number UInt16.toNat_lt (fun _ => UInt16.ofNat_toNat) fun _ => UInt16.toNat_ofNat_of_lt'

instance : LawfulStored UInt32 :=
  .of_number UInt32.toNat_lt (fun _ => UInt32.ofNat_toNat) fun _ => UInt32.toNat_ofNat_of_lt'

instance : LawfulStored UInt64 :=
  .of_number UInt64.toNat_lt (fun _ => UInt64.ofNat_toNat) fun _ => UInt64.toNat_ofNat_of_lt'

instance : LawfulStored Int64 :=
  @LawfulStored.of_number Int64 8 (·.toUInt64.toNat) (·.toUInt64.toInt64)
    (fun t => t.toUInt64.toNat_lt)
    (fun t => congrArg UInt64.toInt64 (UInt64.ofNat_toNat (x := t.toUInt64)))
    (fun _ => UInt64.toNat_ofNat_of_lt')

instance : LawfulStored Extent := by
  refine .of_equiv (β := UInt32 × UInt32) (fun p => ⟨p.1, p.2⟩) (fun e => (e.start, e.count))
    (fun _ => rfl) (fun _ => rfl) rfl (fun _ => rfl) ?_
  change (do return { start := ← decoder, count := ← decoder } : Decoder Extent) = _
  simp only [decoder_prod, map_bind, map_pure]

instance : LawfulStored Entry := by
  refine .of_equiv (β := Vector UInt8 28 × UInt32) (fun p => ⟨p.1, p.2⟩)
    (fun e => (e.field, e.inode)) (fun _ => rfl) (fun _ => rfl) rfl (fun _ => rfl) ?_
  change (do return { field := ← decoder, inode := ← decoder } : Decoder Entry) = _
  simp only [decoder_prod, map_bind, map_pure]

theorem toList_slots (m : ExtentMap) :
    m.slots.toList = [m.slots[0], m.slots[1], m.slots[2], m.slots[3]] := by
  apply List.ext_getElem
  · simp
  · intro i h _
    have hi : i < 4 := by simpa using h
    obtain rfl | rfl | rfl | rfl : i = 0 ∨ i = 1 ∨ i = 2 ∨ i = 3 := by omega
    all_goals simp

instance : LawfulStored ExtentMap := by
  refine .of_equiv
    (β := Extent × Extent × Extent × Extent × UInt32)
    (fun p => ⟨#v[p.1, p.2.1, p.2.2.1, p.2.2.2.1], p.2.2.2.2⟩)
    (fun m => (m.slots[0], m.slots[1], m.slots[2], m.slots[3], m.stated)) (fun m => ?_)
    (fun _ => rfl) rfl (fun m => ?_) ?_
  · have hslots : #v[m.slots[0], m.slots[1], m.slots[2], m.slots[3]] = m.slots :=
      Vector.toList_inj.1 (toList_slots m).symm
    simp only [hslots]
  · change (m.slots.toList.map encode).flatten ++ encode m.stated = _
    rw [toList_slots]
    simp [encode_prod]
  · change (do return { slots := #v[← decoder, ← decoder, ← decoder, ← decoder], stated := ← decoder }
      : Decoder ExtentMap) = _
    simp only [decoder_prod, map_bind, map_pure, bind_assoc, pure_bind]

instance : LawfulStored Inode := by
  refine .of_equiv
    (β := UInt32 × UInt16 × UInt16 × UInt32 × UInt32 × UInt64 × UInt32 × Int64 × Int64 × Int64 ×
      ExtentMap)
    (fun (number, mode, links, uid, gid, size, blocks, accessed, modified, changed, extents) =>
      { number, mode := ⟨mode⟩, links, uid, gid, size, blocks, accessed, modified, changed, extents })
    (fun n => (n.number, n.mode.bits, n.links, n.uid, n.gid, n.size, n.blocks, n.accessed,
      n.modified, n.changed, n.extents)) (fun _ => rfl) (fun _ => rfl) rfl (fun n => ?_) ?_
  · change encode n.number ++ encode n.mode.bits ++ encode n.links ++ encode n.uid ++
      encode n.gid ++ encode n.size ++ encode n.blocks ++ encode n.accessed ++
      encode n.modified ++ encode n.changed ++ encode n.extents = _
    simp only [encode_prod, List.append_assoc]
  · change (do return {
      number := ← decoder, mode := ⟨← decoder⟩, links := ← decoder, uid := ← decoder
      gid := ← decoder, size := ← decoder, blocks := ← decoder, accessed := ← decoder
      modified := ← decoder, changed := ← decoder, extents := ← decoder } : Decoder Inode) = _
    simp only [decoder_prod, map_bind, map_pure, bind_assoc, pure_bind]

instance : LawfulStored SuperBlock := by
  refine .of_equiv
    (β := UInt64 × UInt32 × UInt32 × UInt32 × UInt64 × UInt32 × UInt32 × UInt64 × UInt32 × UInt64 ×
      UInt64 × Vector UInt8 16 × Int64)
    (fun (magic, blockSize, blockCount, freeBlocks, dataStart, inodeCount, freeInodes,
        inodeTableStart, root, inodeBitmapStart, blockBitmapStart, id, created) =>
      { magic, blockSize, blockCount, freeBlocks, dataStart, inodeCount, freeInodes,
        inodeTableStart, root, inodeBitmapStart, blockBitmapStart, id := ⟨id⟩, created })
    (fun s => (s.magic, s.blockSize, s.blockCount, s.freeBlocks, s.dataStart, s.inodeCount,
      s.freeInodes, s.inodeTableStart, s.root, s.inodeBitmapStart, s.blockBitmapStart, s.id.bytes,
      s.created)) (fun _ => rfl) (fun _ => rfl) rfl (fun s => ?_) ?_
  · change encode s.magic ++ encode s.blockSize ++ encode s.blockCount ++ encode s.freeBlocks ++
      encode s.dataStart ++ encode s.inodeCount ++ encode s.freeInodes ++
      encode s.inodeTableStart ++ encode s.root ++ encode s.inodeBitmapStart ++
      encode s.blockBitmapStart ++ encode s.id.bytes ++ encode s.created = _
    simp only [encode_prod, List.append_assoc]
  · change (do return {
      magic := ← decoder, blockSize := ← decoder, blockCount := ← decoder
      freeBlocks := ← decoder, dataStart := ← decoder, inodeCount := ← decoder
      freeInodes := ← decoder, inodeTableStart := ← decoder, root := ← decoder
      inodeBitmapStart := ← decoder, blockBitmapStart := ← decoder, id := ⟨← decoder⟩
      created := ← decoder } : Decoder SuperBlock) = _
    simp only [decoder_prod, map_bind, map_pure, bind_assoc, pure_bind]

section Slots

variable [LawfulStored α] {size : Nat}

theorem decode_ok {bytes : List UInt8} (h : Stored.width α ≤ bytes.length) :
    ∃ a : α, decode bytes = .ok a ∧ encode a = bytes.take (Stored.width α) := by
  obtain ⟨a, ha, henc⟩ := encode_decode (α := α) bytes h
  refine ⟨a, ?_, henc⟩
  simp only [decode, StateT.run, ha, Functor.map, Except.map]

theorem decode_encode_append (a : α) (rest : List UInt8) : decode (encode a ++ rest) = .ok a := by
  simp only [decode, StateT.run, decode_encode, Functor.map, Except.map]

theorem slotBytes_eq (h : Stored.width α ≤ size) (a : α) :
    slotBytes size a = encode a ++ List.replicate (size - Stored.width α) 0 := by
  rw [slotBytes, List.take_of_length_le]
  rw [List.length_append, List.length_replicate, length_encode]
  omega

theorem decodeSlots_flatMap (h : Stored.width α ≤ size) (as : List α) (rest : List UInt8) :
    decodeSlots size as.length (as.flatMap (slotBytes size) ++ rest) = .ok as := by
  induction as with
  | nil => rfl
  | cons a as ih =>
    have hlen : (slotBytes size a).length = size := by
      rw [slotBytes_eq h, List.length_append, List.length_replicate, length_encode]
      omega
    rw [List.flatMap_cons, List.append_assoc, List.length_cons, decodeSlots,
      List.take_left' hlen, List.drop_left' hlen, ih, slotBytes_eq h, decode_encode_append]
    rfl

theorem decodeSlots_ok (h : Stored.width α ≤ size) {count : Nat} {bytes : List UInt8}
    (hlen : count * size ≤ bytes.length) :
    ∃ as : List α, decodeSlots size count bytes = .ok as ∧ as.length = count := by
  induction count generalizing bytes with
  | zero => exact ⟨[], rfl, rfl⟩
  | succ count ih =>
    rw [Nat.succ_mul] at hlen
    have hhere : Stored.width α ≤ (bytes.take size).length := by
      rw [List.length_take]
      omega
    have hrest : count * size ≤ (bytes.drop size).length := by
      rw [List.length_drop]
      omega
    obtain ⟨a, ha, -⟩ := decode_ok hhere
    obtain ⟨as, has, hcount⟩ := ih hrest
    refine ⟨a :: as, ?_, by rw [List.length_cons, hcount]⟩
    rw [decodeSlots, ha, has]
    rfl

theorem encode_injective {a b : α} (h : encode a = encode b) : a = b := by
  have ha := decode_encode a []
  rw [h, decode_encode b []] at ha
  exact (Prod.mk.inj (Except.ok.inj ha)).1.symm

theorem encode_getElem_decodeSlots (h : Stored.width α = size) {count : Nat} {bytes : List UInt8}
    (hlen : count * size ≤ bytes.length) {as : List α} (has : decodeSlots size count bytes = .ok as)
    {i : Nat} {a : α} (hi : as[i]? = some a) : encode a = (bytes.drop (i * size)).take size := by
  induction count generalizing bytes as i with
  | zero =>
    obtain rfl := Except.ok.inj has
    simp at hi
  | succ count ih =>
    rw [Nat.succ_mul] at hlen
    have hwidth : Stored.width α ≤ (bytes.take size).length := by
      rw [List.length_take, h]
      omega
    obtain ⟨b, hb, hencode⟩ := decode_ok hwidth
    have hrest : count * size ≤ (bytes.drop size).length := by
      rw [List.length_drop]
      omega
    obtain ⟨bs, hbs, -⟩ := decodeSlots_ok (α := α) (Nat.le_of_eq h) hrest
    have hcons : as = b :: bs := by
      rw [decodeSlots, hb, hbs] at has
      exact (Except.ok.inj has).symm
    subst hcons
    cases i with
    | zero =>
      obtain rfl := Option.some.inj hi
      rw [hencode, h, Nat.zero_mul, List.drop_zero, List.take_take, Nat.min_self]
    | succ i =>
      rw [ih hrest hbs hi, List.drop_drop, Nat.succ_mul, Nat.add_comm]

end Slots

end ExtentVolume.Codec
