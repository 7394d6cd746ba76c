import ExtentVolume.Directory.Entry

namespace ExtentVolume

namespace Text

theorem toArray_toBytes (s : String) : (⟨(toBytes s).toArray⟩ : ByteArray) = s.toByteArray := by
  rw [toBytes, Array.toArray_toList, String.toUTF8_eq_toByteArray]

theorem ofBytes_toBytes (s : String) : ofBytes (toBytes s) = s := by
  have hvalid : String.fromUTF8? s.toByteArray = some s := dif_pos s.isValidUTF8
  rw [ofBytes, toArray_toBytes, hvalid, Option.getD_some]

theorem toBytes_injective : Function.Injective toBytes := fun s t h => by
  rw [← ofBytes_toBytes s, h, ofBytes_toBytes]

end Text

namespace Entry

variable {name : String} {n : UInt32} {e : Entry}

/-- A valid name leaves room for a zero byte behind it and has none itself. -/
theorem checkName_ok (h : checkName name = .ok ()) :
    (Text.toBytes name).length ≤ maxNameLength ∧ ∀ b ∈ Text.toBytes name, b ≠ 0 := by
  simp only [checkName] at h
  split at h
  · cases h
  · rename_i hbytes
    split at h
    · cases h
    · rename_i hlength
      refine ⟨Nat.not_lt.1 hlength, fun b hb hzero => hbytes ?_⟩
      rw [Bool.or_eq_true, List.any_eq_true]
      exact .inr ⟨b, hb, by rw [hzero]; rfl⟩

theorem nameBytes_fieldOf (h : checkName name = .ok ()) :
    nameBytes ⟨fieldOf name, n⟩ = Text.toBytes name := by
  obtain ⟨hlength, hzero⟩ := checkName_ok h
  have hfield : (fieldOf name).toList =
      Text.toBytes name ++ 0 :: List.replicate (27 - (Text.toBytes name).length) 0 := by
    rw [fieldOf, Vector.toList_mk, List.toList_toArray,
      List.take_of_length_le (Nat.le_succ_of_le hlength), ← List.replicate_succ,
      ← Nat.sub_add_comm (show _ ≤ 27 from hlength)]
  rw [nameBytes, hfield, List.takeWhile_append_of_pos fun b hb => bne_iff_ne.2 (hzero b hb)]
  simp

theorem name_fieldOf (h : checkName name = .ok ()) : Entry.name ⟨fieldOf name, n⟩ = name := by
  rw [Entry.name, nameBytes_fieldOf h, Text.ofBytes_toBytes]

theorem isFor_fieldOf (h : checkName name = .ok ()) (hn : n ≠ 0) :
    isFor ⟨fieldOf name, n⟩ name = true := by
  simp [isFor, isFree, nameBytes_fieldOf h, hn]

theorem not_isFor_of_free (h : e.isFree = true) (name : String) : e.isFor name = false := by
  rw [isFor, h, Bool.not_true, Bool.false_and]

theorem isFor_unique {other : String} (h : e.isFor name = true) (h' : e.isFor other = true) :
    name = other := by
  rw [isFor, Bool.and_eq_true, beq_iff_eq] at h h'
  exact Text.toBytes_injective (h.2.symm.trans h'.2)

def Legible (e : Entry) : Prop :=
  e.isFree = true ∨ ∃ name, checkName name = .ok () ∧ e.field = fieldOf name

theorem legible_fieldOf (h : checkName name = .ok ()) : Legible ⟨fieldOf name, n⟩ :=
  .inr ⟨name, h, rfl⟩

theorem Legible.isFor_eq (h : e.Legible) (name : String) :
    e.isFor name = (!e.isFree && e.name == name) := by
  obtain hfree | ⟨held, hvalid, hfield⟩ := h
  · rw [isFor, hfree]
    rfl
  · have he : e = ⟨fieldOf held, e.inode⟩ := by rw [← hfield]
    have hname : e.name = held := by rw [he, name_fieldOf hvalid]
    have hbytes : e.nameBytes = Text.toBytes held := by rw [he, nameBytes_fieldOf hvalid]
    rw [isFor, hname, hbytes]
    congr 1
    rw [Bool.eq_iff_iff, beq_iff_eq, beq_iff_eq, Text.toBytes_injective.eq_iff]

end Entry

end ExtentVolume
