namespace ExtentVolume.Text

/-- What a leading byte announces: its bits of the code point, and the ranges that the bytes after
it must lie in. They leave out surrogates, overlong forms and numbers beyond the last code point. -/
def announced (lead : UInt8) : Option (Nat × List (UInt8 × UInt8)) :=
  let tail : UInt8 × UInt8 := (0x80, 0xbf)
  if lead < 0x80 then some (lead.toNat, [])
  else if lead < 0xc2 then none
  else if lead < 0xe0 then some (lead.toNat - 0xc0, [tail])
  else if lead == 0xe0 then some (0, [(0xa0, 0xbf), tail])
  else if lead == 0xed then some (0xd, [(0x80, 0x9f), tail])
  else if lead < 0xf0 then some (lead.toNat - 0xe0, [tail, tail])
  else if lead == 0xf0 then some (0, [(0x90, 0xbf), tail, tail])
  else if lead < 0xf4 then some (lead.toNat - 0xf0, [tail, tail, tail])
  else if lead == 0xf4 then some (4, [(0x80, 0x8f), tail, tail])
  else none

def extend : List (UInt8 × UInt8) → Nat → List UInt8 → Option Nat × List UInt8
  | [], value, bytes => (some value, bytes)
  | _ :: _, _, [] => (none, [])
  | (first, last) :: ranges, value, b :: bytes =>
    if first ≤ b && b ≤ last then extend ranges (value * 64 + (b.toNat - 0x80)) bytes
    else (none, b :: bytes)

theorem extend_length_le (ranges : List (UInt8 × UInt8)) (value : Nat) (bytes : List UInt8) :
    (extend ranges value bytes).2.length ≤ bytes.length := by
  induction bytes generalizing ranges value with
  | nil => cases ranges <;> simp [extend]
  | cons b bytes ih =>
    cases ranges with
    | nil => simp [extend]
    | cons r ranges =>
      simp only [extend]
      split
      · exact Nat.le_succ_of_le (ih _ _)
      · exact Nat.le_refl _

def replacement : Char := '\ufffd'

def charactersOf : List UInt8 → List Char
  | [] => []
  | lead :: rest => match announced lead with
    | none => replacement :: charactersOf rest
    | some (value, ranges) =>
      let read := extend ranges value rest
      (read.1.map Char.ofNat).getD replacement :: charactersOf read.2
termination_by bytes => bytes.length
decreasing_by
  · simp
  · exact Nat.lt_succ_of_le (extend_length_le ..)

/-- Valid UTF-8 is the text that it encodes; anything else is mended character by character. -/
def ofBytes (bytes : List UInt8) : String :=
  (String.fromUTF8? ⟨bytes.toArray⟩).getD (String.ofList (charactersOf bytes))

def toBytes (s : String) : List UInt8 := s.toUTF8.data.toList

end ExtentVolume.Text
