import Mathlib.Data.List.Basic
import ExtentVolume.Shell.Command

namespace ExtentVolume

namespace Text

theorem isBlank_of_isSeparator {c : Char} (h : isSeparator c = true) : isBlank c = true := by
  simp only [isSeparator, Bool.or_eq_true, beq_iff_eq] at h
  obtain (((rfl | rfl) | rfl) | rfl) | rfl := h <;> decide

theorem isSeparator_of_not_blank {c : Char} (h : isBlank c = false) : isSeparator c = false := by
  rw [← Bool.not_eq_true] at h ⊢
  exact mt isBlank_of_isSeparator h

structure Trimmed (cs : List Char) : Prop where
  head : ∀ c ∈ cs.head?, isBlank c = false
  last : ∀ c ∈ cs.getLast?, isBlank c = false

theorem dropWhile_head (cs : List Char) : ∀ c ∈ (cs.dropWhile isBlank).head?, isBlank c = false := by
  intro c hc
  have h := List.head?_dropWhile_not isBlank cs
  rw [Option.mem_def.1 hc] at h
  exact h

theorem dropWhile_eq_self {cs : List Char} (h : ∀ c ∈ cs.head?, isBlank c = false) :
    cs.dropWhile isBlank = cs := by
  cases cs with
  | nil => rfl
  | cons c cs => rw [List.dropWhile_cons_of_neg (by simp [h c rfl])]

theorem Trimmed.trim_eq {cs : List Char} (h : Trimmed cs) : trim cs = cs := by
  rw [trim, dropWhile_eq_self h.head, dropWhile_eq_self (by simpa using h.last),
    List.reverse_reverse]

/-- A text loses its blank head first; what the end loses then leaves the new head in place. -/
theorem trimmed_trim (cs : List Char) : Trimmed (trim cs) := by
  constructor
  · intro c hc
    obtain ⟨t, ht⟩ := List.dropWhile_suffix isBlank (l := (cs.dropWhile isBlank).reverse)
    refine dropWhile_head cs c ?_
    have hcut : cs.dropWhile isBlank = trim cs ++ t.reverse := by
      rw [← List.reverse_reverse (cs.dropWhile isBlank), ← ht, List.reverse_append, trim]
    rw [hcut, List.head?_append, Option.mem_def.1 hc]
    rfl
  · rw [trim, List.getLast?_reverse]
    exact dropWhile_head _

theorem pieces_eq (cs : List Char) : pieces cs = cs.splitOnP isSeparator := by
  induction cs with
  | nil => rfl
  | cons c cs ih =>
    obtain ⟨w, ws, hcut⟩ := List.exists_cons_of_ne_nil (List.splitOnP_ne_nil isSeparator cs)
    rw [List.splitOnP_cons_eq_if_modifyHead, pieces, ih, hcut]
    rfl

def split (cs : List Char) : List (List Char) := (pieces cs).filter (!·.isEmpty)

theorem words_eq (line : String) : words line = (split (trim line.toList)).map String.ofList := rfl

structure IsWord (w : List Char) : Prop where
  ne_nil : w ≠ []
  solid : ∀ c ∈ w, isSeparator c = false

structure IsGap (g : List Char) : Prop where
  ne_nil : g ≠ []
  blank : ∀ c ∈ g, isSeparator c = true

theorem split_word {w : List Char} (h : IsWord w) : split w = [w] := by
  have hfull : (!w.isEmpty) = true := by simpa using h.ne_nil
  rw [split, pieces_eq, List.splitOnP_eq_singleton h.solid]
  simp [hfull]

theorem split_word_gap {w : List Char} (h : IsWord w) {c : Char} (hc : isSeparator c = true)
    (cs : List Char) : split (w ++ c :: cs) = w :: split cs := by
  rw [split, pieces_eq, List.splitOnP_append_cons_of_forall_mem h.solid c hc, ← pieces_eq,
    List.filter_cons_of_pos (by simpa using h.ne_nil), split]

theorem split_gap {g : List Char} (h : ∀ c ∈ g, isSeparator c = true) (cs : List Char) :
    split (g ++ cs) = split cs := by
  induction g with
  | nil => rfl
  | cons c g ih =>
    have hcut : pieces (c :: (g ++ cs)) = [] :: pieces (g ++ cs) := by
      rw [pieces_eq, List.splitOnP_cons_eq_if_modifyHead, if_pos (h c List.mem_cons_self),
        ← pieces_eq]
    rw [List.cons_append, split, hcut, List.filter_cons_of_neg (by simp), ← split,
      ih fun c hc => h c (List.mem_cons_of_mem _ hc)]

/-- A word and what follows it, each further word behind the gap that stands before it. -/
def spaced (first : List Char) (rest : List (List Char × List Char)) : List Char :=
  first ++ rest.flatMap fun e => e.1 ++ e.2

theorem spaced_cons (first g w : List Char) (rest : List (List Char × List Char)) :
    spaced first ((g, w) :: rest) = first ++ (g ++ spaced w rest) := by
  simp [spaced]

structure Separated (first : List Char) (rest : List (List Char × List Char)) : Prop where
  first : IsWord first
  gaps : ∀ e ∈ rest, IsGap e.1
  words : ∀ e ∈ rest, IsWord e.2

theorem Separated.tail {first g w : List Char} {rest : List (List Char × List Char)}
    (h : Separated first ((g, w) :: rest)) : Separated w rest :=
  ⟨h.words _ List.mem_cons_self, fun e he => h.gaps e (List.mem_cons_of_mem _ he),
    fun e he => h.words e (List.mem_cons_of_mem _ he)⟩

theorem Separated.split_eq {first : List Char} {rest : List (List Char × List Char)}
    (h : Separated first rest) : split (spaced first rest) = first :: rest.map Prod.snd := by
  induction rest generalizing first with
  | nil => simpa [spaced] using split_word h.first
  | cons e rest ih =>
    obtain ⟨g, w⟩ := e
    have hgap := h.gaps _ List.mem_cons_self
    obtain ⟨c, g, rfl⟩ := List.exists_cons_of_ne_nil hgap.ne_nil
    rw [spaced_cons, List.cons_append, split_word_gap h.first (hgap.blank c List.mem_cons_self),
      split_gap fun c hc => hgap.blank c (List.mem_cons_of_mem _ hc), ih h.tail]
    rfl

theorem head?_spaced {first : List Char} (h : first ≠ []) (rest : List (List Char × List Char)) :
    (spaced first rest).head? = first.head? := by
  obtain ⟨c, cs, rfl⟩ := List.exists_cons_of_ne_nil h
  rfl

theorem Separated.getLast?_eq {first : List Char} {rest : List (List Char × List Char)}
    (h : Separated first rest) :
    (spaced first rest).getLast? =
      ((first :: rest.map Prod.snd).getLast (List.cons_ne_nil _ _)).getLast? := by
  induction rest generalizing first with
  | nil => simp [spaced]
  | cons e rest ih =>
    obtain ⟨g, w⟩ := e
    have hne : spaced w rest ≠ [] := by simp [spaced, h.tail.first.ne_nil]
    rw [spaced_cons, List.getLast?_append_of_ne_nil _ (by simp [hne]),
      List.getLast?_append_of_ne_nil _ hne, ih h.tail]
    rfl

theorem Separated.trimmed_iff {first : List Char} {rest : List (List Char × List Char)}
    (h : Separated first rest) :
    Trimmed (spaced first rest) ↔ (∀ c ∈ first.head?, isBlank c = false) ∧
      ∀ c ∈ ((first :: rest.map Prod.snd).getLast (List.cons_ne_nil _ _)).getLast?,
        isBlank c = false := by
  rw [← h.getLast?_eq, ← head?_spaced h.first.ne_nil rest]
  exact ⟨fun h => ⟨h.head, h.last⟩, fun h => ⟨h.1, h.2⟩⟩

/-- By induction on the text: a further separator widens the gap in front, another character the
word in front or, behind a gap, it is a word of its own. -/
theorem exists_separated {cs : List Char} (hne : cs ≠ [])
    (hlast : ∀ c ∈ cs.getLast?, isSeparator c = false) :
    ∃ g first rest, (∀ c ∈ g, isSeparator c = true) ∧ Separated first rest ∧
      cs = g ++ spaced first rest := by
  induction cs with
  | nil => exact absurd rfl hne
  | cons c cs ih =>
    by_cases hend : cs = []
    · subst hend
      exact ⟨[], [c], [], by simp, ⟨⟨by simp, by simpa using hlast⟩, by simp, by simp⟩, rfl⟩
    obtain ⟨g, first, rest, hg, hsep, rfl⟩ :=
      ih hend (by rwa [List.getLast?_cons_of_ne_nil hend] at hlast)
    cases hc : isSeparator c with
    | true => exact ⟨c :: g, first, rest, by simpa [hc] using hg, hsep, rfl⟩
    | false =>
      cases g with
      | nil =>
        refine ⟨[], c :: first, rest, by simp, ⟨⟨by simp, ?_⟩, hsep.gaps, hsep.words⟩, rfl⟩
        simpa [hc] using hsep.first.solid
      | cons s g =>
        refine ⟨[], [c], (s :: g, first) :: rest, by simp, ⟨⟨by simp, by simpa using hc⟩, ?_, ?_⟩,
          by simp [spaced]⟩
        · simpa using ⟨⟨by simp, hg⟩, fun a b hab => hsep.gaps (a, b) hab⟩
        · simpa using ⟨hsep.first, fun a b hab => hsep.words (a, b) hab⟩

theorem Trimmed.exists_separated {cs : List Char} (h : Trimmed cs) (hne : cs ≠ []) :
    ∃ first rest, Separated first rest ∧ cs = spaced first rest := by
  obtain ⟨g, first, rest, hg, hsep, rfl⟩ :=
    Text.exists_separated hne fun c hc => isSeparator_of_not_blank (h.last c hc)
  cases g with
  | nil => exact ⟨first, rest, hsep, rfl⟩
  | cons c g =>
    have hblank := isBlank_of_isSeparator (hg c List.mem_cons_self)
    rw [h.head c rfl] at hblank
    exact absurd hblank Bool.false_ne_true

theorem intercalate_eq_spaced (first : List Char) (ws : List (List Char)) :
    [' '].intercalate (first :: ws) = spaced first (ws.map fun w => ([' '], w)) := by
  induction ws generalizing first with
  | nil => simp [spaced]
  | cons w ws ih => rw [List.intercalate_cons_cons, ih, List.map_cons, spaced_cons]; simp

theorem Separated.single {first : List Char} {rest : List (List Char × List Char)}
    (h : Separated first rest) :
    Separated first ((rest.map Prod.snd).map fun w => ([' '], w)) := by
  refine ⟨h.first, fun e he => ?_, fun e he => ?_⟩
  · obtain ⟨w, -, rfl⟩ := List.mem_map.1 he
    exact ⟨by simp, by simp [isSeparator]⟩
  · obtain ⟨w, hw, rfl⟩ := List.mem_map.1 he
    obtain ⟨d, hd, rfl⟩ := List.mem_map.1 hw
    exact h.words d hd

theorem words_join (line : String) : words (" ".intercalate (words line)) = words line := by
  have htrim := trimmed_trim line.toList
  rw [words_eq line]
  by_cases hne : trim line.toList = []
  · rw [hne]
    rfl
  obtain ⟨first, rest, hsep, hline⟩ := htrim.exists_separated hne
  rw [hline] at htrim ⊢
  have hjoin : (" ".intercalate ((split (spaced first rest)).map String.ofList)).toList =
      spaced first ((rest.map Prod.snd).map fun w => ([' '], w)) := by
    rw [String.toList_intercalate, hsep.split_eq, List.map_map, ← intercalate_eq_spaced]
    simp [Function.comp_def]
  have hsingle := hsep.single
  have hends := hsep.trimmed_iff.1 htrim
  have htrimmed : Trimmed (spaced first ((rest.map Prod.snd).map fun w => ([' '], w))) := by
    refine hsingle.trimmed_iff.2 ⟨hends.1, ?_⟩
    simpa [Function.comp_def] using hends.2
  rw [words_eq, hjoin, htrimmed.trim_eq, hsingle.split_eq, hsep.split_eq]
  simp [Function.comp_def]

/-- A line of words, each word behind the first with the gap before it. -/
def line (first : String) (rest : List (String × String)) : String :=
  first ++ String.join (rest.map fun e => e.1 ++ e.2)

theorem toList_line (first : String) (rest : List (String × String)) :
    (line first rest).toList =
      spaced first.toList (rest.map fun e => (e.1.toList, e.2.toList)) := by
  simp [line, spaced, List.flatMap_map]

theorem words_line {first : String} {rest : List (String × String)}
    (hsep : Separated first.toList (rest.map fun e => (e.1.toList, e.2.toList)))
    (htrim : Trimmed (line first rest).toList) :
    words (line first rest) = first :: rest.map Prod.snd := by
  rw [words_eq, htrim.trim_eq, toList_line, hsep.split_eq]
  simp [Function.comp_def]

end Text

namespace Shell.Command

open Text (line IsGap IsWord isBlank)

theorem words_text_line {command : String} {rest : List (String × String)}
    (hcommand : command = "write" ∨ command = "append") (hne : rest ≠ [])
    (hrest : ∀ e ∈ rest, IsGap e.1.toList ∧ IsWord e.2.toList)
    (hlast : ∀ c ∈ (rest.getLast hne).2.toList.getLast?, isBlank c = false) :
    Text.words (line command rest) = command :: rest.map Prod.snd := by
  have hword : IsWord command.toList ∧ ∀ c ∈ command.toList.head?, isBlank c = false := by
    obtain rfl | rfl := hcommand <;>
      exact ⟨⟨by simp, by simp [Text.isSeparator]⟩, by simp [isBlank]⟩
  have hsep : Text.Separated command.toList (rest.map fun e => (e.1.toList, e.2.toList)) := by
    refine ⟨hword.1, fun e he => ?_, fun e he => ?_⟩ <;>
      obtain ⟨d, hd, rfl⟩ := List.mem_map.1 he
    · exact (hrest d hd).1
    · exact (hrest d hd).2
  refine Text.words_line hsep ?_
  rw [Text.toList_line]
  refine hsep.trimmed_iff.2 ⟨hword.2, ?_⟩
  rw [List.getLast_cons (by simpa using hne), List.getLast_map, List.getLast_map]
  exact hlast

/-- Lines of the same words spell the same command, and a line is read as its words with single
spaces between them. A text is read off the line word by word, whatever the gaps: white space that
does not separate stays in it, except at the very end. -/
theorem words_alone_decide :
    (∀ l : String, ofLine (" ".intercalate (Text.words l)) = ofLine l) ∧
    ∀ (gap name : String) (rest : List (String × String)) (hne : rest ≠ []),
      (∀ e ∈ (gap, name) :: rest, IsGap e.1.toList ∧ IsWord e.2.toList) →
      (∀ c ∈ (rest.getLast hne).2.toList.getLast?, isBlank c = false) →
      ofLine (line "write" ((gap, name) :: rest)) =
          some (write name (" ".intercalate (rest.map Prod.snd))) ∧
        ofLine (line "append" ((gap, name) :: rest)) =
          some (append name (" ".intercalate (rest.map Prod.snd))) := by
  refine ⟨fun l => ?_, fun gap name rest hne hrest hlast => ?_⟩
  · rw [ofLine, ofLine, Text.words_join]
  · have hend : ∀ c ∈ (((gap, name) :: rest).getLast (List.cons_ne_nil _ _)).2.toList.getLast?,
        isBlank c = false := by
      rwa [List.getLast_cons hne]
    obtain ⟨e, rest, rfl⟩ := List.exists_cons_of_ne_nil hne
    constructor
    · rw [ofLine, words_text_line (.inl rfl) (List.cons_ne_nil _ _) hrest hend]
      rfl
    · rw [ofLine, words_text_line (.inr rfl) (List.cons_ne_nil _ _) hrest hend]
      rfl

/-- A vertical tab inside the name and a wide blank in front of a word are kept. -/
theorem wide_blanks_stay_in_words :
    ofLine (line "write" [("\t ", "a\x0bb"), ("\n", "\u3000x"), (" \r", "y")]) =
        some (write "a\x0bb" "\u3000x y") ∧
      ofLine (line "append" [("\t ", "a\x0bb"), ("\n", "\u3000x"), (" \r", "y")]) =
        some (append "a\x0bb" "\u3000x y") :=
  words_alone_decide.2 "\t " "a\x0bb" [("\n", "\u3000x"), (" \r", "y")] (by simp)
    (by
      intro e he
      simp only [List.mem_cons, List.not_mem_nil, or_false] at he
      obtain rfl | rfl | rfl := he <;>
        exact ⟨⟨by simp, by simp [Text.isSeparator]⟩, by simp, by simp [Text.isSeparator]⟩)
    (by simp [isBlank])

end Shell.Command

end ExtentVolume
