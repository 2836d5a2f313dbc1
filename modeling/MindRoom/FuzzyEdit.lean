import MindRoom.FuzzyMatch

/-! # The text a fuzzy edit replaces

The line a position of the normalized text is mapped to is the line with its number in the content. It is the line the
position lies in as long as the lines before it are normalized to as many lines.
-/

namespace MindRoom

open InteractiveText (isSpace rstrip)
open Occurrences (OccursAt Apart Unique find scan)

namespace FuzzyText

/-! ## Line numbers -/

section

variable {before after : List (List Char)} {line : List Char} {offset p : Nat}

theorem getElem?_offsetsFrom (before after : List (List Char)) (offset : Nat) :
    (offsetsFrom offset (before ++ after))[before.length]? = some (offset + before.flatten.length) := by
  induction before generalizing offset with
  | nil => cases after <;> rfl
  | cons line before ih =>
    rw [List.cons_append, offsetsFrom, List.length_cons, List.getElem?_cons_succ, ih, List.flatten_cons,
      List.length_append, Nat.add_assoc]

theorem offsetsFrom_cons (offset : Nat) (lines : List (List Char)) : ∃ more, offsetsFrom offset lines = offset :: more := by
  cases lines with
  | nil => exact ⟨[], rfl⟩
  | cons line lines => exact ⟨_, rfl⟩

theorem bisectRight_cons_of_le {offsets : List Nat} (hle : offset ≤ p) :
    bisectRight (offset :: offsets) p = bisectRight offsets p + 1 := by
  rw [bisectRight, List.takeWhile_cons, if_pos (decide_eq_true hle)]
  rfl

theorem bisectRight_cons_of_lt {offsets : List Nat} (hlt : p < offset) : bisectRight (offset :: offsets) p = 0 := by
  rw [bisectRight, List.takeWhile_cons, if_neg (by simpa using hlt)]
  rfl

/-- The lines that end at or before a position are passed over. -/
theorem bisectRight_append (before after : List (List Char)) (hle : offset + before.flatten.length ≤ p) :
    bisectRight (offsetsFrom offset (before ++ after)) p =
      before.length + bisectRight (offsetsFrom (offset + before.flatten.length) after) p := by
  induction before generalizing offset with
  | nil => rw [List.nil_append, List.length_nil, Nat.zero_add]; rfl
  | cons line before ih =>
    rw [List.flatten_cons, List.length_append, ← Nat.add_assoc] at hle
    rw [List.cons_append, offsetsFrom, bisectRight_cons_of_le (by omega), ih hle, List.flatten_cons, List.length_append,
      ← Nat.add_assoc, List.length_cons]
    omega

/-- The line that starts at or before a position is counted. -/
theorem bisectRight_pos (lines : List (List Char)) (hle : offset ≤ p) : 0 < bisectRight (offsetsFrom offset lines) p := by
  obtain ⟨more, hoffsets⟩ := offsetsFrom_cons offset lines
  rw [hoffsets, bisectRight_cons_of_le hle]
  exact Nat.succ_pos _

/-- No line behind the one a position lies in is counted. -/
theorem bisectRight_line (hle : offset ≤ p) (hlt : p < offset + line.length) :
    bisectRight (offsetsFrom offset (line :: after)) p = 1 := by
  obtain ⟨more, hoffsets⟩ := offsetsFrom_cons (offset + line.length) after
  rw [offsetsFrom, bisectRight_cons_of_le hle, hoffsets, bisectRight_cons_of_lt hlt]

end

/-! ## Places of normalized positions -/

/-- A position of the normalized text lies in the normalized form of a line of the content: the lines before that line
are normalized to as many lines of the normalized text, and nothing is composed across the position. -/
structure Located (nfc : List Char → List Char) (content : List Char) (p : Nat) (before : List (List Char))
    (body ending : List Char) (after : List (List Char)) (j : Nat) : Prop where
  place : Place content before body ending after
  lines : ∃ normBefore normRest, linesOf (normalizeForFuzzy nfc content) = normBefore ++ normRest ∧
    normBefore.length = before.length ∧ normBefore.flatten = normalizeForFuzzy nfc before.flatten ∧
      ∀ line more, normRest = line :: more → j < line.length ∨ more = [] ∧ after = []
  position : p = (normalizeForFuzzy nfc before.flatten).length + j
  within : j ≤ (normalizedLine nfc body ending).length
  boundary : j < (rstrip (composed nfc body)).length → AtBoundary nfc body j

section

variable {nfc : List Char → List Char} {content body ending body' ending' : List Char}
  {before after before' after' : List (List Char)} {p p' j j' : Nat}

/-- The code takes the line of the place, and the offset in it. -/
theorem Located.lineIdx (hl : Located nfc content p before body ending after j) :
    min (bisectRight (cumulativeOffsets (linesOf (normalizeForFuzzy nfc content))) p - 1)
        ((buildNormalizedLineMaps nfc (linesOf content)).length - 1) = before.length ∧
      (cumulativeOffsets (linesOf (normalizeForFuzzy nfc content)))[before.length]? =
        some (normalizeForFuzzy nfc before.flatten).length := by
  obtain ⟨normBefore, normRest, hlines, hlength, hflatten, hrest⟩ := hl.lines
  have hposition := hl.position
  have hcount : (buildNormalizedLineMaps nfc (linesOf content)).length = before.length + (after.length + 1) := by
    rw [buildNormalizedLineMaps, List.length_map, hl.place.lines, List.length_append, List.length_cons]
  have hle : 0 + normBefore.flatten.length ≤ p := by
    rw [hflatten]
    omega
  have hbisect := bisectRight_append normBefore normRest hle
  have hpos := bisectRight_pos normRest hle
  constructor
  · rw [hcount, hlines, cumulativeOffsets, hbisect]
    cases normRest with
    | nil =>
      have hone : bisectRight (offsetsFrom (0 + normBefore.flatten.length) []) p = 1 :=
        bisectRight_cons_of_le hle
      omega
    | cons line more =>
      rcases hrest line more rfl with hlt | ⟨-, hafter⟩
      · have hone : bisectRight (offsetsFrom (0 + normBefore.flatten.length) (line :: more)) p = 1 := by
          refine bisectRight_line hle ?_
          rw [hflatten]
          omega
        omega
      · rw [hafter, List.length_nil]
        omega
  · rw [hlines, cumulativeOffsets, ← hlength, getElem?_offsetsFrom, Nat.zero_add, hflatten]

/-- The position of the content: the one of its line that corresponds to the offset. -/
theorem Located.origOffset (h : IsNfc nfc) (hl : Located nfc content p before body ending after j) :
    ∃ i, FuzzyText.origOffset nfc content p = before.flatten.length + i ∧
      (normalizedLineMap nfc (body ++ ending)).normToOrig[j]? = some i ∧ Corresponds nfc body ending i j ∧
        ((j = (rstrip (composed nfc body)).length → KeepsEnd nfc body) → KeepsBefore nfc body ending i j) := by
  obtain ⟨i, hget, hcorresponds, hkeeps⟩ := normToOrig_corresponds h hl.place.split hl.within hl.boundary
  refine ⟨i, ?_, hget, hcorresponds, hkeeps⟩
  obtain ⟨hidx, hnorm⟩ := hl.lineIdx
  have hmap : (buildNormalizedLineMaps nfc (linesOf content))[before.length]? =
      some (normalizedLineMap nfc (body ++ ending)) := by
    rw [buildNormalizedLineMaps, hl.place.lines, List.map_append, List.getElem?_append_right (by simp), List.length_map,
      Nat.sub_self]
    rfl
  have horig : (cumulativeOffsets (linesOf content))[before.length]? = some before.flatten.length := by
    rw [cumulativeOffsets, hl.place.lines, getElem?_offsetsFrom, Nat.zero_add]
  have hchar : min (p - (normalizeForFuzzy nfc before.flatten).length)
      (normalizedLineMap nfc (body ++ ending)).normLen = j := by
    have hwithin := hl.within
    have hposition := hl.position
    rw [normalizedLineMap_eq hl.place.split]
    dsimp only
    omega
  have hfits : before.flatten.length + i ≤ content.length := by
    have hcontent := congrArg List.length hl.place.content_eq
    have hfits := hcorresponds.fits
    rw [List.length_append, List.length_append] at hcontent
    omega
  rw [FuzzyText.origOffset, normToOrigOffset, hidx]
  dsimp only
  rw [hmap, hnorm, horig]
  dsimp only [Option.getD_some]
  rw [hchar, hget, Option.getD_some, min_eq_left hfits]

/-! ### Order -/

theorem Located.same_line (hl : Located nfc content p before body ending after j)
    (hl' : Located nfc content p' before' body' ending' after' j') (hlength : before.length = before'.length) :
    before = before' ∧ body = body' ∧ ending = ending' := by
  have hlines := hl.place.lines.symm.trans hl'.place.lines
  obtain ⟨hbefore, hrest⟩ := List.append_inj hlines hlength
  have hline := (List.cons.inj hrest).1
  have hsplit := hl.place.split.split_eq
  rw [hline, hl'.place.split.split_eq, Prod.mk.injEq] at hsplit
  exact ⟨hbefore, hsplit.1.symm, hsplit.2.symm⟩

/-- A position that is not behind another lies in no later line. -/
theorem Located.length_before_le (hl : Located nfc content p before body ending after j)
    (hl' : Located nfc content p' before' body' ending' after' j') (hle : p ≤ p') : before.length ≤ before'.length := by
  obtain ⟨normBefore, normRest, hlines, hlength, hflatten, -⟩ := hl.lines
  obtain ⟨normBefore', normRest', hlines', hlength', hflatten', hrest'⟩ := hl'.lines
  have hposition := hl.position
  have hposition' := hl'.position
  by_contra hlt
  -- the line of the second position is one of those before the first
  have hprefix : normBefore' <+: normBefore :=
    List.prefix_of_prefix_length_le ⟨normRest', hlines'.symm⟩ ⟨normRest, hlines.symm⟩ (by omega)
  obtain ⟨between, hbetween⟩ := hprefix
  rw [hlines, ← hbetween, List.append_assoc, List.append_cancel_left_eq] at hlines'
  cases between with
  | nil =>
    rw [List.append_nil] at hbetween
    rw [← hbetween] at hlength
    omega
  | cons line between =>
    rcases hrest' line _ hlines'.symm with hj | ⟨-, hafter⟩
    · rw [← hflatten, ← hbetween, List.flatten_append, List.flatten_cons, List.length_append, List.length_append,
        hflatten'] at hposition
      omega
    · have hcount := congrArg List.length (hl.place.lines.symm.trans hl'.place.lines)
      rw [List.length_append, List.length_append, List.length_cons, List.length_cons, hafter, List.length_nil] at hcount
      omega

theorem pairwise_getElem? {offsets : List Nat} (hsorted : offsets.Pairwise (· ≤ ·)) {i i' : Nat} (hle : j ≤ j')
    (hi : offsets[j]? = some i) (hi' : offsets[j']? = some i') : i ≤ i' := by
  obtain ⟨hj, rfl⟩ := List.getElem?_eq_some_iff.mp hi
  obtain ⟨hj', rfl⟩ := List.getElem?_eq_some_iff.mp hi'
  rcases Nat.eq_or_lt_of_le hle with rfl | hlt
  · exact le_rfl
  · exact List.pairwise_iff_getElem.mp hsorted j j' hj hj' hlt

/-- The positions of a match are in order. -/
theorem Located.origOffset_le (h : IsNfc nfc) (hl : Located nfc content p before body ending after j)
    (hl' : Located nfc content p' before' body' ending' after' j') (hle : p ≤ p') :
    FuzzyText.origOffset nfc content p ≤ FuzzyText.origOffset nfc content p' ∧
      FuzzyText.origOffset nfc content p' ≤ content.length := by
  obtain ⟨i, hi, hget, hcorresponds, -⟩ := hl.origOffset h
  obtain ⟨i', hi', hget', hcorresponds', -⟩ := hl'.origOffset h
  have hfits' : before'.flatten.length + i' ≤ content.length := by
    have hcontent := congrArg List.length hl'.place.content_eq
    have hfits := hcorresponds'.fits
    rw [List.length_append, List.length_append] at hcontent
    omega
  refine ⟨?_, hi' ▸ hfits'⟩
  rw [hi, hi']
  rcases Nat.eq_or_lt_of_le (hl.length_before_le hl' hle) with heq | hlt
  · obtain ⟨rfl, rfl, rfl⟩ := hl.same_line hl' heq
    have hj : j ≤ j' := by
      have hposition := hl.position
      have hposition' := hl'.position
      omega
    exact Nat.add_le_add_left (pairwise_getElem? (normToOrig_sorted hl.place.split) hj hget hget') _
  · -- the whole line lies before the line of the second position
    have hprefix : before ++ [body ++ ending] <+: before' := by
      refine List.prefix_of_prefix_length_le ?_ (List.prefix_append before' ((body' ++ ending') :: after'))
        (by simpa using hlt)
      rw [← hl'.place.lines, hl.place.lines]
      exact ⟨after, by simp⟩
    obtain ⟨more, hmore⟩ := hprefix
    have hlength := congrArg (List.length ∘ List.flatten) hmore
    have hfits := hcorresponds.fits
    simp only [Function.comp_apply, List.flatten_append, List.flatten_singleton, List.length_append] at hlength hfits
    omega

end

/-! ## The replaced text -/

section

variable (nfc : List Char → List Char) (content oldText : List Char)

/-- The normalized text is found at one position of the normalized content only, and the text not at all. -/
structure MatchedAt (p : Nat) : Prop where
  absent : ∀ q, ¬OccursAt oldText content q
  nonblank : InteractiveText.strip (normalizeForFuzzy nfc oldText) ≠ []
  found : find (normalizeForFuzzy nfc oldText) (normalizeForFuzzy nfc content) 0 = some p
  alone : ∀ q, p + (normalizeForFuzzy nfc oldText).length ≤ q →
    ¬OccursAt (normalizeForFuzzy nfc oldText) (normalizeForFuzzy nfc content) q

/-- A single fuzzy match is in the content, and a mark in its place is normalized to a mark in the place of what was
found. -/
def ReplacesMatched : Prop :=
  ∀ found p, findAllMatches nfc content oldText = [found] → found.wasFuzzy = true →
    find (normalizeForFuzzy nfc oldText) (normalizeForFuzzy nfc content) 0 = some p →
      found.start ≤ found.stop ∧ found.stop ≤ content.length ∧
        normalizeForFuzzy nfc (content.take found.start ++ '#' :: content.drop found.stop) =
          (normalizeForFuzzy nfc content).take p ++
            '#' :: (normalizeForFuzzy nfc content).drop (p + (normalizeForFuzzy nfc oldText).length)

/-- The position lies in the normalized form of the line with the same number. -/
def Locatable (p : Nat) : Prop := ∃ before body ending after j, Located nfc content p before body ending after j

/-- The position is not the end of a body without the blanks at its end. -/
def PlainStart (p : Nat) : Prop :=
  ∃ before body ending after j, Located nfc content p before body ending after j ∧
    (j = (rstrip (composed nfc body)).length → KeepsEnd nfc body)

variable {nfc content oldText} {p : Nat}

/-- The single fuzzy match of a text. -/
theorem findAllMatches_fuzzy_singleton {found : MatchResult} :
    findAllMatches nfc content oldText = [found] ∧ found.wasFuzzy = true ↔ ∃ p, MatchedAt nfc content oldText p ∧
        { start := origOffset nfc content p
          stop := origOffset nfc content (p + (normalizeForFuzzy nfc oldText).length)
          wasFuzzy := true } = found := by
  by_cases hoccurs : ∃ q, OccursAt oldText content q
  · obtain ⟨q, hq⟩ := hoccurs
    constructor
    · rintro ⟨hfound, hfuzzy⟩
      by_cases hold : oldText = []
      · rw [findAllMatches, if_pos hold] at hfound
        cases hfound
      · rw [findAllMatches_exact hold hq, exactMatches, List.map_eq_singleton_iff] at hfound
        obtain ⟨p, -, rfl⟩ := hfound
        cases hfuzzy
    · rintro ⟨p, hp, -⟩
      exact absurd hq (hp.absent q)
  · have habsent : ∀ q, ¬OccursAt oldText content q := fun q hq => hoccurs ⟨q, hq⟩
    have hold : oldText ≠ [] := by
      rintro rfl
      exact habsent 0 ⟨Nat.zero_le _, List.nil_prefix⟩
    rw [findAllMatches_fuzzy hold habsent]
    by_cases hnorm : InteractiveText.strip (normalizeForFuzzy nfc oldText) = []
    · rw [fuzzyMatches_blank hnorm]
      constructor
      · rintro ⟨hfound, -⟩
        exact absurd hfound.symm (List.cons_ne_nil _ _)
      · rintro ⟨p, hp, -⟩
        exact absurd hnorm hp.nonblank
    · have hne : normalizeForFuzzy nfc oldText ≠ [] := by
        intro hnil
        rw [hnil] at hnorm
        exact hnorm rfl
      rw [fuzzyMatches_eq hnorm, List.map_eq_singleton_iff]
      constructor
      · rintro ⟨⟨p, hscan, rfl⟩, -⟩
        obtain ⟨hfind, halone⟩ := (Occurrences.scan_eq_singleton hne (by omega)).mp hscan
        exact ⟨p, ⟨habsent, hnorm, hfind, halone⟩, rfl⟩
      · rintro ⟨p, hp, rfl⟩
        exact ⟨⟨p, (Occurrences.scan_eq_singleton hne (by omega)).mpr ⟨hp.found, hp.alone⟩, rfl⟩, rfl⟩

/-- What is replaced for a match at a position of the normalized content. -/
def ReplacedAt (nfc : List Char → List Char) (content oldText : List Char) (p : Nat) : Prop :=
  origOffset nfc content p ≤ origOffset nfc content (p + (normalizeForFuzzy nfc oldText).length) ∧
    origOffset nfc content (p + (normalizeForFuzzy nfc oldText).length) ≤ content.length ∧
      normalizeForFuzzy nfc (content.take (origOffset nfc content p) ++
          '#' :: content.drop (origOffset nfc content (p + (normalizeForFuzzy nfc oldText).length))) =
        (normalizeForFuzzy nfc content).take p ++
          '#' :: (normalizeForFuzzy nfc content).drop (p + (normalizeForFuzzy nfc oldText).length)

theorem replacesMatched_iff : ReplacesMatched nfc content oldText ↔
    ∀ p, MatchedAt nfc content oldText p → ReplacedAt nfc content oldText p := by
  constructor
  · intro hreplaces p hp
    obtain ⟨hfound, hfuzzy⟩ := findAllMatches_fuzzy_singleton.mpr ⟨p, hp, rfl⟩
    exact hreplaces _ p hfound hfuzzy hp.found
  · intro hreplaced found p hfound hfuzzy hfind
    obtain ⟨q, hq, rfl⟩ := findAllMatches_fuzzy_singleton.mp ⟨hfound, hfuzzy⟩
    obtain rfl : q = p := Option.mem_unique hq.found hfind
    exact hreplaced q hq

/-- The blanks before a mark at the end of a body stay. -/
theorem keepsEnd_of_replaced (h : IsNfc nfc) {before before' after after' : List (List Char)}
    {body ending body' ending' : List Char} {j j' : Nat} (hl : Located nfc content p before body ending after j)
    (hl' : Located nfc content (p + (normalizeForFuzzy nfc oldText).length) before' body' ending' after' j')
    (hreplaced : ReplacedAt nfc content oldText p) (hj : j = (rstrip (composed nfc body)).length) :
    KeepsEnd nfc body := by
  rcases hl.place.split.oneLine with hbody | ⟨init, c, -, hc, -, rfl, -⟩
  · obtain ⟨i, hi, hget, -, -⟩ := hl.origOffset h
    obtain ⟨i', hi', -, hcorresponds', -⟩ := hl'.origOffset h
    have hend : (normalizedLineMap nfc (body ++ ending)).normToOrig[(rstrip (composed nfc body)).length + 0]? =
        some (body.length + 0) := normToOrig_ending hl.place.split (Nat.zero_le ending.length)
    rw [Nat.add_zero, Nat.add_zero, ← hj, hget, Option.some.injEq] at hend
    have htake : content.take (before.flatten.length + body.length) = before.flatten ++ body := by
      conv_lhs => rw [hl.place.content_eq]
      rw [List.take_length_add_append, List.append_assoc, List.take_left]
    have hmark := hreplaced.2.2
    rw [hi, hi', hend, htake, List.append_assoc, hl.place.normalize_before h, normalizeForFuzzy_mark h hbody,
      hl'.place.normalize_behind h hcorresponds', ← hl'.position] at hmark
    have hlength := congrArg List.length hmark
    have hposition := hl.position
    simp only [List.length_append, List.length_cons, List.length_take] at hlength
    obtain ⟨blanks, hsplit, -, -⟩ := rstrip_split (composed nfc body)
    have hblanks := congrArg List.length hsplit
    rw [List.length_append] at hblanks
    have hnil : blanks = [] := List.eq_nil_of_length_eq_zero (by omega)
    rw [hnil, List.append_nil] at hsplit
    exact .inr hsplit.symm
  · exact .inl ⟨init, c, rfl, hc⟩

/-- A match whose ends are located is replaced exactly if it does not start behind blanks that are stripped. -/
theorem replacedAt_iff (h : IsNfc nfc) (hstart : Locatable nfc content p)
    (hend : Locatable nfc content (p + (normalizeForFuzzy nfc oldText).length)) :
    ReplacedAt nfc content oldText p ↔ PlainStart nfc content p := by
  obtain ⟨before', body', ending', after', j', hl'⟩ := hend
  constructor
  · intro hreplaced
    obtain ⟨before, body, ending, after, j, hl⟩ := hstart
    exact ⟨before, body, ending, after, j, hl, keepsEnd_of_replaced h hl hl' hreplaced⟩
  · rintro ⟨before, body, ending, after, j, hl, hkeeps⟩
    obtain ⟨i, hi, -, hcorresponds, hbefore⟩ := hl.origOffset h
    obtain ⟨i', hi', -, hcorresponds', -⟩ := hl'.origOffset h
    obtain ⟨hle, hlength⟩ := hl.origOffset_le h hl' (Nat.le_add_right p _)
    refine ⟨hle, hlength, ?_⟩
    have hmark := normalize_replaced h hl.place hl'.place hcorresponds (hbefore hkeeps) hcorresponds'
    rw [hi, hi', hmark, ← hl.position, ← hl'.position]

/-! ## Edits -/

/-- An edit rewrites the file for several occurrences exactly if these overlap, and a fuzzy match whose ends lie in lines
with the number of their lines in the normalized content is what is replaced exactly if it does not start behind blanks
that are stripped. -/
theorem edit_replaces_matched (h : IsNfc nfc) (content oldText : List Char) :
    (EditsUnique nfc content oldText ↔ CountedApart nfc content oldText) ∧ ((∀ p, MatchedAt nfc content oldText p →
          Locatable nfc content p ∧ Locatable nfc content (p + (normalizeForFuzzy nfc oldText).length)) →
        (ReplacesMatched nfc content oldText ↔ ∀ p, MatchedAt nfc content oldText p → PlainStart nfc content p)) := by
  refine ⟨editsUnique_iff, fun hlocated => ?_⟩
  rw [replacesMatched_iff]
  refine forall₂_congr fun p hp => ?_
  obtain ⟨hstart, hend⟩ := hlocated p hp
  exact replacedAt_iff h hstart hend

/-- A text in composed form whose parts are too. -/
theorem isNfc_id : IsNfc id where
  empty := rfl
  nonempty _ htext := htext
  part _ _ _ _ := rfl
  isolated _ _ _ _ := rfl
  created _ _ _ hc := hc

def straightQuotes : List Char := ['\x22', 'x', '\x22']

def curlyQuotes : List Char := ['\u201c', 'x', '\u201d']

theorem located_curlyQuotes {j : Nat} (hj : j ≤ 3) : Located id curlyQuotes j [] curlyQuotes [] [] j where
  place := ⟨by decide, ⟨.inl rfl, .inl (by simp [curlyQuotes, isLineBreak])⟩, fun h => absurd rfl h⟩
  lines := by
    refine ⟨[], [straightQuotes], by decide, rfl, by decide, fun line more heq => .inr ⟨?_, rfl⟩⟩
    exact (List.cons.inj heq).2.symm
  position := by
    have hnil : normalizeForFuzzy id ([] : List (List Char)).flatten = [] := rfl
    rw [hnil, List.length_nil, Nat.zero_add]
  within := by
    have hline : normalizedLine id curlyQuotes [] = straightQuotes := by decide
    rw [hline]
    exact hj
  boundary _ := .inl rfl

theorem edit_replaces_curlyQuotes :
    EditsUnique id curlyQuotes straightQuotes ∧ ReplacesMatched id curlyQuotes straightQuotes := by
  obtain ⟨hunique, hreplaces⟩ := edit_replaces_matched isNfc_id curlyQuotes straightQuotes
  have hold : normalizeForFuzzy id straightQuotes = straightQuotes := by decide
  have hcontent : normalizeForFuzzy id curlyQuotes = straightQuotes := by decide
  have hfirst : ∀ p, MatchedAt id curlyQuotes straightQuotes p → p = 0 := by
    intro p hp
    have hfits := (Occurrences.find_eq_some.mp hp.found).2.1.fits
    rw [hold, hcontent] at hfits
    omega
  have hone : ∀ {text : List Char}, text.length = 3 → Apart straightQuotes text := by
    intro text htext p q hlt _ hq
    have hfits := hq.fits
    have hlength : straightQuotes.length = 3 := rfl
    omega
  refine ⟨hunique.mpr ⟨hone rfl, fun _ _ => ?_⟩, (hreplaces fun p hp => ?_).mpr fun p hp => ?_⟩
  · rw [hold, hcontent]
    exact hone rfl
  · rw [hfirst p hp, hold]
    exact ⟨⟨_, _, _, _, _, located_curlyQuotes (Nat.zero_le 3)⟩, ⟨_, _, _, _, _, located_curlyQuotes le_rfl⟩⟩
  · rw [hfirst p hp]
    have hline : rstrip (composed id curlyQuotes) = straightQuotes := by decide
    refine ⟨[], curlyQuotes, [], [], 0, located_curlyQuotes (Nat.zero_le 3), fun hstart => ?_⟩
    rw [hline] at hstart
    cases hstart

/-- A form feed, and a line in curly quotes two lines behind it. -/
def formFeedContent : List Char := ['a', '\x0c', 'b', '\n', '\u201c', 'x', '\u201d', '\n']

/-- A line separator that is stripped moves an edit to the line before, and an edit is made where the text occurs twice. -/
theorem edit_replaces_other_line : IsNfc id ∧
    findAllMatches id formFeedContent straightQuotes = [{ start := 2, stop := 4, wasFuzzy := true }] ∧
      ¬ReplacesMatched id formFeedContent straightQuotes ∧ ¬EditsUnique id ['a', 'a', 'a'] ['a', 'a'] := by
  refine ⟨isNfc_id, by decide +kernel, fun hreplaces => ?_, fun hunique => ?_⟩
  · have hfound := hreplaces { start := 2, stop := 4, wasFuzzy := true } 3 (by decide +kernel) rfl (by decide +kernel)
    exact absurd hfound.2.2 (by decide +kernel)
  · rw [editsUnique_iff] at hunique
    obtain ⟨p, q, hle, -, hq⟩ := hunique.1 0 1 (by decide) (by decide) (by decide)
    have hfits := hq.fits
    simp only [List.length_cons, List.length_nil] at hle hfits
    omega

end

end FuzzyText

end MindRoom
