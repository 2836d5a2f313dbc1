import MindRoom.FuzzyMaps
import MindRoom.Occurrences

/-! # Fuzzy edits

`_find_all_matches` and `edit_file` of `custom_tools/coding.py`. A text that does not occur in a file is searched for
in the normalized file, and what is found there is mapped back by the lines of both. That hits the matched text as
long as the lines before it are lines of the normalized file too, and a match that starts where blanks were stripped
leaves them in the file. Occurrences that overlap are counted as one.
-/

namespace MindRoom

open InteractiveText (isSpace rstrip)
open Occurrences (OccursAt Apart Unique find scan)

namespace FuzzyText

/-! ## Offsets -/

/-- The offsets at which lines start, with the end of the last one. -/
def offsetsFrom (offset : Nat) : List (List Char) → List Nat
  | [] => [offset]
  | line :: lines => offset :: offsetsFrom (offset + line.length) lines

def cumulativeOffsets (lines : List (List Char)) : List Nat := offsetsFrom 0 lines

/-- `bisect.bisect_right` on offsets that never decrease. -/
def bisectRight (offsets : List Nat) (offset : Nat) : Nat := (offsets.takeWhile (· ≤ offset)).length

def buildNormalizedLineMaps (nfc : List Char → List Char) (origLines : List (List Char)) : List NormalizedLineMap :=
  origLines.map (normalizedLineMap nfc)

def normToOrigOffset (normOffset : Nat) (normOffsets origOffsets : List Nat) (lineMaps : List NormalizedLineMap)
    (contentLen : Nat) : Nat :=
  let lineIdx := min (bisectRight normOffsets normOffset - 1) (lineMaps.length - 1)
  match lineMaps[lineIdx]? with
  -- there are no lines
  | none => 0
  | some lineMap =>
    let charInNormLine := min (normOffset - (normOffsets[lineIdx]?).getD 0) lineMap.normLen
    let origInLine := (lineMap.normToOrig[charInNormLine]?).getD 0
    min ((origOffsets[lineIdx]?).getD 0 + origInLine) contentLen

/-! ## Matches -/

structure MatchResult where
  start : Nat
  stop : Nat
  wasFuzzy : Bool
deriving DecidableEq

def exactMatches (content oldText : List Char) : List MatchResult :=
  (scan oldText content (content.length + 1) 0).map fun idx =>
    { start := idx, stop := idx + oldText.length, wasFuzzy := false }

section

variable (nfc : List Char → List Char)

/-- The position of a content that an offset of its normalized text is mapped to. -/
def origOffset (content : List Char) (normOffset : Nat) : Nat :=
  let origLines := linesOf content
  normToOrigOffset normOffset (cumulativeOffsets (linesOf (normalizeForFuzzy nfc content)))
    (cumulativeOffsets origLines) (buildNormalizedLineMaps nfc origLines) content.length

def fuzzyMatches (content oldText : List Char) : List MatchResult :=
  let normContent := normalizeForFuzzy nfc content
  let normOld := normalizeForFuzzy nfc oldText
  if normOld = [] ∨ InteractiveText.strip normOld = [] then []
  else (scan normOld normContent (normContent.length + 1) 0).map fun idx =>
    { start := origOffset nfc content idx, stop := origOffset nfc content (idx + normOld.length), wasFuzzy := true }

/-- Find all non-overlapping occurrences, trying exact match first then fuzzy. -/
def findAllMatches (content oldText : List Char) : List MatchResult :=
  if oldText = [] then []
  else if exactMatches content oldText ≠ [] then exactMatches content oldText
  else fuzzyMatches nfc content oldText

/-- What an edit answers, and what it rewrites the file with, if it does. -/
structure EditOutcome where
  reply : String
  rewritten : Option (List Char)

def appliedReply (makeDiff : List Char → List Char → String) (content newContent : List Char) (found : MatchResult) :
    String :=
  let fuzzyNote := if found.wasFuzzy then " (fuzzy match: whitespace/Unicode normalized)" else ""
  let lineNum := (content.take found.start).count '\n' + 1
  "Applied edit at line " ++ toString lineNum ++ fuzzyNote ++ ":\n\n" ++ makeDiff content newContent

/-- `edit_file`, with what reading the file gives, the error of writing a content to it, and the text of a diff. -/
def editFile (makeDiff : List Char → List Char → String) (read : Except String (List Char))
    (writeError : List Char → Option String) (oldText newText : List Char) : EditOutcome :=
  if oldText = [] then { reply := "Error: old_text must be non-empty.", rewritten := none }
  else match read with
    | .error message => { reply := message, rewritten := none }
    | .ok content =>
      match findAllMatches nfc content oldText with
      | [] => { reply := "Error: old_text not found in file.", rewritten := none }
      | [found] =>
        let newContent := content.take found.start ++ newText ++ content.drop found.stop
        let reply := match writeError newContent with
          | some message => "Error writing file: " ++ message
          | none => appliedReply makeDiff content newContent found
        { reply := reply, rewritten := some newContent }
      | found => { reply := "Error: old_text matches " ++ toString found.length ++
          " locations. Provide more context to make the match unique.", rewritten := none }

end

/-! ### Single matches -/

section

variable {nfc : List Char → List Char} {content oldText newText updated : List Char} {found : MatchResult} {p : Nat}

/-- The file is rewritten exactly if there is a single match. -/
theorem editFile_rewritten (makeDiff : List Char → List Char → String) (writeError : List Char → Option String) :
    (editFile nfc makeDiff (.ok content) writeError oldText newText).rewritten = some updated ↔
      ∃ found, findAllMatches nfc content oldText = [found] ∧
        updated = content.take found.start ++ newText ++ content.drop found.stop := by
  by_cases hold : oldText = []
  · have hnone : findAllMatches nfc content oldText = [] := if_pos hold
    rw [editFile, if_pos hold, hnone]
    constructor
    · rintro ⟨⟩
    · rintro ⟨found, hfound, -⟩
      exact absurd hfound.symm (List.cons_ne_nil _ _)
  · rw [editFile, if_neg hold]
    dsimp only
    rcases findAllMatches nfc content oldText with _ | ⟨found, _ | ⟨next, more⟩⟩
    · simp
    · simp [eq_comm]
    · simp

theorem exactMatches_eq_nil : exactMatches content oldText = [] ↔ ∀ q, ¬OccursAt oldText content q := by
  rw [exactMatches, List.map_eq_nil_iff, Occurrences.scan_eq_nil (by omega)]
  exact ⟨fun h q => h q (Nat.zero_le q), fun h q _ => h q⟩

/-- Without an occurrence the normalized text is searched for. -/
theorem findAllMatches_fuzzy (hold : oldText ≠ []) (habsent : ∀ q, ¬OccursAt oldText content q) :
    findAllMatches nfc content oldText = fuzzyMatches nfc content oldText := by
  rw [findAllMatches, if_neg hold, if_neg (not_not_intro (exactMatches_eq_nil.mpr habsent))]

theorem findAllMatches_exact (hold : oldText ≠ []) (hoccurs : OccursAt oldText content p) :
    findAllMatches nfc content oldText = exactMatches content oldText := by
  rw [findAllMatches, if_neg hold, if_pos fun hnil => exactMatches_eq_nil.mp hnil p hoccurs]

theorem exists_map_eq_singleton {α β : Type} {f : α → β} {l : List α} : (∃ b, l.map f = [b]) ↔ ∃ a, l = [a] := by
  constructor
  · rintro ⟨b, hb⟩
    obtain ⟨a, ha, -⟩ := List.map_eq_singleton_iff.mp hb
    exact ⟨a, ha⟩
  · rintro ⟨a, rfl⟩
    exact ⟨f a, rfl⟩

theorem fuzzyMatches_eq (hnorm : InteractiveText.strip (normalizeForFuzzy nfc oldText) ≠ []) :
    fuzzyMatches nfc content oldText =
      (scan (normalizeForFuzzy nfc oldText) (normalizeForFuzzy nfc content)
        ((normalizeForFuzzy nfc content).length + 1) 0).map fun idx =>
          { start := origOffset nfc content idx
            stop := origOffset nfc content (idx + (normalizeForFuzzy nfc oldText).length)
            wasFuzzy := true } := by
  rw [fuzzyMatches, if_neg]
  rintro (hnil | hblank)
  · rw [hnil] at hnorm
    exact hnorm rfl
  · exact hnorm hblank

theorem fuzzyMatches_blank (hnorm : InteractiveText.strip (normalizeForFuzzy nfc oldText) = []) :
    fuzzyMatches nfc content oldText = [] := by
  rw [fuzzyMatches, if_pos (.inr hnorm)]

end

/-! ## Counting -/

section

variable (nfc : List Char → List Char) (content oldText : List Char)

/-- The text occurs at exactly one position of the content, or at none and its normalized form at exactly one position
of the normalized content. -/
def OccursOnce : Prop :=
  Unique oldText content ∨
    (∀ p, ¬OccursAt oldText content p) ∧ Unique (normalizeForFuzzy nfc oldText) (normalizeForFuzzy nfc content)

/-- The file is only rewritten if the text occurs once. -/
def EditsUnique : Prop :=
  ∀ makeDiff writeError newText updated,
    (editFile nfc makeDiff (.ok content) writeError oldText newText).rewritten = some updated →
      OccursOnce nfc content oldText

/-- Where the text occurs several times, two occurrences do not overlap, and likewise for the normalized text if that is
what is searched for. -/
def CountedApart : Prop :=
  Apart oldText content ∧
    ((∀ p, ¬OccursAt oldText content p) → InteractiveText.strip (normalizeForFuzzy nfc oldText) ≠ [] →
      Apart (normalizeForFuzzy nfc oldText) (normalizeForFuzzy nfc content))

variable {nfc content oldText}

theorem editsUnique_iff_single : EditsUnique nfc content oldText ↔
    ((∃ found, findAllMatches nfc content oldText = [found]) → OccursOnce nfc content oldText) := by
  constructor
  · rintro hunique ⟨found, hfound⟩
    exact hunique (fun _ _ => "") (fun _ => none) [] _ ((editFile_rewritten _ _).mpr ⟨found, hfound, rfl⟩)
  · intro hsingle makeDiff writeError newText updated hrewritten
    obtain ⟨found, hfound, -⟩ := (editFile_rewritten makeDiff writeError).mp hrewritten
    exact hsingle ⟨found, hfound⟩

theorem editsUnique_exact {p : Nat} (hold : oldText ≠ []) (hoccurs : OccursAt oldText content p) :
    EditsUnique nfc content oldText ↔ Apart oldText content := by
  have honce : OccursOnce nfc content oldText ↔ Unique oldText content :=
    or_iff_left fun hnone => hnone.1 p hoccurs
  rw [editsUnique_iff_single, findAllMatches_exact hold hoccurs, exactMatches, exists_map_eq_singleton, honce,
    Occurrences.unique_iff_apart hold]

theorem editsUnique_fuzzy (hold : oldText ≠ []) (habsent : ∀ q, ¬OccursAt oldText content q) :
    EditsUnique nfc content oldText ↔ (InteractiveText.strip (normalizeForFuzzy nfc oldText) ≠ [] →
      Apart (normalizeForFuzzy nfc oldText) (normalizeForFuzzy nfc content)) := by
  rw [editsUnique_iff_single, findAllMatches_fuzzy hold habsent]
  by_cases hnorm : InteractiveText.strip (normalizeForFuzzy nfc oldText) = []
  · rw [fuzzyMatches_blank hnorm]
    refine ⟨fun _ hne => absurd hnorm hne, fun _ => ?_⟩
    rintro ⟨found, hfound⟩
    exact absurd hfound.symm (List.cons_ne_nil _ _)
  · have hne : normalizeForFuzzy nfc oldText ≠ [] := by
      intro hnil
      rw [hnil] at hnorm
      exact hnorm rfl
    have honce : OccursOnce nfc content oldText ↔
        Unique (normalizeForFuzzy nfc oldText) (normalizeForFuzzy nfc content) := by
      rw [OccursOnce, and_iff_right habsent]
      refine or_iff_right ?_
      rintro ⟨p, hp, -⟩
      exact habsent p hp
    rw [fuzzyMatches_eq hnorm, exists_map_eq_singleton, honce, Occurrences.unique_iff_apart hne]
    exact ⟨fun hapart _ => hapart, fun hapart => hapart hnorm⟩

/-- The file is only rewritten for a text that occurs once, exactly if no occurrences overlap that are counted as one. -/
theorem editsUnique_iff : EditsUnique nfc content oldText ↔ CountedApart nfc content oldText := by
  by_cases hold : oldText = []
  · subst hold
    have hempty : ∀ {q}, q ≤ content.length → OccursAt [] content q := fun hq => ⟨hq, List.nil_prefix⟩
    refine ⟨fun _ => ⟨fun p q hlt hp hq => ⟨p, q, hlt.le, hp, hq⟩, fun habsent => ?_⟩, fun _ => ?_⟩
    · exact absurd (hempty (Nat.zero_le _)) (habsent 0)
    · rw [editsUnique_iff_single]
      rintro ⟨found, hfound⟩
      cases hfound
  · by_cases hoccurs : ∃ p, OccursAt oldText content p
    · obtain ⟨p, hp⟩ := hoccurs
      rw [editsUnique_exact hold hp, CountedApart]
      exact (and_iff_left fun habsent => absurd hp (habsent p)).symm
    · have habsent : ∀ p, ¬OccursAt oldText content p := fun p hp => hoccurs ⟨p, hp⟩
      rw [editsUnique_fuzzy hold habsent, CountedApart]
      constructor
      · exact fun hapart => ⟨fun p q _ hp => absurd hp (habsent p), fun _ => hapart⟩
      · exact fun hapart => hapart.2 habsent

end

end FuzzyText

end MindRoom
