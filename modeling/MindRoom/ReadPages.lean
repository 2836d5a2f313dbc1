import MindRoom.Chunking
import MindRoom.FuzzyText
import MindRoom.InteractiveOptions
import MindRoom.ToolMarkerLines

/-! # Reading a file page by page

`_format_read_output` of `custom_tools/coding.py`. A page shows some lines with their numbers, and a hint with the
number of the line to go on with. A page is a window of the lines, cut down to the lines that fit a number of bytes; a
line that does not fit on its own is cut and marked. The line feed behind a line counts, so a line of exactly that many
bytes is marked too when others are selected behind it.
-/

namespace MindRoom

open FuzzyText (linesOf linesFrom_append linesFrom_break)
open Interactive (joinLines joinLines_cons)
open JsonText (parseNat parseNat_toDigits)
open SafeFixedSizeChunking (utf8Bytes utf8Bytes_append)

namespace ReadPages

/-! ## Truncating -/

def maxLines : Nat := 2000

def maxBytes : Nat := 50 * 1024

structure TruncateResult where
  content : List Char
  wasTruncated : Bool
  totalLines : Nat

/-- The first lines, as long as there are few enough of them and they have few enough bytes. -/
def keepLines (maxLines maxBytes : Nat) (count byteCount : Nat) : List (List Char) → List (List Char)
  | [] => []
  | line :: lines =>
    if maxLines ≤ count ∨ maxBytes < byteCount + utf8Bytes line then []
    else line :: keepLines maxLines maxBytes (count + 1) (byteCount + utf8Bytes line) lines

/-- Keep the first N lines / max_bytes of content. -/
def truncateHead (content : List Char) (maxLines maxBytes : Nat) : TruncateResult :=
  let lines := linesOf content
  let kept := keepLines maxLines maxBytes 0 0 lines
  { content := kept.flatten, wasTruncated := kept.length < lines.length, totalLines := lines.length }

/-- Truncate text to a maximum encoded byte length: a character that is cut is left out. -/
def truncateToMaxBytes (maxBytes : Nat) : List Char → List Char
  | [] => []
  | c :: text => if c.utf8Size ≤ maxBytes then c :: truncateToMaxBytes (maxBytes - c.utf8Size) text else []

/-! ## Pages -/

/-- `text.rstrip("\n")`. -/
def rstripNewlines (text : List Char) : List Char := (text.reverse.dropWhile (· = '\n')).reverse

def truncatedMark : List Char := " [truncated]".toList

def applyByteLimit (selected : List (List Char)) (start stop : Nat) : List (List Char) × Nat :=
  let selectedText := joinLines selected
  if utf8Bytes selectedText ≤ maxBytes then (selected, stop)
  else
    let kept := splitlines (truncateHead selectedText selected.length maxBytes).content
    let shown :=
      if kept = [] ∧ selectedText ≠ [] then
        [rstripNewlines (truncateToMaxBytes maxBytes selectedText) ++ truncatedMark]
      else kept
    (shown, start + shown.length - 1)

def showingText : List Char := "[Showing lines ".toList

def ofText : List Char := " of ".toList

def offsetText : List Char := ". Use offset=".toList

def continueText : List Char := " to continue.]".toList

/-- `f"[Showing lines {start}-{end} of {total}"`. -/
def showing (start stop total : Nat) : List Char :=
  showingText ++ (Nat.toDigits 10 start ++ '-' :: (Nat.toDigits 10 stop ++ (ofText ++ Nat.toDigits 10 total)))

def paginationHint (start stop total : Nat) : List Char :=
  if stop < total then
    '\n' :: '\n' :: (showing start stop total ++ (offsetText ++ (Nat.toDigits 10 (stop + 1) ++ continueText)))
  else if 1 < start then '\n' :: '\n' :: (showing start stop total ++ ['.', ']'])
  else []

/-- `f"{n:>{width}}| {line}"`. -/
def numberedLine (width n : Nat) (line : List Char) : List Char :=
  List.replicate (width - (Nat.toDigits 10 n).length) ' ' ++ (Nat.toDigits 10 n ++ '|' :: ' ' :: line)

def exceedsText (start total : Nat) : List Char :=
  "Error: offset ".toList ++ (Nat.toDigits 10 start ++
    (" exceeds file length (".toList ++ (Nat.toDigits 10 total ++ " lines).".toList)))

def windowSize (limit : Option Int) : Nat := (limit.getD maxLines).toNat

def formatReadOutput (content : List Char) (offset limit : Option Int) : List Char :=
  let allLines := splitlines content
  let total := allLines.length
  if ∃ n ∈ offset, n < 1 then "Error: offset must be >= 1.".toList
  else if ∃ n ∈ limit, n < 1 then "Error: limit must be >= 1.".toList
  else
    let start := (offset.getD 1).toNat
    if total = 0 then if 1 < start then exceedsText start 0 else []
    else if total < start then exceedsText start total
    else
      let stop := min (start + windowSize limit - 1) total
      let selected := (allLines.take stop).drop (start - 1)
      let limited := applyByteLimit selected start stop
      let width := (Nat.toDigits 10 (start + limited.1.length - 1)).length
      joinLines ((limited.1.zipIdx start).map fun line => numberedLine width line.2 line.1) ++
        paginationHint start limited.2 total

/-! ## Reading on -/

/-- The number and the text of a numbered line of a page. -/
def numbered? (line : List Char) : Option (List Char × Nat) := do
  let (n, rest) ← parseNat (line.dropWhile (· = ' '))
  let text ← rest.dropPrefix? ['|', ' ']
  return (text, n)

def numberedLines (output : List Char) : List (List Char × Nat) := (output.splitOn '\n').filterMap numbered?

/-- What follows the numbers of a hint. -/
def afterShowing (line : List Char) : Option (List Char) := do
  let text ← line.dropPrefix? showingText
  let text ← (← parseNat text).2.dropPrefix? ['-']
  let text ← (← parseNat text).2.dropPrefix? ofText
  return (← parseNat text).2

/-- The offset the last line of a page says to go on with. -/
def hintOffset (output : List Char) : Option Nat := do
  let text ← (← afterShowing (← (output.splitOn '\n').getLast?)).dropPrefix? offsetText
  let (offset, text) ← parseNat text
  if text = continueText then some offset else none

/-- The pages read from an offset on, each from the offset of the hint before, up to one without. -/
inductive Reading (content : List Char) (limit : Option Int) : Nat → List (List Char) → Prop
  | last {offset : Nat} (hint : hintOffset (formatReadOutput content (some offset) limit) = none) :
      Reading content limit offset [formatReadOutput content (some offset) limit]
  | next {offset more : Nat} {outputs : List (List Char)}
      (hint : hintOffset (formatReadOutput content (some offset) limit) = some more)
      (rest : Reading content limit more outputs) :
      Reading content limit offset (formatReadOutput content (some offset) limit :: outputs)

/-- A line as a page shows it: cut and marked if it has too many bytes. -/
def shownLine (line : List Char) : List Char :=
  if utf8Bytes line ≤ maxBytes then line else truncateToMaxBytes maxBytes line ++ truncatedMark

/-- Reading from the first line ends, and the pages show every line once, in order and with its own number. -/
def ShowsLines (content : List Char) (limit : Option Int) : Prop :=
  ∃ outputs, Reading content limit 1 outputs ∧
    outputs.flatMap numberedLines = ((splitlines content).map shownLine).zipIdx 1

/-! ## Bytes -/

section

variable {line text rest : List Char} {lines window : List (List Char)} {n count byteCount : Nat}

def OneLine (line : List Char) : Prop := ∀ c ∈ line, isLineBreak c = false

theorem OneLine.noFeed (h : OneLine line) : '\n' ∉ line := fun hmem => absurd (h _ hmem) (by decide)

theorem utf8Bytes_feed (line rest : List Char) : utf8Bytes (line ++ '\n' :: rest) = utf8Bytes line + 1 + utf8Bytes rest := by
  have hfeed : utf8Bytes ('\n' :: rest) = 1 + utf8Bytes rest := rfl
  rw [utf8Bytes_append, hfeed, Nat.add_assoc]

theorem truncateToMaxBytes_zero (text : List Char) : truncateToMaxBytes 0 text = [] := by
  cases text with
  | nil => rfl
  | cons c text =>
    have hpos := Char.utf8Size_pos c
    rw [truncateToMaxBytes, if_neg (by omega)]

/-- A text with enough bytes is cut in itself. -/
theorem truncateToMaxBytes_append (h : n ≤ utf8Bytes text) (rest : List Char) :
    truncateToMaxBytes n (text ++ rest) = truncateToMaxBytes n text := by
  induction text generalizing n with
  | nil =>
    have hzero : n = 0 := Nat.le_zero.mp h
    rw [hzero, List.nil_append, truncateToMaxBytes_zero]
    rfl
  | cons c text ih =>
    have hbytes : utf8Bytes (c :: text) = c.utf8Size + utf8Bytes text := rfl
    rw [List.cons_append, truncateToMaxBytes, truncateToMaxBytes]
    split
    · rw [ih (by omega)]
    · rfl

/-- A text that fits is not cut. -/
theorem truncateToMaxBytes_of_le (h : utf8Bytes text ≤ n) : truncateToMaxBytes n text = text := by
  induction text generalizing n with
  | nil => rfl
  | cons c text ih =>
    have hbytes : utf8Bytes (c :: text) = c.utf8Size + utf8Bytes text := rfl
    rw [truncateToMaxBytes, if_pos (by omega), ih (by omega)]

theorem truncateToMaxBytes_isPrefix (n : Nat) (text : List Char) : truncateToMaxBytes n text <+: text := by
  induction text generalizing n with
  | nil => exact List.nil_prefix
  | cons c text ih =>
    rw [truncateToMaxBytes]
    split
    · exact List.cons_prefix_cons.mpr ⟨rfl, ih _⟩
    · exact List.nil_prefix

theorem rstripNewlines_of_not_mem (h : '\n' ∉ text) : rstripNewlines text = text := by
  rw [rstripNewlines]
  cases hreverse : text.reverse with
  | nil => rw [← List.reverse_reverse text, hreverse]; rfl
  | cons c rest =>
    have hc : c ≠ '\n' := by
      rintro rfl
      exact h (List.mem_reverse.mp (hreverse ▸ List.mem_cons_self))
    rw [List.dropWhile_cons_of_neg (by simpa using hc), ← hreverse, List.reverse_reverse]

/-! ## Lines of a window -/

theorem splitlines_line (h : OneLine line) (rest : List Char) : splitlines (line ++ '\n' :: rest) = line :: splitlines rest := by
  have hline : ∀ (start : List Char) {line : List Char}, OneLine line →
      splitlinesFrom start (line ++ '\n' :: rest) = (start ++ line) :: splitlines rest := by
    intro start line hline
    induction line generalizing start with
    | nil =>
      rw [List.nil_append, List.append_nil, ToolMarkers.splitlinesFrom_break (by decide) (fun _ h => by cases h)]
      rfl
    | cons c line ih =>
      rw [List.cons_append, ToolMarkers.splitlinesFrom_other (hline c List.mem_cons_self),
        ih _ fun d hd => hline d (List.mem_cons_of_mem _ hd), List.append_assoc, List.singleton_append]
  exact hline [] h

theorem oneLine_of_mem_splitlines (h : line ∈ splitlines text) : OneLine line := by
  have hlines : ∀ (start text : List Char), OneLine start → ∀ line ∈ splitlinesFrom start text, OneLine line := by
    intro start text hstart
    induction start, text using splitlinesFrom.induct with
    | case1 =>
      intro line hmem
      rw [splitlinesFrom, if_pos rfl] at hmem
      cases hmem
    | case2 start hne =>
      intro line hmem
      rw [splitlinesFrom, if_neg hne, List.mem_singleton] at hmem
      exact hmem ▸ hstart
    | case3 start text ih =>
      intro line hmem
      rw [splitlinesFrom] at hmem
      rcases List.mem_cons.mp hmem with rfl | hmem
      · exact hstart
      · exact ih (List.forall_mem_nil _) line hmem
    | case4 start c text hnot hbreak ih =>
      intro line hmem
      rw [ToolMarkers.splitlinesFrom_break hbreak hnot] at hmem
      rcases List.mem_cons.mp hmem with rfl | hmem
      · exact hstart
      · exact ih (List.forall_mem_nil _) line hmem
    | case5 start c text hnot hbreak ih =>
      have hother : isLineBreak c = false := by simpa using hbreak
      rw [ToolMarkers.splitlinesFrom_other hother]
      refine ih fun d hd => ?_
      rcases List.mem_append.mp hd with hd | hd
      · exact hstart d hd
      · rw [List.mem_singleton.mp hd]
        exact hother
  exact hlines [] text (List.forall_mem_nil _) line h

theorem linesOf_line (h : OneLine line) (rest : List Char) : linesOf (line ++ '\n' :: rest) = (line ++ ['\n']) :: linesOf rest := by
  rw [linesOf, linesFrom_append h, linesFrom_break (by decide) (fun _ h => by cases h)]
  rfl

theorem linesOf_last (h : OneLine line) : linesOf line = if line = [] then [] else [line] := by
  have hlines := linesFrom_append h [] []
  rw [List.append_nil, List.nil_append] at hlines
  rw [linesOf, hlines, ToolMarkers.linesKeepingEndsFrom]

/-- Of lines that do not fit together, the first ones are kept, each with its line feed. -/
theorem keepLines_spec (hwindow : ∀ line ∈ window, OneLine line) (hcount : count + window.length ≤ n)
    (hbytes : maxBytes < byteCount + utf8Bytes (joinLines window)) (hne : window ≠ []) :
    ∃ k < window.length, keepLines n maxBytes count byteCount (linesOf (joinLines window)) =
        (window.take k).map (· ++ ['\n']) ∧
      (∀ line ∈ window.take k, utf8Bytes line < maxBytes) ∧ (k = 0 → ∀ line more, window = line :: more →
          maxBytes < byteCount + utf8Bytes line ∨ maxBytes ≤ byteCount + utf8Bytes line ∧ more ≠ []) := by
  induction window generalizing count byteCount with
  | nil => exact absurd rfl hne
  | cons line window ih =>
    have hline := hwindow line List.mem_cons_self
    by_cases hlast : window = []
    · subst hlast
      have hjoin : joinLines [line] = line := List.append_nil line
      rw [hjoin] at hbytes ⊢
      refine ⟨0, Nat.succ_pos _, ?_, fun _ hmem => absurd hmem List.not_mem_nil, fun _ first more heq => ?_⟩
      · rw [linesOf_last hline]
        split
        · rfl
        · rw [keepLines, if_pos (.inr hbytes)]
          rfl
      · rw [List.cons.injEq] at heq
        exact .inl (heq.1 ▸ hbytes)
    · rw [joinLines_cons hlast] at hbytes ⊢
      rw [utf8Bytes_feed] at hbytes
      rw [linesOf_line hline, keepLines]
      have hlength : utf8Bytes (line ++ ['\n']) = utf8Bytes line + 1 := utf8Bytes_feed line []
      rw [hlength]
      rw [List.length_cons] at hcount
      by_cases hfits : byteCount + (utf8Bytes line + 1) ≤ maxBytes
      · rw [if_neg (by omega)]
        obtain ⟨k, hk, hkept, hsmall, -⟩ := ih (fun l hl => hwindow l (List.mem_cons_of_mem _ hl))
          (show count + 1 + window.length ≤ n by omega)
          (show maxBytes < byteCount + (utf8Bytes line + 1) + _ by omega) hlast
        refine ⟨k + 1, Nat.succ_lt_succ hk, ?_, ?_, fun hzero => by omega⟩
        · rw [hkept, List.take_succ_cons, List.map_cons]
        · intro l hl
          rw [List.take_succ_cons] at hl
          rcases List.mem_cons.mp hl with rfl | hl
          · omega
          · exact hsmall l hl
      · rw [if_pos (.inr (by omega))]
        refine ⟨0, Nat.succ_pos _, rfl, fun _ hmem => absurd hmem List.not_mem_nil, fun _ first more heq => ?_⟩
        rw [List.cons.injEq] at heq
        obtain ⟨rfl, rfl⟩ := heq
        exact .inr ⟨by omega, hlast⟩

theorem splitlines_flatten (hlines : ∀ line ∈ lines, OneLine line) :
    splitlines (lines.map (· ++ ['\n'])).flatten = lines := by
  induction lines with
  | nil => rfl
  | cons line lines ih =>
    rw [List.map_cons, List.flatten_cons, List.append_assoc, List.singleton_append,
      splitlines_line (hlines line List.mem_cons_self), ih fun l hl => hlines l (List.mem_cons_of_mem _ hl)]

end

/-! ## One page -/

/-- What the pages of some window show of lines: a line with exactly the number of bytes is only left as it is if no
other line is selected behind it. -/
def displayed (window : Nat) : List (List Char) → List (List Char)
  | [] => []
  | line :: rest =>
    (if utf8Bytes line < maxBytes ∨ utf8Bytes line = maxBytes ∧ (window = 1 ∨ rest = []) then line
      else truncateToMaxBytes maxBytes line ++ truncatedMark) :: displayed window rest

section

variable {line : List Char} {lines : List (List Char)} {window start k : Nat}

theorem length_displayed (window : Nat) (lines : List (List Char)) : (displayed window lines).length = lines.length := by
  induction lines with
  | nil => rfl
  | cons line rest ih => rw [displayed, List.length_cons, List.length_cons, ih]

theorem drop_displayed (window k : Nat) (lines : List (List Char)) :
    (displayed window lines).drop k = displayed window (lines.drop k) := by
  induction lines generalizing k with
  | nil => rw [displayed, List.drop_nil, displayed]
  | cons line rest ih =>
    cases k with
    | zero => rfl
    | succ k => rw [displayed, List.drop_succ_cons, List.drop_succ_cons, ih]

theorem take_displayed (h : ∀ line ∈ lines.take k, utf8Bytes line < maxBytes) :
    (displayed window lines).take k = lines.take k := by
  induction lines generalizing k with
  | nil => rfl
  | cons line rest ih =>
    cases k with
    | zero => rfl
    | succ k =>
      rw [List.take_succ_cons] at h
      rw [displayed, List.take_succ_cons, List.take_succ_cons, if_pos (.inl (h line List.mem_cons_self)),
        ih fun l hl => h l (List.mem_cons_of_mem _ hl)]

/-- A line of several is shorter than all of them. -/
theorem utf8Bytes_lt_joinLines (hline : line ∈ lines) (hlength : 1 < lines.length) :
    utf8Bytes line < utf8Bytes (joinLines lines) := by
  induction lines with
  | nil => cases hline
  | cons first rest ih =>
    have hrest : rest ≠ [] := by
      rintro rfl
      exact absurd hlength (by simp)
    rw [joinLines_cons hrest, utf8Bytes_feed]
    rcases List.mem_cons.mp hline with rfl | hline
    · omega
    · by_cases hone : 1 < rest.length
      · have hlt := ih hline hone
        omega
      · obtain ⟨last, rfl⟩ := List.length_eq_one_iff.mp (show rest.length = 1 by
          have hpos := List.length_pos_iff.mpr hrest
          omega)
        have hjoin : joinLines [last] = last := List.append_nil last
        rw [List.mem_singleton.mp hline, hjoin]
        omega

theorem applyByteLimit_fits (hfits : utf8Bytes (joinLines (lines.take window)) ≤ maxBytes) :
    (displayed window lines).take (lines.take window).length = lines.take window := by
  by_cases hlength : 1 < (lines.take window).length
  · have htake : lines.take (lines.take window).length = lines.take window := by
      rw [List.length_take, ← List.take_eq_take_min]
    have hsmall : ∀ line ∈ lines.take (lines.take window).length, utf8Bytes line < maxBytes := by
      intro line hline
      rw [htake] at hline
      exact (utf8Bytes_lt_joinLines hline hlength).trans_le hfits
    rw [take_displayed hsmall, htake]
  · cases hlines : lines with
    | nil => simp [displayed]
    | cons line rest =>
      rw [hlines] at hfits hlength
      cases window with
      | zero => rfl
      | succ n =>
        rw [List.take_succ_cons, List.length_cons] at hlength
        have hnone : rest.take n = [] := List.eq_nil_of_length_eq_zero (by omega)
        have hjoin : joinLines [line] = line := List.append_nil line
        rw [List.take_succ_cons, hnone] at hfits ⊢
        rw [hjoin] at hfits
        have hwhole : utf8Bytes line < maxBytes ∨ utf8Bytes line = maxBytes ∧ (n + 1 = 1 ∨ rest = []) := by
          rcases Nat.lt_or_eq_of_le hfits with hlt | heq
          · exact .inl hlt
          · refine .inr ⟨heq, ?_⟩
            rcases List.take_eq_nil_iff.mp hnone with rfl | hrest
            · exact .inl rfl
            · exact .inr hrest
        rw [displayed, if_pos hwhole, List.length_singleton, List.take_succ_cons, List.take_zero]

/-- The first line of a window, cut and marked. -/
theorem mark_first (hline : OneLine line) (hlong : maxBytes ≤ utf8Bytes line) (rest : List (List Char)) :
    rstripNewlines (truncateToMaxBytes maxBytes (joinLines (line :: rest))) = truncateToMaxBytes maxBytes line := by
  have htext : truncateToMaxBytes maxBytes (joinLines (line :: rest)) = truncateToMaxBytes maxBytes line := by
    by_cases hrest : rest = []
    · rw [hrest]
      exact truncateToMaxBytes_append hlong []
    · rw [joinLines_cons hrest]
      exact truncateToMaxBytes_append hlong _
  rw [htext]
  exact rstripNewlines_of_not_mem fun hmem => hline.noFeed ((truncateToMaxBytes_isPrefix _ _).subset hmem)

/-- A page shows some of the lines from its start on, at least one. -/
theorem applyByteLimit_spec (hlines : ∀ line ∈ lines, OneLine line) (hne : lines ≠ []) (hwindow : 0 < window)
    (start : Nat) : ∃ k, 0 < k ∧ k ≤ lines.length ∧
      applyByteLimit (lines.take window) start (start + (lines.take window).length - 1) =
        ((displayed window lines).take k, start + k - 1) := by
  have hpos : 0 < (lines.take window).length := by
    rw [List.length_take]
    exact lt_min hwindow (List.length_pos_iff.mpr hne)
  have hle : (lines.take window).length ≤ lines.length := List.length_take_le' _ _
  have honeLine : ∀ line ∈ lines.take window, OneLine line := fun line hline => hlines line (List.mem_of_mem_take hline)
  rw [applyByteLimit]
  dsimp only
  by_cases hfits : utf8Bytes (joinLines (lines.take window)) ≤ maxBytes
  · rw [if_pos hfits]
    exact ⟨(lines.take window).length, hpos, hle, by rw [applyByteLimit_fits hfits]⟩
  · rw [if_neg hfits]
    obtain ⟨k, hk, hkept, hsmall, hfirst⟩ := keepLines_spec honeLine (show 0 + (lines.take window).length ≤ (lines.take window).length by omega)
      (show maxBytes < 0 + utf8Bytes (joinLines (lines.take window)) by omega) (List.length_pos_iff.mp hpos)
    have hsplit : splitlines (truncateHead (joinLines (lines.take window)) (lines.take window).length maxBytes).content =
        (lines.take window).take k := by
      rw [truncateHead]
      dsimp only
      rw [hkept, splitlines_flatten fun line hline => honeLine line (List.mem_of_mem_take hline)]
    rw [hsplit]
    rcases Nat.eq_zero_or_pos k with rfl | hkpos
    · -- not even the first line fits
      obtain ⟨line, rest, rfl⟩ := List.exists_cons_of_ne_nil hne
      obtain ⟨n, rfl⟩ := Nat.exists_eq_succ_of_ne_zero hwindow.ne'
      have hcases := hfirst rfl line (rest.take n) List.take_succ_cons
      have hlong : maxBytes ≤ utf8Bytes line := by omega
      have hnotWhole : ¬(utf8Bytes line < maxBytes ∨ utf8Bytes line = maxBytes ∧ (n.succ = 1 ∨ rest = [])) := by
        rintro (hlt | ⟨heq, hlast⟩)
        · omega
        · rcases hcases with hlt | ⟨-, hmore⟩
          · omega
          · rcases hlast with hone | rfl
            · rw [Nat.succ_inj.mp hone] at hmore
              exact hmore rfl
            · exact hmore List.take_nil
      have htext : joinLines ((line :: rest).take n.succ) ≠ [] := by
        intro hnil
        rw [hnil] at hfits
        exact hfits (Nat.zero_le _)
      rw [if_pos ⟨List.take_zero, htext⟩]
      refine ⟨1, Nat.one_pos, Nat.succ_le_succ (Nat.zero_le _), ?_⟩
      rw [List.take_succ_cons, mark_first (hlines line List.mem_cons_self) hlong, displayed, if_neg hnotWhole,
        List.take_succ_cons, List.take_zero, List.length_singleton]
    · have hshown : (lines.take window).take k = lines.take k := by
        rw [List.take_take, min_eq_left]
        rw [List.length_take] at hk
        omega
      have hlength : (lines.take k).length = k := by
        rw [List.length_take]
        omega
      rw [hshown] at hsmall ⊢
      have hkeptNe : ¬(lines.take k = [] ∧ joinLines (lines.take window) ≠ []) := by
        rintro ⟨hnil, -⟩
        rw [hnil] at hlength
        exact hkpos.ne hlength
      rw [if_neg hkeptNe, hlength]
      exact ⟨k, hkpos, by omega, by rw [take_displayed hsmall]⟩

end

/-! ## The text of a page -/

section

variable {rows : List (List Char)} {line rest output : List Char} {width start stop total n : Nat}

def hintLines (start stop total : Nat) : List (List Char) :=
  if stop < total then
    [[], showing start stop total ++ (offsetText ++ (Nat.toDigits 10 (stop + 1) ++ continueText))]
  else if 1 < start then [[], showing start stop total ++ ['.', ']']]
  else []

theorem joinLines_hint (hrows : rows ≠ []) (start stop total : Nat) :
    joinLines rows ++ paginationHint start stop total = joinLines (rows ++ hintLines start stop total) := by
  have htwo : ∀ text : List Char, joinLines [[], text] = '\n' :: text := fun text => by simp [joinLines]
  rw [paginationHint, hintLines]
  split
  · rw [Interactive.joinLines_append hrows (List.cons_ne_nil _ _), htwo]
  · split
    · rw [Interactive.joinLines_append hrows (List.cons_ne_nil _ _), htwo]
    · rw [List.append_nil, List.append_nil]

theorem splitOn_joinLines (hrows : ∀ row ∈ rows, '\n' ∉ row) (hne : rows ≠ []) : (joinLines rows).splitOn '\n' = rows :=
  List.splitOn_intercalate '\n' hrows hne

theorem noDigitHead_cons {c : Char} (hc : c.isDigit = false) (rest : List Char) : JsonText.NoDigitHead (c :: rest) := by
  intro d more heq
  rw [List.cons.injEq] at heq
  exact heq.1 ▸ hc

theorem not_mem_toDigits {c : Char} (hc : c.isDigit = false) (n : Nat) : c ∉ Nat.toDigits 10 n := by
  intro hmem
  rw [Nat.isDigit_of_mem_toDigits (by decide) (by decide) hmem] at hc
  cases hc

/-- A numbered line is read back. -/
theorem numbered?_numberedLine (width n : Nat) (line : List Char) : numbered? (numberedLine width n line) = some (line, n) := by
  have hdigits : (numberedLine width n line).dropWhile (· = ' ') = Nat.toDigits 10 n ++ '|' :: ' ' :: line := by
    obtain ⟨c, digits, heq, hc⟩ := JsonText.toDigits_cons n
    have hspace : c ≠ ' ' := by
      rintro rfl
      exact absurd hc (by decide)
    rw [numberedLine, List.dropWhile_append_of_pos fun d hd => by simpa using List.eq_of_mem_replicate hd, heq,
      List.cons_append, List.dropWhile_cons_of_neg (by simpa using hspace)]
  have hmark : ('|' :: ' ' :: line).dropPrefix? ['|', ' '] = some line := MessageTags.dropPrefix?_append ['|', ' '] line
  rw [numbered?, hdigits, parseNat_toDigits n (noDigitHead_cons (by decide) _)]
  dsimp only [Option.bind_eq_bind, Option.bind_some]
  rw [hmark]
  rfl

theorem numberedLine_noFeed (hline : '\n' ∉ line) (width n : Nat) : '\n' ∉ numberedLine width n line := by
  have hdigits : '\n' ∉ Nat.toDigits 10 n := not_mem_toDigits (by decide) n
  simp [numberedLine, hline, hdigits]

theorem showing_noFeed (start stop total : Nat) : '\n' ∉ showing start stop total := by
  have hdigits : ∀ n, '\n' ∉ Nat.toDigits 10 n := fun n => not_mem_toDigits (by decide) n
  have htexts : '\n' ∉ showingText ∧ '\n' ∉ ofText := by decide
  simp [showing, htexts, hdigits]

theorem hintLines_noFeed (start stop total : Nat) : ∀ row ∈ hintLines start stop total, '\n' ∉ row := by
  have hshowing := showing_noFeed start stop total
  have hdigits : ∀ n, '\n' ∉ Nat.toDigits 10 n := fun n => not_mem_toDigits (by decide) n
  have htexts : '\n' ∉ offsetText ∧ '\n' ∉ continueText := by decide
  intro row hrow
  rw [hintLines] at hrow
  split at hrow
  · rcases List.mem_cons.mp hrow with rfl | hrow
    · exact List.not_mem_nil
    · rw [List.mem_singleton.mp hrow]
      simp [hshowing, htexts, hdigits]
  · split at hrow
    · rcases List.mem_cons.mp hrow with rfl | hrow
      · exact List.not_mem_nil
      · rw [List.mem_singleton.mp hrow]
        simp [hshowing]
    · cases hrow

/-- No line of a hint is numbered. -/
theorem hintLines_unnumbered (start stop total : Nat) : (hintLines start stop total).filterMap numbered? = [] := by
  have hbracket : ∀ text, numbered? ('[' :: text) = none := fun text => by simp [numbered?, parseNat]
  have hshowing : ∀ rest, numbered? (showing start stop total ++ rest) = none := fun rest => hbracket _
  have hnil : numbered? [] = none := by simp [numbered?, parseNat]
  rw [hintLines]
  split
  · rw [List.filterMap_cons_none hnil, List.filterMap_cons_none (hshowing _), List.filterMap_nil]
  · split
    · rw [List.filterMap_cons_none hnil, List.filterMap_cons_none (hshowing _), List.filterMap_nil]
    · rfl

theorem afterShowing_showing (start stop total : Nat) {rest : List Char} (hrest : JsonText.NoDigitHead rest) :
    afterShowing (showing start stop total ++ rest) = some rest := by
  have hdash : ∀ text : List Char, ('-' :: text).dropPrefix? ['-'] = some text := MessageTags.dropPrefix?_append ['-']
  have htext : showing start stop total ++ rest = showingText ++ (Nat.toDigits 10 start ++
      '-' :: (Nat.toDigits 10 stop ++ (ofText ++ (Nat.toDigits 10 total ++ rest)))) := by
    simp only [showing, List.append_assoc, List.cons_append]
  have hof : ∀ text, JsonText.NoDigitHead (ofText ++ text) := fun text => noDigitHead_cons (by decide) _
  rw [afterShowing, htext, MessageTags.dropPrefix?_append]
  dsimp only [Option.bind_eq_bind, Option.bind_some]
  rw [parseNat_toDigits start (noDigitHead_cons (by decide) _)]
  dsimp only [Option.bind_some]
  rw [hdash]
  dsimp only [Option.bind_some]
  rw [parseNat_toDigits stop (hof _)]
  dsimp only [Option.bind_some]
  rw [MessageTags.dropPrefix?_append]
  dsimp only [Option.bind_some]
  rw [parseNat_toDigits total hrest]
  rfl

theorem afterShowing_numberedLine (width n : Nat) (line : List Char) : afterShowing (numberedLine width n line) = none := by
  have hhead : ∃ c rest, numberedLine width n line = c :: rest ∧ c ≠ '[' := by
    obtain ⟨c, digits, heq, hc⟩ := JsonText.toDigits_cons n
    rw [numberedLine]
    cases width - (Nat.toDigits 10 n).length with
    | zero =>
      refine ⟨c, digits ++ '|' :: ' ' :: line, by rw [heq]; rfl, ?_⟩
      rintro rfl
      exact absurd hc (by decide)
    | succ count => exact ⟨' ', _, rfl, by decide⟩
  obtain ⟨c, rest, hline, hc⟩ := hhead
  have hnone : (c :: rest).dropPrefix? showingText = none := by
    have htext : showingText = '[' :: showingText.tail := by decide
    rw [htext, List.dropPrefix?, if_neg]
    simpa using hc
  rw [afterShowing, hline, hnone]
  rfl

/-- A page with more lines behind it says so, and no other does. -/
theorem hintOffset_page (hrows : ∀ row ∈ rows, '\n' ∉ row) (hlast : rows.getLast? = some (numberedLine width n line))
    (start stop total : Nat) :
    hintOffset (joinLines (rows ++ hintLines start stop total)) = if stop < total then some (stop + 1) else none := by
  have hne : rows ≠ [] := by
    rintro rfl
    cases hlast
  have hall : ∀ row ∈ rows ++ hintLines start stop total, '\n' ∉ row := by
    intro row hrow
    rcases List.mem_append.mp hrow with hrow | hrow
    · exact hrows row hrow
    · exact hintLines_noFeed start stop total row hrow
  rw [hintOffset, splitOn_joinLines hall (List.append_ne_nil_of_left_ne_nil hne _), List.getLast?_append]
  have htwo : ∀ text : List Char, [[], text].getLast? = some text := fun _ => rfl
  rw [hintLines]
  by_cases hmore : stop < total
  · have hoffset : ∀ text, JsonText.NoDigitHead (offsetText ++ text) := fun text => noDigitHead_cons (by decide) _
    have hcontinue : JsonText.NoDigitHead continueText := noDigitHead_cons (by decide) _
    rw [if_pos hmore, if_pos hmore, htwo, Option.some_or]
    dsimp only [Option.bind_eq_bind, Option.bind_some]
    rw [afterShowing_showing start stop total (hoffset _)]
    dsimp only [Option.bind_some]
    rw [MessageTags.dropPrefix?_append]
    dsimp only [Option.bind_some]
    rw [parseNat_toDigits (stop + 1) hcontinue]
    dsimp only [Option.bind_some]
    rw [if_pos rfl]
  · rw [if_neg hmore, if_neg hmore]
    split
    · have hdot : JsonText.NoDigitHead ['.', ']'] := noDigitHead_cons (by decide) _
      rw [htwo, Option.some_or]
      dsimp only [Option.bind_eq_bind, Option.bind_some]
      rw [afterShowing_showing start stop total hdot]
      rfl
    · rw [List.getLast?_nil, Option.none_or, hlast]
      dsimp only [Option.bind_eq_bind, Option.bind_some]
      rw [afterShowing_numberedLine]
      rfl

theorem numberedLines_page {lines : List (List Char)} (hlines : ∀ line ∈ lines, '\n' ∉ line) (hne : lines ≠ [])
    (width start stop total : Nat) :
    numberedLines (joinLines ((lines.zipIdx start).map (fun line => numberedLine width line.2 line.1) ++
      hintLines start stop total)) = lines.zipIdx start := by
  have hall : ∀ row ∈ (lines.zipIdx start).map (fun line => numberedLine width line.2 line.1) ++
      hintLines start stop total, '\n' ∉ row := by
    intro row hrow
    rcases List.mem_append.mp hrow with hrow | hrow
    · obtain ⟨⟨line, n⟩, hmem, rfl⟩ := List.mem_map.mp hrow
      exact numberedLine_noFeed (hlines line (List.fst_mem_of_mem_zipIdx hmem)) width n
    · exact hintLines_noFeed start stop total row hrow
  have hrows : (lines.zipIdx start).map (fun line => numberedLine width line.2 line.1) ++ hintLines start stop total ≠ [] :=
    List.append_ne_nil_of_left_ne_nil (by simpa using hne) _
  rw [numberedLines, splitOn_joinLines hall hrows, List.filterMap_append, hintLines_unnumbered, List.append_nil,
    List.filterMap_map]
  have hread : (numbered? ∘ fun line : List Char × Nat => numberedLine width line.2 line.1) = some := by
    funext line
    exact numbered?_numberedLine width line.2 line.1
  rw [hread, List.filterMap_some]

end

/-! ## Reading the pages -/

section

variable {content : List Char} {limit : Option Int} {start window : Nat} {lines : List (List Char)}

theorem displayed_noFeed (hlines : ∀ line ∈ lines, OneLine line) : ∀ line ∈ displayed window lines, '\n' ∉ line := by
  induction lines with
  | nil => exact List.forall_mem_nil _
  | cons first rest ih =>
    have hfirst := (hlines first List.mem_cons_self).noFeed
    have hmark : '\n' ∉ truncatedMark := by decide
    intro line hline
    rw [displayed] at hline
    rcases List.mem_cons.mp hline with rfl | hline
    · split
      · exact hfirst
      · intro hmem
        rcases List.mem_append.mp hmem with hmem | hmem
        · exact hfirst ((truncateToMaxBytes_isPrefix _ _).subset hmem)
        · exact hmark hmem
    · exact ih (fun l hl => hlines l (List.mem_cons_of_mem _ hl)) line hline

/-- The lines a page selects. -/
theorem selected_eq (hpos : 0 < start) (hle : start ≤ lines.length) (hwindow : 0 < window) :
    (lines.take (min (start + window - 1) lines.length)).drop (start - 1) = (lines.drop (start - 1)).take window ∧
      min (start + window - 1) lines.length = start + ((lines.drop (start - 1)).take window).length - 1 := by
  have hlength : ((lines.drop (start - 1)).take window).length = min window (lines.length - (start - 1)) := by
    rw [List.length_take, List.length_drop]
  constructor
  · rw [List.drop_take, List.take_eq_take_min, List.length_drop]
    conv_rhs => rw [List.take_eq_take_min, List.length_drop]
    congr 1
    omega
  · omega

/-- A page shows some lines from its offset on, and goes on behind them. -/
theorem formatReadOutput_page (hlimit : ∀ n ∈ limit, 1 ≤ n) (hpos : 0 < start)
    (hle : start ≤ (splitlines content).length) : ∃ k, 0 < k ∧ k ≤ ((splitlines content).drop (start - 1)).length ∧
      numberedLines (formatReadOutput content (some start) limit) =
          ((displayed (windowSize limit) ((splitlines content).drop (start - 1))).take k).zipIdx start ∧
        hintOffset (formatReadOutput content (some start) limit) =
          if start + k - 1 < (splitlines content).length then some (start + k - 1 + 1) else none := by
  have hwindow : 0 < windowSize limit := by
    rw [windowSize]
    cases limit with
    | none => decide
    | some n =>
      have hn := hlimit n rfl
      simp only [Option.getD_some]
      omega
  have hoffset : ¬∃ n ∈ some (start : Int), n < 1 := by
    rintro ⟨n, hn, hlt⟩
    obtain rfl : (start : Int) = n := Option.some.inj hn
    omega
  have hlimit' : ¬∃ n ∈ limit, n < 1 := by
    rintro ⟨n, hn, hlt⟩
    have hge := hlimit n hn
    omega
  have hlines : ∀ line ∈ (splitlines content).drop (start - 1), OneLine line :=
    fun line hline => oneLine_of_mem_splitlines (List.mem_of_mem_drop hline)
  have hrest : (splitlines content).drop (start - 1) ≠ [] := by
    rw [← List.length_pos_iff, List.length_drop]
    omega
  obtain ⟨hselected, hstop⟩ := selected_eq hpos hle hwindow
  obtain ⟨k, hk, hkle, hlimited⟩ := applyByteLimit_spec hlines hrest hwindow start
  have hlength : ((displayed (windowSize limit) ((splitlines content).drop (start - 1))).take k).length = k := by
    rw [List.length_take, length_displayed]
    omega
  have hshown : (displayed (windowSize limit) ((splitlines content).drop (start - 1))).take k ≠ [] := by
    rw [← List.length_pos_iff, hlength]
    exact hk
  have hnoFeed : ∀ line ∈ (displayed (windowSize limit) ((splitlines content).drop (start - 1))).take k, '\n' ∉ line :=
    fun line hline => displayed_noFeed hlines line (List.mem_of_mem_take hline)
  have houtput : formatReadOutput content (some start) limit = joinLines
      (((((displayed (windowSize limit) ((splitlines content).drop (start - 1))).take k).zipIdx start).map fun line =>
        numberedLine (Nat.toDigits 10 (start + k - 1)).length line.2 line.1) ++
          hintLines start (start + k - 1) (splitlines content).length) := by
    rw [formatReadOutput]
    dsimp only [Option.getD_some, Int.toNat_natCast]
    rw [if_neg hoffset, if_neg hlimit', if_neg (by omega), if_neg (by omega), hselected, hstop, hlimited]
    dsimp only
    rw [hlength, joinLines_hint (by simpa using hshown)]
  refine ⟨k, hk, hkle, ?_, ?_⟩
  · rw [houtput, numberedLines_page hnoFeed hshown]
  · have hzip : ((displayed (windowSize limit) ((splitlines content).drop (start - 1))).take k).zipIdx start ≠ [] := by
      simpa using hshown
    have hrows : ∀ row ∈ (((displayed (windowSize limit) ((splitlines content).drop (start - 1))).take k).zipIdx start).map
        (fun line => numberedLine (Nat.toDigits 10 (start + k - 1)).length line.2 line.1), '\n' ∉ row := by
      intro row hrow
      obtain ⟨⟨line, n⟩, hmem, rfl⟩ := List.mem_map.mp hrow
      exact numberedLine_noFeed (hnoFeed line (List.fst_mem_of_mem_zipIdx hmem)) _ n
    have hlast := congrArg (Option.map fun line => numberedLine (Nat.toDigits 10 (start + k - 1)).length line.2 line.1)
      (List.getLast?_eq_some_getLast hzip)
    rw [← List.getLast?_map, Option.map_some] at hlast
    rw [houtput]
    exact hintOffset_page hrows hlast start (start + k - 1) (splitlines content).length

/-- The pages from an offset on end, and show what is displayed of the lines from there on. -/
theorem reading_lines {start : Nat} (hlimit : ∀ n ∈ limit, 1 ≤ n) (hpos : 0 < start)
    (hle : start ≤ (splitlines content).length) :
    ∃ outputs, Reading content limit start outputs ∧ outputs.flatMap numberedLines =
      (displayed (windowSize limit) ((splitlines content).drop (start - 1))).zipIdx start := by
  obtain ⟨k, hk, hkle, hnumbered, hhint⟩ := formatReadOutput_page hlimit hpos hle
  rw [List.length_drop] at hkle
  by_cases hmore : start + k - 1 < (splitlines content).length
  · rw [if_pos hmore] at hhint
    obtain ⟨outputs, hreading, houtputs⟩ := reading_lines hlimit (show 0 < start + k - 1 + 1 by omega) hmore
    refine ⟨_, .next hhint hreading, ?_⟩
    have hdrop : displayed (windowSize limit) ((splitlines content).drop (start + k - 1 + 1 - 1)) =
        (displayed (windowSize limit) ((splitlines content).drop (start - 1))).drop k := by
      rw [drop_displayed, List.drop_drop]
      congr 2
      omega
    have hlength : ((displayed (windowSize limit) ((splitlines content).drop (start - 1))).take k).length = k := by
      rw [List.length_take, length_displayed, List.length_drop]
      omega
    have hstart : start + k - 1 + 1 = start + k := by omega
    rw [List.flatMap_cons, hnumbered, houtputs, hdrop, hstart]
    conv_rhs => rw [← List.take_append_drop k (displayed _ _), List.zipIdx_append, hlength]
  · rw [if_neg hmore] at hhint
    refine ⟨_, .last hhint, ?_⟩
    rw [List.flatMap_singleton, hnumbered, List.take_of_length_le]
    rw [length_displayed, List.length_drop]
    omega
termination_by (splitlines content).length - start
decreasing_by omega

/-- The pages read are determined. -/
theorem Reading.unique {offset : Nat} {outputs outputs' : List (List Char)} (h : Reading content limit offset outputs)
    (h' : Reading content limit offset outputs') : outputs = outputs' := by
  induction h generalizing outputs' with
  | last hint =>
    cases h' with
    | last => rfl
    | next hint' =>
      rw [hint] at hint'
      cases hint'
  | next hint rest ih =>
    cases h' with
    | last hint' =>
      rw [hint] at hint'
      cases hint'
    | next hint' rest' =>
      rw [hint] at hint'
      cases hint'
      rw [ih rest']

/-- What is displayed is what fits, exactly if no line that ends at the limit has others behind it. -/
theorem displayed_eq_iff (window : Nat) (lines : List (List Char)) : displayed window lines = lines.map shownLine ↔
    window = 1 ∨ ∀ line ∈ lines.dropLast, utf8Bytes line ≠ maxBytes := by
  have hmark : 0 < truncatedMark.length := by decide
  induction lines with
  | nil => exact ⟨fun _ => .inr (List.forall_mem_nil _), fun _ => rfl⟩
  | cons line rest ih =>
    rw [displayed, List.map_cons, List.cons.injEq, shownLine]
    have hfirst : ((if utf8Bytes line < maxBytes ∨ utf8Bytes line = maxBytes ∧ (window = 1 ∨ rest = []) then line
          else truncateToMaxBytes maxBytes line ++ truncatedMark) =
        if utf8Bytes line ≤ maxBytes then line else truncateToMaxBytes maxBytes line ++ truncatedMark) ↔
          (utf8Bytes line = maxBytes → window = 1 ∨ rest = []) := by
      rcases Nat.lt_trichotomy (utf8Bytes line) maxBytes with hlt | heq | hgt
      · rw [if_pos (.inl hlt), if_pos hlt.le]
        exact ⟨fun _ heq => absurd heq hlt.ne, fun _ => rfl⟩
      · rw [if_pos heq.le]
        by_cases hlast : window = 1 ∨ rest = []
        · rw [if_pos (.inr ⟨heq, hlast⟩)]
          exact ⟨fun _ _ => hlast, fun _ => rfl⟩
        · have hcut : ¬(utf8Bytes line < maxBytes ∨ utf8Bytes line = maxBytes ∧ (window = 1 ∨ rest = [])) := by
            rintro (hlt | ⟨-, hlast'⟩)
            · exact hlt.ne heq
            · exact hlast hlast'
          rw [if_neg hcut, truncateToMaxBytes_of_le heq.le]
          refine ⟨fun hsame => ?_, fun himp => absurd (himp heq) hlast⟩
          have hlength := congrArg List.length hsame
          rw [List.length_append] at hlength
          omega
      · rw [if_neg (by omega), if_neg (by omega)]
        exact ⟨fun _ heq => absurd heq hgt.ne', fun _ => rfl⟩
    refine (and_congr hfirst ih).trans ?_
    cases rest with
    | nil => simp
    | cons next rest =>
      rw [List.dropLast_cons_cons, List.forall_mem_cons]
      constructor
      · rintro ⟨hline, hone | hrest⟩
        · exact .inl hone
        · by_cases hone : window = 1
          · exact .inl hone
          · refine .inr ⟨fun heq => ?_, hrest⟩
            rcases hline heq with hone' | hnil
            · exact hone hone'
            · cases hnil
      · rintro (hone | ⟨hline, hrest⟩)
        · exact ⟨fun _ => .inl hone, .inl hone⟩
        · exact ⟨fun heq => absurd heq hline, .inr hrest⟩

theorem windowSize_eq_one (hlimit : ∀ n ∈ limit, 1 ≤ n) : windowSize limit = 1 ↔ limit = some 1 := by
  cases limit with
  | none => exact ⟨fun h => absurd h (by decide), fun h => by cases h⟩
  | some n =>
    have hn := hlimit n rfl
    have hsize : windowSize (some n) = n.toNat := rfl
    rw [hsize, Option.some.injEq]
    omega

/-- The pages show what is displayed of the lines. -/
theorem showsLines_iff (hlimit : ∀ n ∈ limit, 1 ≤ n) : ShowsLines content limit ↔
    displayed (windowSize limit) (splitlines content) = (splitlines content).map shownLine := by
  rcases Nat.eq_zero_or_pos (splitlines content).length with hzero | hpos
  · have hnil := List.eq_nil_of_length_eq_zero hzero
    refine iff_of_true ⟨[[]], ?_, ?_⟩ ?_
    · have hlimit' : ¬∃ n ∈ limit, n < 1 := by
        rintro ⟨n, hn, hlt⟩
        have hge := hlimit n hn
        omega
      have houtput : formatReadOutput content (some (1 : Nat)) limit = [] := by
        rw [formatReadOutput]
        dsimp only
        rw [if_neg (by simp), if_neg hlimit', if_pos hzero, if_neg (by decide)]
      rw [← houtput]
      refine .last ?_
      rw [houtput]
      rfl
    · rw [hnil]
      simp [numberedLines, numbered?, parseNat]
    · rw [hnil]
      rfl
  · obtain ⟨outputs, hreading, houtputs⟩ := reading_lines hlimit Nat.one_pos (show 1 ≤ (splitlines content).length from hpos)
    rw [List.drop_zero] at houtputs
    constructor
    · rintro ⟨outputs', hreading', hshows⟩
      rw [hreading'.unique hreading, houtputs] at hshows
      have hlines := congrArg (List.map Prod.fst) hshows
      rwa [List.zipIdx_map_fst, List.zipIdx_map_fst] at hlines
    · intro hlines
      exact ⟨outputs, hreading, by rw [houtputs, hlines]⟩

/-- Reading page by page shows every line once, with only the lines marked that have too many bytes on their own,
exactly if the limit is one line or no line but the last has exactly the number of bytes a page may have. -/
theorem reading_shows_lines (content : List Char) (limit : Option Int) (hlimit : ∀ n ∈ limit, 1 ≤ n) :
    ShowsLines content limit ↔ limit = some 1 ∨ ∀ line ∈ (splitlines content).dropLast, utf8Bytes line ≠ maxBytes := by
  rw [showsLines_iff hlimit, displayed_eq_iff, windowSize_eq_one hlimit]

theorem reading_shows_two_lines : ShowsLines ['a', '\n', 'b'] (some 2) := by
  refine (reading_shows_lines ['a', '\n', 'b'] (some 2) ?_).mpr (.inr ?_)
  · intro n hn
    obtain rfl : 2 = n := Option.some.inj hn
    decide
  · have hlines : (splitlines ['a', '\n', 'b']).dropLast = [['a']] := by decide
    rw [hlines, List.forall_mem_singleton]
    decide

/-- A line of exactly the bytes of a page, and another one. -/
def fullLineContent : List Char := List.replicate maxBytes 'a' ++ ['\n', 'b']

/-- A line that does not have too many bytes is marked as truncated. -/
theorem reading_marks_full_line : ¬ShowsLines fullLineContent none := by
  have hline : OneLine (List.replicate maxBytes 'a') := by
    intro c hc
    rw [List.eq_of_mem_replicate hc]
    decide
  have hlines : splitlines fullLineContent = [List.replicate maxBytes 'a', ['b']] := splitlines_line hline ['b']
  have hbytes : utf8Bytes (List.replicate maxBytes 'a') = maxBytes := by
    have hsize : Char.utf8Size 'a' = 1 := by decide
    rw [utf8Bytes, List.map_replicate, hsize, List.sum_replicate, smul_eq_mul, Nat.mul_one]
  rw [showsLines_iff (by simp), hlines, displayed_eq_iff]
  rintro (hone | hnone)
  · exact absurd hone (by decide)
  · exact hnone _ List.mem_cons_self hbytes

end

end ReadPages

end MindRoom
