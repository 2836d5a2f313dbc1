import MindRoom.InteractiveText
import MindRoom.ToolMarkers

/-! # Normalized text

`_normalize_for_fuzzy` of `custom_tools/coding.py`: a text in composed form, with quotes, dashes and spaces
replaced, the byte order mark dropped and the blanks at the end of each line stripped. Texts that end with a line
break are normalized on their own, and so is what stands before a character that takes part in no composition.
-/

namespace MindRoom

open ToolMarkers (isLineEnd linesKeepingEndsFrom)
open InteractiveText (isSpace rstrip rstrip_append_cons)

namespace FuzzyText

/-! ## Normalizing -/

/-- `_NORMALIZE_MAP`: what a character is replaced by. The byte order mark is dropped. -/
def translateChar (c : Char) : Option Char :=
  if ['\u2018', '\u2019'].contains c then some '\x27'
  else if ['\u201c', '\u201d', '\u201e', '\u201f'].contains c then some '\x22'
  else if ['\u2010', '\u2011', '\u2012', '\u2013', '\u2014', '\u2015', '\u2212'].contains c then some '-'
  else if ['\u00a0', '\u2002', '\u2003', '\u2004', '\u2005', '\u2006', '\u2007', '\u2008', '\u2009', '\u200a',
    '\u202f', '\u205f', '\u3000'].contains c then some ' '
  else if c = '\ufeff' then none
  else some c

def translate (text : List Char) : List Char := text.filterMap translateChar

def splitLineBodyEnding (line : List Char) : List Char × List Char :=
  match line.reverse with
  | '\n' :: '\r' :: body => (body.reverse, ['\r', '\n'])
  | '\n' :: body => (body.reverse, ['\n'])
  | '\r' :: body => (body.reverse, ['\r'])
  | _ => (line, [])

/-- A line without the blanks at the end of its body. -/
def normalizeLine (line : List Char) : List Char :=
  rstrip (splitLineBodyEnding line).1 ++ (splitLineBodyEnding line).2

/-- All lines of a text without the blanks at their ends, with the first line under way. -/
def stripLinesFrom (line text : List Char) : List Char := (linesKeepingEndsFrom line text).flatMap normalizeLine

def normalizeForFuzzy (nfc : List Char → List Char) (text : List Char) : List Char :=
  stripLinesFrom [] (translate (nfc text))

/-! ## Lines -/

section

variable {line text rest body : List Char} {c : Char}

theorem linesFrom_break (hc : isLineBreak c = true) (h : ∀ rest, c = '\r' → text = '\n' :: rest → False)
    (line : List Char) : linesKeepingEndsFrom line (c :: text) = (line ++ [c]) :: linesKeepingEndsFrom [] text := by
  rw [linesKeepingEndsFrom, if_pos hc]
  exact h

theorem linesFrom_other (hc : isLineBreak c = false) (line text : List Char) :
    linesKeepingEndsFrom line (c :: text) = linesKeepingEndsFrom (line ++ [c]) text := by
  rw [linesKeepingEndsFrom, if_neg (by simp [hc])]
  rintro rest rfl
  exact absurd hc (by decide)

theorem linesFrom_return (line text : List Char) :
    linesKeepingEndsFrom line ('\r' :: '\n' :: text) = (line ++ ['\r', '\n']) :: linesKeepingEndsFrom [] text := by
  rw [linesKeepingEndsFrom]

/-- A text without line breaks goes on with the line under way. -/
theorem linesFrom_append (h : ∀ c ∈ text, isLineBreak c = false) (line rest : List Char) :
    linesKeepingEndsFrom line (text ++ rest) = linesKeepingEndsFrom (line ++ text) rest := by
  induction text generalizing line with
  | nil => rw [List.nil_append, List.append_nil]
  | cons c text ih =>
    rw [List.cons_append, linesFrom_other (h c List.mem_cons_self), ih fun c hc => h c (List.mem_cons_of_mem _ hc),
      List.append_assoc, List.singleton_append]

theorem splitLine_return (body : List Char) : splitLineBodyEnding (body ++ ['\r', '\n']) = (body, ['\r', '\n']) := by
  rw [splitLineBodyEnding, List.reverse_append]
  simp

theorem splitLine_carriage (body : List Char) : splitLineBodyEnding (body ++ ['\r']) = (body, ['\r']) := by
  rw [splitLineBodyEnding, List.reverse_append]
  simp

theorem splitLine_feed (h : '\r' ∉ body) : splitLineBodyEnding (body ++ ['\n']) = (body, ['\n']) := by
  rw [splitLineBodyEnding, List.reverse_append]
  cases hbody : body.reverse with
  | nil => simp [List.reverse_eq_nil_iff.mp hbody]
  | cons d rest =>
    have hd : d ≠ '\r' := by
      rintro rfl
      exact h (List.mem_reverse.mp (hbody ▸ List.mem_cons_self))
    have hrest : body = (d :: rest).reverse := by rw [← hbody, List.reverse_reverse]
    rw [hrest]
    simp [hd]

/-- A line that does not end with a line feed or a carriage return is all body. -/
theorem splitLine_of_other (h : ∀ c ∈ line.getLast?, isLineEnd c = false) : splitLineBodyEnding line = (line, []) := by
  rw [splitLineBodyEnding]
  rw [← List.head?_reverse] at h
  split
  · next heq =>
    rw [heq] at h
    exact absurd (h '\n' rfl) (by decide)
  · next heq =>
    rw [heq] at h
    exact absurd (h '\n' rfl) (by decide)
  · next heq =>
    rw [heq] at h
    exact absurd (h '\r' rfl) (by decide)
  · rfl

theorem isLineBreak_of_isLineEnd (h : isLineEnd c = true) : isLineBreak c = true := by
  rw [isLineEnd, Bool.or_eq_true, decide_eq_true_eq, decide_eq_true_eq] at h
  rcases h with rfl | rfl <;> decide

theorem isSpace_of_isLineEnd (h : isLineEnd c = true) : isSpace c = true := by
  rw [isLineEnd, Bool.or_eq_true, decide_eq_true_eq, decide_eq_true_eq] at h
  rcases h with rfl | rfl <;> decide

theorem splitLine_oneLine (h : ∀ d ∈ body, isLineBreak d = false) : splitLineBodyEnding body = (body, []) := by
  apply splitLine_of_other
  intro d hd
  have hbreak := h d (List.mem_of_getLast? hd)
  rw [← Bool.not_eq_true]
  intro hend
  rw [isLineBreak_of_isLineEnd hend] at hbreak
  cases hbreak

theorem stripLinesFrom_break (hc : isLineBreak c = true) (h : ∀ rest, c = '\r' → text = '\n' :: rest → False)
    (line : List Char) : stripLinesFrom line (c :: text) = normalizeLine (line ++ [c]) ++ stripLinesFrom [] text := by
  rw [stripLinesFrom, linesFrom_break hc h, List.flatMap_cons]
  rfl

theorem stripLinesFrom_return (line text : List Char) :
    stripLinesFrom line ('\r' :: '\n' :: text) = rstrip line ++ ['\r', '\n'] ++ stripLinesFrom [] text := by
  rw [stripLinesFrom, linesFrom_return, List.flatMap_cons, normalizeLine, splitLine_return]
  rfl

/-- One line break. A carriage return may join a line feed behind it. -/
theorem stripLinesFrom_one (hc : isLineBreak c = true) (line rest : List Char) :
    stripLinesFrom line (c :: rest) = stripLinesFrom line [c] ++ stripLinesFrom [] rest := by
  have hone : stripLinesFrom line [c] = normalizeLine (line ++ [c]) := by
    rw [stripLinesFrom_break hc (by simp)]
    exact List.append_nil _
  by_cases hjoin : c = '\r' ∧ ∃ more, rest = '\n' :: more
  · obtain ⟨rfl, more, rfl⟩ := hjoin
    have hfeed : stripLinesFrom [] ('\n' :: more) = ['\n'] ++ stripLinesFrom [] more :=
      stripLinesFrom_break (by decide) (fun rest h => absurd h (by decide)) []
    rw [stripLinesFrom_return, hone, normalizeLine, splitLine_carriage, hfeed]
    simp only [List.append_assoc, List.cons_append, List.nil_append]
  · rw [stripLinesFrom_break hc (fun more hreturn hrest => hjoin ⟨hreturn, more, hrest⟩), hone]

/-- What stands up to a line break is stripped on its own. -/
theorem stripLinesFrom_append (hc : isLineBreak c = true) (line text rest : List Char) :
    stripLinesFrom line (text ++ c :: rest) = stripLinesFrom line (text ++ [c]) ++ stripLinesFrom [] rest := by
  induction line, text using ToolMarkers.linesKeepingEndsFrom.induct with
  | case1 => exact stripLinesFrom_one hc [] rest
  | case2 line hline => exact stripLinesFrom_one hc line rest
  | case3 line text ih =>
    rw [List.cons_append, List.cons_append, List.cons_append, List.cons_append, stripLinesFrom_return,
      stripLinesFrom_return, ih]
    simp only [List.append_assoc]
  | case4 line d text hnot hbreak ih =>
    -- a carriage return at the end of the text may join the line feed behind it
    by_cases hjoin : d = '\r' ∧ text = [] ∧ c = '\n'
    · obtain ⟨rfl, rfl, rfl⟩ := hjoin
      have hnil : stripLinesFrom [] [] = [] := rfl
      rw [List.cons_append, List.nil_append, List.cons_append, List.nil_append, stripLinesFrom_return,
        stripLinesFrom_return, hnil, List.append_nil]
    · have hnext : ∀ rest more, d = '\r' → text ++ c :: rest = '\n' :: more → False := by
        intro rest more hreturn htext
        cases text with
        | nil => exact hjoin ⟨hreturn, rfl, (List.cons.inj htext).1⟩
        | cons e text => exact hnot text hreturn ((List.cons.inj htext).1 ▸ rfl)
      rw [List.cons_append, List.cons_append, stripLinesFrom_break hbreak (hnext rest),
        stripLinesFrom_break hbreak (hnext []), ih, List.append_assoc]
  | case5 line d text hnot hbreak ih =>
    have hother : isLineBreak d = false := by simpa using hbreak
    rw [stripLinesFrom, stripLinesFrom] at ih
    rw [List.cons_append, List.cons_append, stripLinesFrom, stripLinesFrom, linesFrom_other hother,
      linesFrom_other hother, ih]

def Ended (text : List Char) : Prop := ∃ init c, text = init ++ [c] ∧ isLineBreak c = true

theorem Ended.strip (h : Ended text) (rest : List Char) :
    stripLinesFrom [] (text ++ rest) = stripLinesFrom [] text ++ stripLinesFrom [] rest := by
  obtain ⟨init, c, rfl, hc⟩ := h
  rw [List.append_assoc, List.singleton_append, stripLinesFrom_append hc]

theorem splitLineBodyEnding_mark (hc : isLineEnd c = false) (before line : List Char) :
    splitLineBodyEnding (before ++ c :: line) =
      (before ++ c :: (splitLineBodyEnding line).1, (splitLineBodyEnding line).2) := by
  have hends : c ≠ '\n' ∧ c ≠ '\r' := by
    rw [isLineEnd, Bool.or_eq_false_iff, decide_eq_false_iff_not, decide_eq_false_iff_not] at hc
    exact hc
  have hreverse : (before ++ c :: line).reverse = line.reverse ++ c :: before.reverse := by simp
  have hline : line = line.reverse.reverse := (List.reverse_reverse line).symm
  rw [splitLineBodyEnding, splitLineBodyEnding, hreverse]
  generalize line.reverse = ending at hline ⊢
  subst hline
  rcases ending with _ | ⟨d, _ | ⟨e, ending⟩⟩
  · simp [hends]
  · by_cases hfeed : d = '\n'
    · simp [hfeed, hends]
    · by_cases hreturn : d = '\r'
      · simp [hreturn]
      · simp [hfeed, hreturn]
  · by_cases hfeed : d = '\n'
    · by_cases hreturn : e = '\r'
      · simp [hfeed, hreturn]
      · simp [hfeed, hreturn]
    · by_cases hreturn : d = '\r'
      · simp [hreturn]
      · simp [hfeed, hreturn]

/-- A character that is no blank keeps what stands before it, and is kept. -/
theorem normalizeLine_mark (hc : isSpace c = false) (before line : List Char) :
    normalizeLine (before ++ c :: line) = before ++ c :: normalizeLine line := by
  have hend : isLineEnd c = false := by
    rw [← Bool.not_eq_true]
    intro hend
    rw [isSpace_of_isLineEnd hend] at hc
    cases hc
  rw [normalizeLine, splitLineBodyEnding_mark hend]
  dsimp only
  rw [rstrip_append_cons hc, List.append_assoc, List.cons_append]
  rfl

/-- The line under way ends where the text has its first line break, whatever it is. -/
theorem linesFrom_line (text : List Char) :
    ∃ first more, ∀ line, line ++ text ≠ [] → linesKeepingEndsFrom line text = (line ++ first) :: more := by
  induction text with
  | nil =>
    refine ⟨[], [], fun line hline => ?_⟩
    rw [List.append_nil] at hline
    rw [linesKeepingEndsFrom, if_neg hline, List.append_nil]
  | cons d text ih =>
    obtain ⟨first, more, hlines⟩ := ih
    by_cases hbreak : isLineBreak d = true
    · by_cases hjoin : d = '\r' ∧ ∃ rest, text = '\n' :: rest
      · obtain ⟨rfl, rest, rfl⟩ := hjoin
        exact ⟨['\r', '\n'], linesKeepingEndsFrom [] rest, fun line _ => linesFrom_return line rest⟩
      · exact ⟨[d], linesKeepingEndsFrom [] text, fun line _ =>
          linesFrom_break hbreak (fun rest hreturn htext => hjoin ⟨hreturn, rest, htext⟩) line⟩
    · have hother : isLineBreak d = false := by simpa using hbreak
      refine ⟨d :: first, more, fun line _ => ?_⟩
      rw [linesFrom_other hother, hlines (line ++ [d]) (by simp), List.append_assoc, List.singleton_append]

/-- What stands before a mark stays as it is as long as it is in one line, and the mark is kept. -/
theorem stripLines_mark (hmark : isSpace c = false) (hbreak : isLineBreak c = false)
    (h : ∀ d ∈ body, isLineBreak d = false) (text : List Char) :
    stripLinesFrom [] (body ++ c :: text) = body ++ c :: stripLinesFrom [] text := by
  obtain ⟨first, more, hlines⟩ := linesFrom_line text
  have hbody : linesKeepingEndsFrom [] (body ++ c :: text) = (body ++ c :: first) :: more := by
    rw [linesFrom_append h, List.nil_append, linesFrom_other hbreak, hlines (body ++ [c]) (by simp), List.append_assoc,
      List.singleton_append]
  rw [stripLinesFrom, hbody, List.flatMap_cons, normalizeLine_mark hmark, List.append_assoc, List.cons_append]
  congr 2
  by_cases htext : text = []
  · subst htext
    have hnil := hlines [c] (by simp)
    rw [linesKeepingEndsFrom, if_neg (by simp), List.cons.injEq] at hnil
    have hfirst : first = [] := by simpa using hnil.1
    rw [hfirst, ← hnil.2]
    rfl
  · rw [stripLinesFrom, hlines [] (by simpa using htext), List.nil_append, List.flatMap_cons]

end

/-! ## Composed form -/

/-- Line breaks, the number sign and the byte order mark take part in no composition. -/
def Isolated (c : Char) : Prop := isLineBreak c = true ∨ c = '#' ∨ c = '\ufeff'

/-- What `unicodedata.normalize("NFC", text)` is known for: a part of a text in composed form is in composed form,
nothing is composed across an isolated character, and none comes from other characters. -/
structure IsNfc (nfc : List Char → List Char) : Prop where
  empty : nfc [] = []
  nonempty : ∀ text, nfc text = [] → text = []
  part : ∀ text piece, nfc text = text → piece <:+: text → nfc piece = piece
  isolated : ∀ c, Isolated c → ∀ before after, nfc (before ++ c :: after) = nfc before ++ c :: nfc after
  created : ∀ c, Isolated c → ∀ text, c ∈ nfc text → c ∈ text

def composed (nfc : List Char → List Char) (text : List Char) : List Char := translate (nfc text)

section

variable {nfc : List Char → List Char} (h : IsNfc nfc) {text body rest : List Char} {c d : Char}

theorem translateChar_break (hc : isLineBreak c = true) : translateChar c = some c := by
  rw [isLineBreak, List.contains_iff_mem] at hc
  fin_cases hc <;> decide

/-- No line break comes from another character. -/
theorem eq_of_translateChar (hc : isLineBreak c = true) (hd : translateChar d = some c) : d = c := by
  unfold translateChar at hd
  split at hd
  · cases hd
    exact absurd hc (by decide)
  · split at hd
    · cases hd
      exact absurd hc (by decide)
    · split at hd
      · cases hd
        exact absurd hc (by decide)
      · split at hd
        · cases hd
          exact absurd hc (by decide)
        · split at hd
          · cases hd
          · exact Option.some.inj hd

/-- Only the byte order mark is dropped. -/
theorem eq_of_translateChar_none (hc : translateChar c = none) : c = '\ufeff' := by
  unfold translateChar at hc
  split at hc
  · cases hc
  · split at hc
    · cases hc
    · split at hc
      · cases hc
      · split at hc
        · cases hc
        · split at hc
          · next heq => exact heq
          · cases hc

include h

theorem composed_nil : composed nfc [] = [] := by
  rw [composed, h.empty]
  rfl

theorem composed_break (hc : isLineBreak c = true) (before after : List Char) :
    composed nfc (before ++ c :: after) = composed nfc before ++ c :: composed nfc after := by
  rw [composed, h.isolated c (.inl hc), translate, List.filterMap_append,
    List.filterMap_cons_some (translateChar_break hc)]
  rfl

theorem composed_mark (before after : List Char) :
    composed nfc (before ++ '#' :: after) = composed nfc before ++ '#' :: composed nfc after := by
  have hmark : translateChar '#' = some '#' := by decide
  rw [composed, h.isolated '#' (.inr (.inl rfl)), translate, List.filterMap_append, List.filterMap_cons_some hmark]
  rfl

theorem composed_bom (before after : List Char) :
    composed nfc (before ++ '\ufeff' :: after) = composed nfc before ++ composed nfc after := by
  have hdropped : translateChar '\ufeff' = none := by decide
  rw [composed, h.isolated '\ufeff' (.inr (.inr rfl)), translate, List.filterMap_append,
    List.filterMap_cons_none hdropped]
  rfl

/-- A line without line breaks stays one. -/
theorem composed_oneLine (hbody : ∀ d ∈ body, isLineBreak d = false) :
    ∀ d ∈ composed nfc body, isLineBreak d = false := by
  intro c hc
  rw [← Bool.not_eq_true]
  intro hbreak
  obtain ⟨d, hd, hsome⟩ := List.mem_filterMap.mp hc
  rw [eq_of_translateChar hbreak hsome] at hd
  rw [hbody c (h.created c (.inl hbreak) body hd)] at hbreak
  cases hbreak

/-- A text that ends with a line break is normalized on its own. -/
theorem normalizeForFuzzy_ended (htext : Ended text) (rest : List Char) :
    normalizeForFuzzy nfc (text ++ rest) = normalizeForFuzzy nfc text ++ normalizeForFuzzy nfc rest := by
  obtain ⟨init, c, rfl, hc⟩ := htext
  have hinit : composed nfc (init ++ [c]) = composed nfc init ++ [c] := by
    rw [composed_break h hc, composed_nil h]
  have hall : composed nfc (init ++ [c] ++ rest) = composed nfc (init ++ [c]) ++ composed nfc rest := by
    rw [List.append_assoc, List.singleton_append, composed_break h hc, hinit, List.append_assoc, List.singleton_append]
  have hended : Ended (composed nfc (init ++ [c])) := ⟨composed nfc init, c, hinit, hc⟩
  change stripLinesFrom [] (composed nfc (init ++ [c] ++ rest)) = _
  rw [hall, hended.strip]
  rfl

/-- What stands before a mark in its line is composed on its own. -/
theorem normalizeForFuzzy_mark (hbody : ∀ d ∈ body, isLineBreak d = false) (rest : List Char) :
    normalizeForFuzzy nfc (body ++ '#' :: rest) = composed nfc body ++ '#' :: normalizeForFuzzy nfc rest := by
  change stripLinesFrom [] (composed nfc (body ++ '#' :: rest)) = _
  rw [composed_mark h, stripLines_mark (by decide) (by decide) (composed_oneLine h hbody)]
  rfl

end

/-! ## The lines of a text -/

/-- `content.splitlines(keepends=True)`. -/
def linesOf (text : List Char) : List (List Char) := linesKeepingEndsFrom [] text

/-- A line: characters that are no line breaks, and at most one line break behind them. -/
structure Line (body ending : List Char) : Prop where
  oneLine : ∀ d ∈ body, isLineBreak d = false
  ending : ending = [] ∨ ending = ['\r', '\n'] ∨ ∃ c, ending = [c] ∧ isLineBreak c = true

section

variable {line text body ending : List Char} {before after : List (List Char)}

theorem flatten_linesFrom (line text : List Char) : (linesKeepingEndsFrom line text).flatten = line ++ text := by
  induction line, text using ToolMarkers.linesKeepingEndsFrom.induct with
  | case1 => rfl
  | case2 line hline =>
    rw [linesKeepingEndsFrom, if_neg hline, List.flatten_cons, List.flatten_nil]
  | case3 line text ih =>
    rw [linesFrom_return, List.flatten_cons, ih, List.append_assoc]
    rfl
  | case4 line c text hnot hbreak ih =>
    rw [linesFrom_break hbreak hnot, List.flatten_cons, ih, List.append_assoc]
    rfl
  | case5 line c text hnot hbreak ih =>
    have hother : isLineBreak c = false := by simpa using hbreak
    rw [linesFrom_other hother, ih, List.append_assoc]
    rfl

theorem flatten_linesOf (text : List Char) : (linesOf text).flatten = text := flatten_linesFrom [] text

/-- What each of some lines is: all but the last one have an ending. -/
def Parts (lines : List (List Char)) : Prop :=
  ∀ before whole after, lines = before ++ whole :: after →
    ∃ body ending, whole = body ++ ending ∧ Line body ending ∧ (after ≠ [] → ending ≠ [])

theorem Parts.cons {first : List Char} {lines : List (List Char)} (h : Parts lines) (hline : Line body ending)
    (hending : lines ≠ [] → ending ≠ []) (hfirst : first = body ++ ending) : Parts (first :: lines) := by
  intro before whole after heq
  rcases List.cons_eq_append_iff.mp heq with ⟨-, htail⟩ | ⟨more, -, htail⟩
  · rw [List.cons.injEq] at htail
    obtain ⟨rfl, rfl⟩ := htail
    exact ⟨body, ending, hfirst, hline, hending⟩
  · exact h more whole after htail

theorem parts_linesFrom {line : List Char} (hline : ∀ d ∈ line, isLineBreak d = false) (text : List Char) :
    Parts (linesKeepingEndsFrom line text) := by
  have hnil : Parts [] := by
    intro before whole after heq
    simp at heq
  induction line, text using ToolMarkers.linesKeepingEndsFrom.induct with
  | case1 => exact hnil
  | case2 line hne =>
    rw [linesKeepingEndsFrom, if_neg hne]
    exact hnil.cons ⟨hline, .inl rfl⟩ (fun h => absurd rfl h) (List.append_nil line).symm
  | case3 line text ih =>
    rw [linesFrom_return]
    exact (ih (List.forall_mem_nil _)).cons ⟨hline, .inr (.inl rfl)⟩ (fun _ => List.cons_ne_nil _ _) rfl
  | case4 line c text hnot hbreak ih =>
    rw [linesFrom_break hbreak hnot]
    exact (ih (List.forall_mem_nil _)).cons ⟨hline, .inr (.inr ⟨c, rfl, hbreak⟩)⟩ (fun _ => List.cons_ne_nil _ _) rfl
  | case5 line c text hnot hbreak ih =>
    have hother : isLineBreak c = false := by simpa using hbreak
    rw [linesFrom_other hother]
    refine ih fun d hd => ?_
    rcases List.mem_append.mp hd with hd | hd
    · exact hline d hd
    · rw [List.mem_singleton.mp hd]
      exact hother

theorem parts_linesOf (text : List Char) : Parts (linesOf text) := parts_linesFrom (List.forall_mem_nil _) text

/-- A line with an ending ends with a line break. -/
theorem Line.ended (h : Line body ending) (hne : ending ≠ []) : Ended (body ++ ending) := by
  rcases h.ending with rfl | rfl | ⟨c, rfl, hc⟩
  · exact absurd rfl hne
  · exact ⟨body ++ ['\r'], '\n', by simp, by decide⟩
  · exact ⟨body, c, rfl, hc⟩

/-- The lines before a line are empty or end with a line break. -/
theorem ended_before (h : linesOf text = before ++ line :: after) : before.flatten = [] ∨ Ended before.flatten := by
  rcases List.eq_nil_or_concat before with rfl | ⟨init, last, rfl⟩
  · exact .inl rfl
  · rw [List.concat_eq_append, List.append_assoc, List.singleton_append] at h
    obtain ⟨body, ending, rfl, hline, hending⟩ := parts_linesOf text init last _ h
    obtain ⟨start, c, heq, hc⟩ := hline.ended (hending (List.cons_ne_nil _ _))
    refine .inr ⟨init.flatten ++ start, c, ?_, hc⟩
    rw [List.concat_eq_append, List.flatten_append, List.flatten_singleton, heq, List.append_assoc]

end

end FuzzyText

end MindRoom
