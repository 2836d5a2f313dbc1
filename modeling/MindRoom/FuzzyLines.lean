import MindRoom.FuzzyText

/-! # Positions in normalized lines

A line of a text is a body and an ending, and its normalized line is the normalized body and the same ending. A
position of the line corresponds to one of the normalized line if what stands before it and what stands behind it are
normalized to what stands there.
-/

namespace MindRoom

open ToolMarkers (isLineEnd linesKeepingEndsFrom)
open InteractiveText (isSpace rstrip rstrip_append_cons)

namespace FuzzyText

/-! ## Body and ending -/

/-- What a line is split into: a line separator other than a carriage return or a line feed stays in the body. -/
structure SplitLine (body ending : List Char) : Prop where
  plainEnding : ending = [] ∨ ending = ['\r', '\n'] ∨ ending = ['\n'] ∨ ending = ['\r']
  oneLine : (∀ d ∈ body, isLineBreak d = false) ∨
    ∃ init c, (∀ d ∈ init, isLineBreak d = false) ∧ isLineBreak c = true ∧ isLineEnd c = false ∧
      body = init ++ [c] ∧ ending = []

section

variable {nfc : List Char → List Char} {line text body ending rest : List Char} {i t : Nat} {c : Char}

/-- A text without line breaks and an ending. -/
theorem stripLines_line (h : Line body ending) : stripLinesFrom [] (body ++ ending) = normalizeLine (body ++ ending) := by
  by_cases hnil : body ++ ending = []
  · rw [hnil]
    rfl
  · have hlines : linesKeepingEndsFrom [] (body ++ ending) = [body ++ ending] := by
      rw [linesFrom_append h.oneLine, List.nil_append]
      rcases h.ending with rfl | rfl | ⟨c, rfl, hc⟩
      · rw [List.append_nil] at hnil ⊢
        rw [linesKeepingEndsFrom, if_neg hnil]
      · exact linesFrom_return body []
      · exact linesFrom_break hc (fun rest _ h => by cases h) body
    rw [stripLinesFrom, hlines, List.flatMap_singleton]

theorem SplitLine.toLine (h : SplitLine body ending) : ∃ init more, body ++ ending = init ++ more ∧ Line init more := by
  rcases h.oneLine with hbody | ⟨init, c, hinit, hc, -, rfl, rfl⟩
  · refine ⟨body, ending, rfl, hbody, ?_⟩
    rcases h.plainEnding with rfl | rfl | rfl | rfl
    · exact .inl rfl
    · exact .inr (.inl rfl)
    · exact .inr (.inr ⟨'\n', rfl, by decide⟩)
    · exact .inr (.inr ⟨'\r', rfl, by decide⟩)
  · exact ⟨init, [c], List.append_nil _, hinit, .inr (.inr ⟨c, rfl, hc⟩)⟩

theorem SplitLine.split_eq (h : SplitLine body ending) : splitLineBodyEnding (body ++ ending) = (body, ending) := by
  rcases h.oneLine with hbody | ⟨init, c, hinit, -, hother, rfl, rfl⟩
  · have hreturn : '\r' ∉ body := fun hmem => absurd (hbody _ hmem) (by decide)
    rcases h.plainEnding with rfl | rfl | rfl | rfl
    · rw [List.append_nil, splitLine_oneLine hbody]
    · exact splitLine_return body
    · exact splitLine_feed hreturn
    · exact splitLine_carriage body
  · rw [List.append_nil]
    apply splitLine_of_other
    intro d hd
    rw [List.getLast?_concat, Option.mem_some_iff] at hd
    rw [← hd]
    exact hother

/-- What is left of a line from some position of its body on is a line. -/
theorem SplitLine.drop (h : SplitLine body ending) (i : Nat) : SplitLine (body.drop i) ending := by
  refine ⟨h.plainEnding, ?_⟩
  rcases h.oneLine with hbody | ⟨init, c, hinit, hc, hother, rfl, rfl⟩
  · exact .inl fun d hd => hbody d (List.mem_of_mem_drop hd)
  · rw [List.drop_append]
    rcases Nat.eq_zero_or_pos (i - init.length) with hzero | hpos
    · rw [hzero, List.drop_zero]
      exact .inr ⟨init.drop i, c, fun d hd => hinit d (List.mem_of_mem_drop hd), hc, hother, rfl, rfl⟩
    · rw [List.drop_eq_nil_of_le (show init.length ≤ i by omega), List.drop_eq_nil_of_le (show [c].length ≤ _ from hpos)]
      exact .inl (List.forall_mem_nil _)

theorem SplitLine.dropEnding (hs : SplitLine body ending) (t : Nat) : SplitLine [] (ending.drop t) := by
  refine ⟨?_, .inl (List.forall_mem_nil _)⟩
  rcases hs.plainEnding with rfl | rfl | rfl | rfl
  · exact .inl List.drop_nil
  · rcases t with _ | _ | t
    · exact .inr (.inl rfl)
    · exact .inr (.inr (.inl rfl))
    · exact .inl (List.drop_eq_nil_of_le (by simp))
  · rcases t with _ | t
    · exact .inr (.inr (.inl rfl))
    · exact .inl (List.drop_eq_nil_of_le (by simp))
  · rcases t with _ | t
    · exact .inr (.inr (.inr rfl))
    · exact .inl (List.drop_eq_nil_of_le (by simp))

theorem SplitLine.strip (h : SplitLine body ending) : stripLinesFrom [] (body ++ ending) = rstrip body ++ ending := by
  obtain ⟨init, more, hparts, hline⟩ := h.toLine
  rw [hparts, stripLines_line hline, ← hparts, normalizeLine, h.split_eq]

theorem composed_ending (h : IsNfc nfc) (hs : SplitLine body ending) :
    composed nfc (body ++ ending) = composed nfc body ++ ending := by
  rcases hs.plainEnding with rfl | rfl | rfl | rfl
  · rw [List.append_nil, List.append_nil]
  · have hfeed := composed_break h (c := '\n') (by decide) [] []
    rw [List.nil_append, composed_nil h, List.nil_append] at hfeed
    rw [composed_break h (by decide), hfeed]
  · rw [composed_break h (by decide), composed_nil h]
  · rw [composed_break h (by decide), composed_nil h]

theorem SplitLine.composed (h : IsNfc nfc) (hs : SplitLine body ending) : SplitLine (composed nfc body) ending := by
  refine ⟨hs.plainEnding, ?_⟩
  rcases hs.oneLine with hbody | ⟨init, c, hinit, hc, hother, rfl, rfl⟩
  · exact .inl (composed_oneLine h hbody)
  · refine .inr ⟨FuzzyText.composed nfc init, c, composed_oneLine h hinit, hc, hother, ?_, rfl⟩
    rw [composed_break h hc, composed_nil h]

theorem SplitLine.normalize (h : IsNfc nfc) (hs : SplitLine body ending) :
    normalizeForFuzzy nfc (body ++ ending) = rstrip (FuzzyText.composed nfc body) ++ ending := by
  change stripLinesFrom [] (FuzzyText.composed nfc (body ++ ending)) = _
  rw [composed_ending h hs]
  exact (hs.composed h).strip

end

/-! ## Corresponding positions -/

/-- A line of a text between the lines before it and those behind it. -/
structure Place (content : List Char) (before : List (List Char)) (body ending : List Char)
    (after : List (List Char)) : Prop where
  lines : linesOf content = before ++ (body ++ ending) :: after
  split : SplitLine body ending
  ended : after ≠ [] → Ended (body ++ ending)

def normalizedLine (nfc : List Char → List Char) (body ending : List Char) : List Char :=
  rstrip (composed nfc body) ++ ending

section

variable {nfc : List Char → List Char} {content body ending body' ending' : List Char}
  {before after before' after' : List (List Char)} {i j i' j' : Nat}

theorem Place.content_eq (hp : Place content before body ending after) :
    content = before.flatten ++ (body ++ ending ++ after.flatten) := by
  conv_lhs => rw [← flatten_linesOf content, hp.lines]
  rw [List.flatten_append, List.flatten_cons]

theorem Ended.drop {text : List Char} (h : Ended text) (i : Nat) : text.drop i = [] ∨ Ended (text.drop i) := by
  obtain ⟨init, c, rfl, hc⟩ := h
  rcases Nat.lt_or_ge init.length i with hlt | hle
  · exact .inl (List.drop_eq_nil_of_le (by simpa using hlt))
  · exact .inr ⟨init.drop i, c, List.drop_append_of_le_length hle, hc⟩

/-- What stands before a position of the line, and what stands behind it, is normalized to what stands there in the
normalized line. -/
structure Corresponds (nfc : List Char → List Char) (body ending : List Char) (i j : Nat) : Prop where
  fits : i ≤ (body ++ ending).length
  within : j ≤ (normalizedLine nfc body ending).length
  behind : normalizeForFuzzy nfc ((body ++ ending).drop i) = (normalizedLine nfc body ending).drop j

/-- A mark put at the position keeps what stands before it. -/
def KeepsBefore (nfc : List Char → List Char) (body ending : List Char) (i j : Nat) : Prop :=
  ∀ rest, normalizeForFuzzy nfc ((body ++ ending).take i ++ '#' :: rest) =
    (normalizedLine nfc body ending).take j ++ '#' :: normalizeForFuzzy nfc rest

/-! ### Blanks at the end -/

theorem rstrip_split (text : List Char) : ∃ blanks, text = rstrip text ++ blanks ∧ (∀ c ∈ blanks, isSpace c = true) ∧
      ∀ c ∈ (rstrip text).getLast?, isSpace c = false := by
  refine ⟨(text.reverse.takeWhile isSpace).reverse, ?_, ?_, ?_⟩
  · rw [rstrip, ← List.reverse_append, List.takeWhile_append_dropWhile, List.reverse_reverse]
  · intro c hc
    exact List.mem_takeWhile_imp (List.mem_reverse.mp hc)
  · intro c hc
    rw [rstrip, List.getLast?_reverse] at hc
    have hnot := List.head?_dropWhile_not isSpace text.reverse
    rw [hc] at hnot
    simpa using hnot

/-- Blanks are stripped from a text that does not end with one. -/
theorem rstrip_append_blanks {text blanks : List Char} (htext : ∀ c ∈ text.getLast?, isSpace c = false)
    (hblanks : ∀ c ∈ blanks, isSpace c = true) : rstrip (text ++ blanks) = text := by
  have hreverse : ∀ c ∈ blanks.reverse, isSpace c = true := fun c hc => hblanks c (List.mem_reverse.mp hc)
  rw [rstrip, List.reverse_append, List.dropWhile_append_of_pos hreverse]
  rw [← List.head?_reverse] at htext
  cases hcons : text.reverse with
  | nil => rw [← List.reverse_reverse text, hcons]; rfl
  | cons c rest =>
    have hc := htext c (hcons ▸ rfl)
    rw [List.dropWhile_cons_of_neg (by simp [hc]), ← hcons, List.reverse_reverse]

theorem rstrip_take {text : List Char} (hj : j ≤ (rstrip text).length) : (rstrip text).take j = text.take j := by
  obtain ⟨blanks, hsplit, -, -⟩ := rstrip_split text
  conv_rhs => rw [hsplit]
  rw [List.take_append_of_le_length hj]

theorem rstrip_drop {text : List Char} (hj : j ≤ (rstrip text).length) :
    rstrip (text.drop j) = (rstrip text).drop j := by
  obtain ⟨blanks, hsplit, hblanks, hlast⟩ := rstrip_split text
  have hdrop : text.drop j = (rstrip text).drop j ++ blanks := by
    conv_lhs => rw [hsplit]
    rw [List.drop_append_of_le_length hj]
  rw [hdrop]
  refine rstrip_append_blanks (fun c hc => ?_) hblanks
  rw [List.getLast?_drop] at hc
  split at hc
  · cases hc
  · exact hlast c hc

section

variable (h : IsNfc nfc)

include h

theorem normalizeForFuzzy_nil : normalizeForFuzzy nfc [] = [] := by
  change stripLinesFrom [] (composed nfc []) = []
  rw [composed_nil h]
  rfl

theorem Place.normalize_before (hp : Place content before body ending after) (rest : List Char) :
    normalizeForFuzzy nfc (before.flatten ++ rest) =
      normalizeForFuzzy nfc before.flatten ++ normalizeForFuzzy nfc rest := by
  rcases ended_before hp.lines with hnil | hended
  · rw [hnil, normalizeForFuzzy_nil h]
    rfl
  · exact normalizeForFuzzy_ended h hended rest

theorem Place.normalize_drop (hp : Place content before body ending after) (i : Nat) :
    normalizeForFuzzy nfc ((body ++ ending).drop i ++ after.flatten) =
      normalizeForFuzzy nfc ((body ++ ending).drop i) ++ normalizeForFuzzy nfc after.flatten := by
  by_cases hafter : after = []
  · rw [hafter, List.flatten_nil, normalizeForFuzzy_nil h, List.append_nil, List.append_nil]
  · rcases (hp.ended hafter).drop i with hnil | hended
    · rw [hnil, normalizeForFuzzy_nil h]
      rfl
    · exact normalizeForFuzzy_ended h hended _

/-- The normalized text around the line. -/
theorem Place.normalize_content (hp : Place content before body ending after) :
    normalizeForFuzzy nfc content = normalizeForFuzzy nfc before.flatten ++
      (normalizedLine nfc body ending ++ normalizeForFuzzy nfc after.flatten) := by
  have hline := hp.normalize_drop h 0
  rw [List.drop_zero] at hline
  rw [hp.content_eq, hp.normalize_before h, hline, hp.split.normalize h]
  rfl

/-- What stands behind a position of the line is normalized to what stands behind the corresponding one. -/
theorem Place.normalize_behind (hp : Place content before body ending after) (hend : Corresponds nfc body ending i j) :
    normalizeForFuzzy nfc (content.drop (before.flatten.length + i)) =
      (normalizeForFuzzy nfc content).drop ((normalizeForFuzzy nfc before.flatten).length + j) := by
  have hdrop : content.drop (before.flatten.length + i) = (body ++ ending).drop i ++ after.flatten := by
    conv_lhs => rw [hp.content_eq]
    rw [List.drop_length_add_append, List.drop_append_of_le_length hend.fits]
  have hnormal : (normalizeForFuzzy nfc content).drop ((normalizeForFuzzy nfc before.flatten).length + j) =
      (normalizedLine nfc body ending).drop j ++ normalizeForFuzzy nfc after.flatten := by
    rw [hp.normalize_content h, List.drop_length_add_append, List.drop_append_of_le_length hend.within]
  rw [hdrop, hnormal, hp.normalize_drop h, hend.behind]

/-- Putting a mark in the place of what stands between two positions. -/
theorem normalize_replaced (hp : Place content before body ending after) (hp' : Place content before' body' ending' after')
    (hstart : Corresponds nfc body ending i j) (hkeeps : KeepsBefore nfc body ending i j)
    (hend : Corresponds nfc body' ending' i' j') : normalizeForFuzzy nfc (content.take (before.flatten.length + i) ++
        '#' :: content.drop (before'.flatten.length + i')) =
      (normalizeForFuzzy nfc content).take ((normalizeForFuzzy nfc before.flatten).length + j) ++
        '#' :: (normalizeForFuzzy nfc content).drop ((normalizeForFuzzy nfc before'.flatten).length + j') := by
  have htake : content.take (before.flatten.length + i) = before.flatten ++ (body ++ ending).take i := by
    conv_lhs => rw [hp.content_eq]
    rw [List.take_length_add_append, List.take_append_of_le_length hstart.fits]
  have hnormal : (normalizeForFuzzy nfc content).take ((normalizeForFuzzy nfc before.flatten).length + j) =
      normalizeForFuzzy nfc before.flatten ++ (normalizedLine nfc body ending).take j := by
    rw [hp.normalize_content h, List.take_length_add_append, List.take_append_of_le_length hstart.within]
  rw [htake, hnormal, List.append_assoc, hp.normalize_before h, hkeeps, hp'.normalize_behind h hend, List.append_assoc]

/-! ### Positions of the body and of the ending -/

/-- A position of the body, behind which the normalized body goes on with what stands there. -/
theorem corresponds_body (hs : SplitLine body ending) (hi : i ≤ body.length) (hj : j ≤ (rstrip (composed nfc body)).length)
    (hbehind : composed nfc (body.drop i) = (composed nfc body).drop j) : Corresponds nfc body ending i j := by
  refine ⟨?_, ?_, ?_⟩
  · rw [List.length_append]
    omega
  · rw [normalizedLine, List.length_append]
    omega
  · rw [List.drop_append_of_le_length hi, (hs.drop i).normalize h, hbehind, rstrip_drop hj, normalizedLine,
      List.drop_append_of_le_length hj]

theorem keepsBefore_body (hi : i ≤ body.length) (hone : ∀ d ∈ body.take i, isLineBreak d = false)
    (hj : j ≤ (rstrip (composed nfc body)).length) (hbefore : composed nfc (body.take i) = (composed nfc body).take j) :
    KeepsBefore nfc body ending i j := by
  intro rest
  rw [List.take_append_of_le_length hi, normalizeForFuzzy_mark h hone, hbefore, normalizedLine,
    List.take_append_of_le_length hj, rstrip_take hj]

/-- A position of the ending, or the end of the body. -/
theorem corresponds_ending (hs : SplitLine body ending) {t : Nat} (ht : t ≤ ending.length) :
    Corresponds nfc body ending (body.length + t) ((rstrip (composed nfc body)).length + t) := by
  refine ⟨?_, ?_, ?_⟩
  · rw [List.length_append]
    omega
  · rw [normalizedLine, List.length_append]
    omega
  · have hrest := (hs.dropEnding t).normalize h
    have hnil : rstrip [] = [] := rfl
    rw [List.nil_append, composed_nil h, hnil, List.nil_append] at hrest
    rw [List.drop_length_add_append, normalizedLine, List.drop_length_add_append, hrest]

theorem normalizeForFuzzy_startMark (rest : List Char) :
    normalizeForFuzzy nfc ('#' :: rest) = '#' :: normalizeForFuzzy nfc rest := by
  have hmark := normalizeForFuzzy_mark h (List.forall_mem_nil _) rest
  rwa [List.nil_append, composed_nil h, List.nil_append] at hmark

/-- Within the ending, the blanks of the body are stripped with or without the mark. -/
theorem keepsBefore_ending (hs : SplitLine body ending) {t : Nat} (hpos : 0 < t) (ht : t ≤ ending.length) :
    KeepsBefore nfc body ending (body.length + t) ((rstrip (composed nfc body)).length + t) := by
  intro rest
  have hsplit : SplitLine body (ending.take t) ∧ Ended (body ++ ending.take t) := by
    rcases hs.oneLine with hbody | ⟨init, c, -, -, -, -, rfl⟩
    · rcases hs.plainEnding with rfl | rfl | rfl | rfl
      · rw [List.length_nil] at ht
        omega
      · rcases t with _ | _ | t
        · omega
        · exact ⟨⟨.inr (.inr (.inr rfl)), .inl hbody⟩, body, '\r', rfl, by decide⟩
        · rw [List.take_of_length_le (by simp)]
          exact ⟨hs, body ++ ['\r'], '\n', by simp, by decide⟩
      · rw [List.take_of_length_le (show ['\n'].length ≤ t from hpos)]
        exact ⟨hs, body, '\n', rfl, by decide⟩
      · rw [List.take_of_length_le (show ['\r'].length ≤ t from hpos)]
        exact ⟨hs, body, '\r', rfl, by decide⟩
    · rw [List.length_nil] at ht
      omega
  rw [List.take_length_add_append, normalizedLine, List.take_length_add_append, normalizeForFuzzy_ended h hsplit.2,
    hsplit.1.normalize h, normalizeForFuzzy_startMark h]

/-- At the end of a body a mark keeps the blanks before it, unless a line separator is one of them. -/
theorem keepsBefore_end (hs : SplitLine body ending)
    (hblanks : Ended body ∨ rstrip (composed nfc body) = composed nfc body) :
    KeepsBefore nfc body ending body.length (rstrip (composed nfc body)).length := by
  rcases hs.oneLine with hbody | ⟨init, c, hinit, hc, -, rfl, rfl⟩
  · have hstays : rstrip (composed nfc body) = composed nfc body := by
      rcases hblanks with ⟨init, c, rfl, hc⟩ | hstays
      · rw [hbody c (List.mem_append_right init (List.mem_singleton_self c))] at hc
        cases hc
      · exact hstays
    refine keepsBefore_body h le_rfl (fun d hd => hbody d (List.mem_of_mem_take hd)) le_rfl ?_
    rw [List.take_length, hstays, List.take_length]
  · intro rest
    have hended : Ended (init ++ [c]) := ⟨init, c, rfl, hc⟩
    have hline := hs.normalize h
    rw [List.append_nil, List.append_nil] at hline
    rw [List.append_nil, List.take_length, normalizeForFuzzy_ended h hended, hline, normalizeForFuzzy_startMark h,
      normalizedLine, List.append_nil, List.take_length]

end

end

end FuzzyText

end MindRoom
