import MindRoom.CandidateLog
import MindRoom.MessageTags
import MindRoom.ToolMarkers

/-! # Lines of tool markers

A marker is a line of its own in a text, and it is read back as one. The marker of one call is in no marker of
another call, so that it is found by its text wherever nothing else holds this text.
-/

namespace MindRoom.ToolMarkers

/-! ## The last occurrence -/

section

variable {word old new text post : List Char}

/-- A word without a separator is on one side of it. -/
theorem infix_append_cons {c : Char} (hc : c ∉ word) (text rest : List Char) :
    word <:+: text ++ c :: rest ↔ word <:+: text ∨ word <:+: rest := by
  constructor
  · rintro ⟨before, after, h⟩
    rcases List.append_eq_append_iff.mp h with ⟨more, htext, -⟩ | ⟨more, htext, hrest⟩
    · exact .inl ⟨before, more, htext.symm⟩
    · cases more with
      | nil =>
        rw [List.append_nil] at htext
        exact .inl ⟨before, [], (List.append_nil _).trans htext⟩
      | cons d more =>
        rw [List.cons_append, List.cons.injEq] at hrest
        obtain ⟨rfl, rfl⟩ := hrest
        rcases List.append_eq_append_iff.mp htext with ⟨start, -, hword⟩ | ⟨start, -, hword⟩
        · exact absurd (hword ▸ List.mem_append_right start List.mem_cons_self) hc
        · cases start with
          | nil =>
            rw [List.nil_append] at hword
            exact absurd (hword ▸ List.mem_cons_self) hc
          | cons d start =>
            rw [List.cons_append, List.cons.injEq] at hword
            rw [hword.2]
            exact .inr ⟨start, after, rfl⟩
  · rintro (h | h)
    · exact List.infix_append_of_infix_left h
    · exact List.infix_append_of_infix_right (List.infix_cons h)

theorem replaceLast_of_not_infix (hne : old ≠ []) (h : ¬ old <:+: text) : replaceLast old new text = none := by
  induction text with
  | nil => rw [replaceLast, if_neg hne]
  | cons c text ih =>
    rw [List.infix_cons_iff, not_or] at h
    rw [replaceLast, ih h.2]
    dsimp only
    rw [if_neg fun hstart => h.1 (List.isPrefixOf_iff_prefix.mp hstart)]

theorem replaceLast_append {replaced : List Char} (h : replaceLast old new text = some replaced) (start : List Char) :
    replaceLast old new (start ++ text) = some (start ++ replaced) := by
  induction start with
  | nil => exact h
  | cons c start ih => rw [List.cons_append, replaceLast, ih, List.cons_append]

/-- A word at the end of a line is replaced if it does not occur behind it. -/
theorem replaceLast_line (hne : old ≠ []) (hline : '\n' ∉ old) (h : ¬ old <:+: post) (start : List Char) :
    replaceLast old new (start ++ (old ++ '\n' :: post)) = some (start ++ (new ++ '\n' :: post)) := by
  apply replaceLast_append
  cases old with
  | nil => exact absurd rfl hne
  | cons c word =>
    have htail : ¬ c :: word <:+: word ++ '\n' :: post := by
      rw [infix_append_cons hline, not_or]
      refine ⟨fun hin => ?_, h⟩
      have hle := hin.length_le
      rw [List.length_cons] at hle
      omega
    rw [List.cons_append, replaceLast, replaceLast_of_not_infix hne htail]
    dsimp only
    rw [← List.cons_append, if_pos (List.isPrefixOf_iff_prefix.mpr (List.prefix_append _ _)), List.drop_left]

end

/-! ## Marker lines -/

/-- A tool name that is not empty and has neither backticks nor line breaks. -/
structure PlainName (toolName : String) : Prop where
  nonempty : toolName ≠ ""
  unquoted : '\x60' ∉ toolName.toList
  oneLine : ∀ c ∈ toolName.toList, isLineBreak c = false

section

variable {toolName toolName' : String} {toolIndex toolIndex' : Nat} {pending pending' : Bool} {c : Char}

def pendingText (pending : Bool) : List Char := if pending then toolPendingMarker.toList else []

theorem toList_toolMarkerLine : (toolMarkerLine toolName toolIndex pending).toList =
    '🔧' :: ' ' :: '\x60' :: ((safeToolName toolName).toList ++ '\x60' :: ' ' :: '[' ::
      (Nat.toDigits 10 toolIndex ++ ']' :: pendingText pending)) := by
  have hindex : (toString toolIndex).toList = Nat.toDigits 10 toolIndex := Nat.toList_repr
  rw [toolMarkerLine, String.toList_append, String.toList_append, String.toList_append, String.toList_append,
    String.toList_append, hindex, pendingText]
  cases pending <;> simp [List.append_assoc]

theorem mem_safeToolName (h : c ∈ (safeToolName toolName).toList) (hname : '\x60' ∉ toolName.toList) :
    c = '\u200b' ∨ c ∈ toolName.toList := by
  rw [safeToolName, String.toList_ofList, List.mem_flatMap] at h
  obtain ⟨d, hd, hc⟩ := h
  split at hc
  · next hat =>
    rw [List.mem_cons, List.mem_singleton] at hc
    rcases hc with rfl | rfl
    · exact .inr (hat ▸ hd)
    · exact .inl rfl
  · split at hc
    · next hquote => exact absurd (hquote ▸ hd) hname
    · rw [List.mem_singleton] at hc
      exact .inr (hc ▸ hd)

theorem PlainName.unquoted_safe (h : PlainName toolName) : '\x60' ∉ (safeToolName toolName).toList := by
  intro hmem
  rcases mem_safeToolName hmem h.unquoted with heq | hmem
  · exact absurd heq (by decide)
  · exact h.unquoted hmem

theorem PlainName.oneLine_safe (h : PlainName toolName) : ∀ c ∈ (safeToolName toolName).toList, isLineBreak c = false := by
  intro c hmem
  rcases mem_safeToolName hmem h.unquoted with rfl | hmem
  · decide
  · exact h.oneLine c hmem

theorem PlainName.safe_ne_nil (h : PlainName toolName) : (safeToolName toolName).toList ≠ [] := by
  rw [safeToolName, String.toList_ofList]
  have hne : toolName.toList ≠ [] := fun hnil => h.nonempty (String.toList_eq_nil_iff.mp hnil)
  obtain ⟨c, rest, hcons⟩ := List.exists_cons_of_ne_nil hne
  rw [hcons, List.flatMap_cons]
  split
  · exact List.cons_ne_nil _ _
  · split
    · exact List.cons_ne_nil _ _
    · exact List.cons_ne_nil _ _

theorem digit_of_mem {n : Nat} (h : c ∈ Nat.toDigits 10 n) : c.isDigit = true :=
  Nat.isDigit_of_mem_toDigits (by decide) (by decide) h

theorem not_digit_mem {n : Nat} (h : c.isDigit = false) : c ∉ Nat.toDigits 10 n := fun hmem => by
  rw [digit_of_mem hmem] at h
  cases h

theorem unquoted_rest (toolIndex : Nat) (pending : Bool) :
    '\x60' ∉ ' ' :: '[' :: (Nat.toDigits 10 toolIndex ++ ']' :: pendingText pending) := by
  have hpending : '\x60' ∉ pendingText pending := by cases pending <;> decide
  have hdigits : '\x60' ∉ Nat.toDigits 10 toolIndex := not_digit_mem (by decide)
  simp [hpending, hdigits]

/-- A marker has two quotes. -/
theorem count_toolMarkerLine (h : PlainName toolName) :
    (toolMarkerLine toolName toolIndex pending).toList.count '\x60' = 2 := by
  have hsafe := List.count_eq_zero.mpr h.unquoted_safe
  have hrest := List.count_eq_zero.mpr (unquoted_rest toolIndex pending)
  rw [toList_toolMarkerLine, List.count_cons_of_ne (by decide), List.count_cons_of_ne (by decide), List.count_cons_self,
    List.count_append, hsafe, List.count_cons_self, hrest]

/-- The first separator cuts a text in one way. -/
theorem cut_unique {c : Char} {start start' rest rest' : List Char} (h : start ++ c :: rest = start' ++ c :: rest')
    (hstart : c ∉ start) (hstart' : c ∉ start') : start = start' ∧ rest = rest' := by
  induction start generalizing start' with
  | nil =>
    cases start' with
    | nil => exact ⟨rfl, (List.cons.inj h).2⟩
    | cons d start' => exact absurd ((List.cons.inj h).1 ▸ List.mem_cons_self) hstart'
  | cons d start ih =>
    rw [List.mem_cons, not_or] at hstart
    cases start' with
    | nil => exact absurd (List.cons.inj h).1.symm hstart.1
    | cons d' start' =>
      rw [List.mem_cons, not_or] at hstart'
      rw [List.cons_append, List.cons_append, List.cons.injEq] at h
      obtain ⟨hsame, hrest⟩ := ih h.2 hstart.2 hstart'.2
      exact ⟨congrArg₂ List.cons h.1 hsame, hrest⟩

/-- The marker of one call is in no marker of another. -/
theorem not_infix_toolMarkerLine (hname : PlainName toolName) (hname' : PlainName toolName')
    (hne : toolIndex ≠ toolIndex') :
    ¬ (toolMarkerLine toolName toolIndex pending).toList <:+: (toolMarkerLine toolName' toolIndex' pending').toList := by
  rintro ⟨before, after, h⟩
  have hbefore : '\x60' ∉ before := by
    have hcount := congrArg (List.count '\x60') h
    rw [List.count_append, List.count_append, count_toolMarkerLine hname, count_toolMarkerLine hname'] at hcount
    exact List.count_eq_zero.mp (by omega)
  have hicon : '\x60' ∉ before ++ ['🔧', ' '] := by simp [hbefore]
  rw [toList_toolMarkerLine, toList_toolMarkerLine] at h
  -- both texts are cut at their quotes, and then behind the index
  have hquotes : (before ++ ['🔧', ' ']) ++ '\x60' :: ((safeToolName toolName).toList ++ '\x60' ::
      (' ' :: '[' :: (Nat.toDigits 10 toolIndex ++ ']' :: (pendingText pending ++ after)))) =
        ['🔧', ' '] ++ '\x60' :: ((safeToolName toolName').toList ++ '\x60' ::
          (' ' :: '[' :: (Nat.toDigits 10 toolIndex' ++ ']' :: pendingText pending'))) := by
    simpa [List.append_assoc] using h
  have hopen := (cut_unique hquotes hicon (by decide)).2
  have hclose := (cut_unique hopen hname.unquoted_safe hname'.unquoted_safe).2
  rw [List.cons.injEq, List.cons.injEq] at hclose
  have hdigits := (cut_unique hclose.2.2 (not_digit_mem (by decide)) (not_digit_mem (by decide))).1
  exact hne (JsonText.toDigits_injective hdigits)

theorem digit_isDecimal (h : c.isDigit = true) : isDecimal c = true := by
  rw [Char.isDigit, Bool.and_eq_true, decide_eq_true_eq, decide_eq_true_eq] at h
  rw [isDecimal, inRanges, DynamicWorkflow.decimalRanges, List.any_cons, Bool.or_eq_true]
  left
  rw [Bool.and_eq_true, decide_eq_true_eq, decide_eq_true_eq]
  exact h

theorem afterRun_append {p : Char → Bool} {word : List Char} (hword : ∀ c ∈ word, p c = true) (hne : word ≠ [])
    (hc : p c = false) (rest : List Char) : afterRun p (word ++ c :: rest) = some (c :: rest) := by
  have htake : (word ++ c :: rest).takeWhile p = word := by
    rw [List.takeWhile_append_of_pos hword, List.takeWhile_cons_of_neg (by simp [hc]), List.append_nil]
  have hdrop : (word ++ c :: rest).dropWhile p = c :: rest := by
    rw [List.dropWhile_append_of_pos hword, List.dropWhile_cons_of_neg (by simp [hc])]
  rw [afterRun, htake, if_neg hne, hdrop]

/-- A marker is read back as one. -/
theorem isVisibleToolMarkerLine_toolMarkerLine (h : PlainName toolName) :
    isVisibleToolMarkerLine (toolMarkerLine toolName toolIndex pending).toList = true := by
  have hicon : "🔧 `".toList = ['🔧', ' ', '\x60'] := rfl
  have hopen : "` [".toList = ['\x60', ' ', '['] := rfl
  have hspace : isSpace '🔧' = false := by decide
  have hunquoted : ∀ c ∈ (safeToolName toolName).toList, decide (c ≠ '\x60') = true := fun c hc =>
    decide_eq_true fun heq => h.unquoted_safe (heq ▸ hc)
  have hdecimal : ∀ c ∈ Nat.toDigits 10 toolIndex, isDecimal c = true := fun c hc =>
    digit_isDecimal (digit_of_mem hc)
  have hquote : decide ('\x60' ≠ '\x60') = false := by decide
  have hbracket : isDecimal ']' = false := by decide
  have hname := afterRun_append hunquoted h.safe_ne_nil hquote
    (' ' :: '[' :: (Nat.toDigits 10 toolIndex ++ ']' :: pendingText pending))
  have hindex := afterRun_append hdecimal Nat.toDigits_ne_nil hbracket (pendingText pending)
  have hfirst : ∀ text : List Char, ('🔧' :: ' ' :: '\x60' :: text).dropPrefix? ['🔧', ' ', '\x60'] = some text :=
    MessageTags.dropPrefix?_append ['🔧', ' ', '\x60']
  have hsecond : ∀ text : List Char, ('\x60' :: ' ' :: '[' :: text).dropPrefix? ['\x60', ' ', '['] = some text :=
    MessageTags.dropPrefix?_append ['\x60', ' ', '[']
  have hthird : ∀ text : List Char, (']' :: text).dropPrefix? [']'] = some text := MessageTags.dropPrefix?_append [']']
  rw [toList_toolMarkerLine, isVisibleToolMarkerLine, List.dropWhile_cons_of_neg (by simp [hspace]), hicon, hopen]
  simp only [hfirst, hname, hsecond, hindex, hthird, Option.bind_eq_bind, Option.bind_some]
  cases pending <;> decide

theorem toolMarkerLine_oneLine (h : PlainName toolName) :
    ∀ c ∈ (toolMarkerLine toolName toolIndex pending).toList, isLineBreak c = false := by
  intro c hc
  have hdigits : ∀ c ∈ Nat.toDigits 10 toolIndex, isLineBreak c = false := by
    intro c hc
    rw [← Bool.not_eq_true]
    intro hbreak
    rw [isLineBreak, List.contains_iff_mem] at hbreak
    have hdigit := digit_of_mem hc
    revert hdigit
    fin_cases hbreak <;> decide
  have hpending : ∀ c ∈ pendingText pending, isLineBreak c = false := by
    cases pending <;> simp [pendingText, toolPendingMarker, isLineBreak]
  rw [toList_toolMarkerLine] at hc
  simp only [List.mem_cons, List.mem_append] at hc
  rcases hc with rfl | rfl | rfl | hc | rfl | rfl | rfl | hc | rfl | hc
  · decide
  · decide
  · decide
  · exact h.oneLine_safe c hc
  · decide
  · decide
  · decide
  · exact hdigits c hc
  · decide
  · exact hpending c hc

end

/-! ## The markers of a text -/

/-- The marker lines of a text, without the blanks around them. -/
def visibleMarkers (text : List Char) : List (List Char) :=
  ((splitlines text).filter isVisibleToolMarkerLine).map fun line => strip (String.ofList line)

section

variable {line text rest : List Char} {c : Char}

/-- A line break ends the line under way. -/
theorem splitlinesFrom_break (hc : isLineBreak c = true) (h : ∀ rest, c = '\r' → text = '\n' :: rest → False)
    (line : List Char) : splitlinesFrom line (c :: text) = line :: splitlinesFrom [] text := by
  rw [splitlinesFrom, if_pos hc]
  exact h

theorem splitlinesFrom_other (hc : isLineBreak c = false) (line text : List Char) :
    splitlinesFrom line (c :: text) = splitlinesFrom (line ++ [c]) text := by
  rw [splitlinesFrom, if_neg (by simp [hc])]
  rintro rest rfl
  exact absurd hc (by decide)

theorem splitlinesFrom_newline (line rest : List Char) : splitlinesFrom line ('\n' :: rest) = line :: splitlines rest :=
  splitlinesFrom_break (by decide) (fun rest h => absurd h (by decide)) line

/-- The marker lines from a line under way on. -/
theorem visible_splitlinesFrom (line text rest : List Char) :
    (splitlinesFrom line (text ++ '\n' :: rest)).filter isVisibleToolMarkerLine =
      (splitlinesFrom line text).filter isVisibleToolMarkerLine ++
        (splitlines rest).filter isVisibleToolMarkerLine := by
  have hblank : isVisibleToolMarkerLine [] = false := by decide
  induction line, text using splitlinesFrom.induct with
  | case1 =>
    rw [List.nil_append, splitlinesFrom_newline, List.filter_cons, hblank]
    rfl
  | case2 line hline =>
    rw [List.nil_append, splitlinesFrom_newline, splitlinesFrom, if_neg hline, List.filter_cons, List.filter_cons]
    split <;> rfl
  | case3 line text ih =>
    rw [List.cons_append, List.cons_append, splitlinesFrom, splitlinesFrom, List.filter_cons, List.filter_cons, ih]
    split <;> rfl
  | case4 line c text hnot hbreak ih =>
    rw [List.cons_append, splitlinesFrom_break hbreak hnot, List.filter_cons]
    -- a carriage return at the end of the text joins the line feed
    by_cases hjoin : c = '\r' ∧ text = []
    · obtain ⟨rfl, rfl⟩ := hjoin
      have hlines : splitlinesFrom line ('\r' :: '\n' :: rest) = line :: splitlines rest := by
        rw [splitlinesFrom]
        rfl
      rw [List.nil_append, hlines, List.filter_cons]
      split <;> rfl
    · rw [splitlinesFrom_break hbreak, List.filter_cons, ih]
      · split <;> rfl
      · intro more hc htext
        cases text with
        | nil => exact hjoin ⟨hc, rfl⟩
        | cons d text =>
          rw [List.cons_append, List.cons.injEq] at htext
          exact hnot text hc (htext.1 ▸ rfl)
  | case5 line c text hnot hbreak ih =>
    have hother : isLineBreak c = false := by simpa using hbreak
    rw [List.cons_append, splitlinesFrom_other hother, splitlinesFrom_other hother, ih]

/-- The markers of a text are those before an end of line and those behind it. -/
theorem visibleMarkers_append (text rest : List Char) :
    visibleMarkers (text ++ '\n' :: rest) = visibleMarkers text ++ visibleMarkers rest := by
  rw [visibleMarkers, splitlines, visible_splitlinesFrom, List.map_append]
  rfl

theorem visibleMarkers_nil : visibleMarkers [] = [] := rfl

theorem splitlinesFrom_oneLine (h : ∀ c ∈ text, isLineBreak c = false) (line : List Char) :
    splitlinesFrom line text = if line ++ text = [] then [] else [line ++ text] := by
  induction text generalizing line with
  | nil => rw [List.append_nil, splitlinesFrom]
  | cons c text ih =>
    rw [splitlinesFrom_other (h c List.mem_cons_self), ih fun c hc => h c (List.mem_cons_of_mem _ hc),
      List.append_assoc, List.singleton_append]

/-- A marker shows itself. -/
theorem visibleMarkers_toolMarkerLine {toolName : String} {toolIndex : Nat} {pending : Bool} (h : PlainName toolName) :
    visibleMarkers (toolMarkerLine toolName toolIndex pending).toList =
      [(toolMarkerLine toolName toolIndex pending).toList] := by
  have hne : (toolMarkerLine toolName toolIndex pending).toList ≠ [] := by
    rw [toList_toolMarkerLine]
    exact List.cons_ne_nil _ _
  have hstrip : strip (toolMarkerLine toolName toolIndex pending) = (toolMarkerLine toolName toolIndex pending).toList := by
    obtain ⟨init, last, hlast, hspace⟩ : ∃ init last, (toolMarkerLine toolName toolIndex pending).toList =
        init ++ [last] ∧ inRanges spaceRanges last = false := by
      cases pending with
      | true =>
        refine ⟨'🔧' :: ' ' :: '\x60' :: ((safeToolName toolName).toList ++ '\x60' :: ' ' :: '[' ::
          (Nat.toDigits 10 toolIndex ++ [']', ' '])), '⏳', ?_, by decide⟩
        rw [toList_toolMarkerLine]
        simp [pendingText, toolPendingMarker]
      | false =>
        refine ⟨'🔧' :: ' ' :: '\x60' :: ((safeToolName toolName).toList ++ '\x60' :: ' ' :: '[' ::
          Nat.toDigits 10 toolIndex), ']', ?_, by decide⟩
        rw [toList_toolMarkerLine]
        simp [pendingText]
    have hicon : inRanges spaceRanges '🔧' = false := by decide
    have hends := strip_of_ends toList_toolMarkerLine hlast hicon hspace
    rwa [String.ofList_toList] at hends
  rw [visibleMarkers, splitlines, splitlinesFrom_oneLine (toolMarkerLine_oneLine h), List.nil_append, if_neg hne,
    List.filter_cons, if_pos (isVisibleToolMarkerLine_toolMarkerLine h), List.filter_nil, List.map_cons,
    String.ofList_toList, hstrip, List.map_nil]

end

end MindRoom.ToolMarkers
