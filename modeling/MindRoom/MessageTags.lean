import MindRoom.CompactionInputs

/-! # Message tags

A message stands in a prompt as a tag: its origin in quoted attributes, its body in a CDATA section. A reader that
knows nothing of the message ends an attribute at its closing quote and a section at the first terminator; what it
reads is what was written.
-/

namespace MindRoom.MessageTags

open CompactionInputs (replace join)

/-- What a tag says. -/
structure Message where
  sender : String
  body : String
  eventId : Option String := none
  ts : Option String := none
  displayName : Option String := none
deriving DecidableEq

/-! ## Writing -/

def tagStart : List Char := "<msg".toList

def tagEnd : List Char := "</msg>".toList

def sectionStart : List Char := "<![CDATA[".toList

def sectionEnd : List Char := "]]>".toList

/-- Render body text inside CDATA without entity-escaping normal message text. -/
def cdataBody (body : List Char) : List Char := replace sectionEnd "]]]]><![CDATA[>".toList body.length body

/-- `text.replace(old, new)` for one character. -/
def replaceChar (old : Char) (new : String) (text : List Char) : List Char :=
  text.flatMap fun c => if c = old then new.toList else [c]

/-- What `xml.sax.saxutils.quoteattr` escapes wherever it stands, the ampersand first. -/
def escape (text : List Char) : List Char :=
  replaceChar '\t' "&#9;" (replaceChar '\r' "&#13;" (replaceChar '\n' "&#10;"
    (replaceChar '<' "&lt;" (replaceChar '>' "&gt;" (replaceChar '&' "&amp;" text)))))

/-- `xml.sax.saxutils.quoteattr`: a value with double quotes only is put between single ones. -/
def quoteattr (value : String) : List Char :=
  let text := escape value.toList
  if '\x22' ∈ text then
    if '\x27' ∈ text then '\x22' :: replaceChar '\x22' "&quot;" text ++ ['\x22']
    else '\x27' :: text ++ ['\x27']
  else '\x22' :: text ++ ['\x22']

def attributes (m : Message) : List (String × String) :=
  (m.eventId.toList.map fun eventId => ("event_id", eventId)) ++ [("from", m.sender)] ++
    (m.displayName.toList.map fun displayName => ("display_name", displayName)) ++
    (m.ts.toList.map fun ts => ("ts", ts))

def renderAttribute (attr : String × String) : List Char := ' ' :: attr.1.toList ++ '=' :: quoteattr attr.2

def renderMsgTag (m : Message) : String :=
  String.ofList (tagStart ++ (attributes m).flatMap renderAttribute ++ '>' :: sectionStart ++
    cdataBody m.body.toList ++ sectionEnd ++ tagEnd)

/-- `"\n".join(...)`, as prompts are built. -/
def renderedMessages (messages : List Message) : String := join "\n" (messages.map renderMsgTag)

/-! ## Reading -/

/-- What stands before the first mark, and what follows it. -/
def splitFirst (mark : List Char) : List Char → Option (List Char × List Char)
  | [] => none
  | c :: text =>
    if mark.isPrefixOf (c :: text) then some ([], (c :: text).drop mark.length)
    else (splitFirst mark text).map fun found => (c :: found.1, found.2)

/-- The entities that `quoteattr` writes. -/
def decodeEntities : List Char → List Char
  | '&' :: 'a' :: 'm' :: 'p' :: ';' :: text => '&' :: decodeEntities text
  | '&' :: 'g' :: 't' :: ';' :: text => '>' :: decodeEntities text
  | '&' :: 'l' :: 't' :: ';' :: text => '<' :: decodeEntities text
  | '&' :: '#' :: '1' :: '0' :: ';' :: text => '\n' :: decodeEntities text
  | '&' :: '#' :: '1' :: '3' :: ';' :: text => '\r' :: decodeEntities text
  | '&' :: '#' :: '9' :: ';' :: text => '\t' :: decodeEntities text
  | '&' :: 'q' :: 'u' :: 'o' :: 't' :: ';' :: text => '\x22' :: decodeEntities text
  | c :: text => c :: decodeEntities text
  | [] => []

/-- A quoted value ends at its closing quote. -/
def readQuoted : List Char → Option (String × List Char)
  | quote :: text =>
    if quote = '\x22' ∨ quote = '\x27' then
      (splitFirst [quote] text).map fun found => (String.ofList (decodeEntities found.1), found.2)
    else none
  | [] => none

/-- Attributes, as long as a blank announces one. -/
def readAttributes : Nat → List Char → Option (List (String × String) × List Char)
  | fuel + 1, ' ' :: text => do
      let (name, text) ← splitFirst ['='] text
      let (value, text) ← readQuoted text
      let (attrs, text) ← readAttributes fuel text
      return ((String.ofList name, value) :: attrs, text)
  | _, text => some ([], text)

/-- CDATA sections that follow each other. Each ends at the first terminator. -/
def readSections : Nat → List Char → Option (List Char × List Char)
  | 0, _ => none
  | fuel + 1, text =>
    match text.dropPrefix? sectionStart with
    | none => some ([], text)
    | some text => do
        let (content, text) ← splitFirst sectionEnd text
        let (more, text) ← readSections fuel text
        return (content ++ more, text)

def readTag (text : List Char) : Option (Message × List Char) := do
  let text ← text.dropPrefix? tagStart
  let (attrs, text) ← readAttributes text.length text
  let text ← text.dropPrefix? ['>']
  let (body, text) ← readSections text.length text
  let text ← text.dropPrefix? tagEnd
  let sender ← attrs.lookup "from"
  return (⟨sender, String.ofList body, attrs.lookup "event_id", attrs.lookup "ts", attrs.lookup "display_name"⟩, text)

/-- Tags on lines, until the end of the text. -/
def readTags : Nat → List Char → Option (List Message)
  | 0, _ => none
  | fuel + 1, text => do
      let (m, text) ← readTag text
      match text with
      | [] => return [m]
      | '\n' :: text => return m :: (← readTags fuel text)
      | _ => none

def readMessages (text : String) : Option (List Message) :=
  if text = "" then some [] else readTags text.toList.length text.toList

/-! ## Splitting -/

variable {mark text rest : List Char} {c : Char}

theorem splitFirst_cons_here (h : mark.isPrefixOf (c :: text) = true) :
    splitFirst mark (c :: text) = some ([], (c :: text).drop mark.length) := by
  rw [splitFirst, if_pos h]

theorem splitFirst_cons_elsewhere (h : ¬ mark.isPrefixOf (c :: text) = true) :
    splitFirst mark (c :: text) = (splitFirst mark text).map fun found => (c :: found.1, found.2) := by
  rw [splitFirst, if_neg h]

/-- A text without the mark ends at the mark that follows, where no mark overlaps it. -/
theorem splitFirst_append (hmark : mark ≠ [])
    (hnone : ∀ before after, text ++ mark = before ++ mark ++ after → after = []) :
    splitFirst mark (text ++ mark ++ rest) = some (text, rest) := by
  induction text with
  | nil =>
    cases mark with
    | nil => exact absurd rfl hmark
    | cons c mark =>
      have hprefix : (c :: mark).isPrefixOf (c :: (mark ++ rest)) = true := by
        rw [List.isPrefixOf_iff_prefix]
        exact ⟨rest, rfl⟩
      rw [List.nil_append, List.cons_append, splitFirst_cons_here hprefix, ← List.cons_append, List.drop_left]
  | cons c text ih =>
    have hnot : ¬ mark.isPrefixOf (c :: (text ++ mark ++ rest)) = true := by
      intro hprefix
      rw [List.isPrefixOf_iff_prefix] at hprefix
      have hlength : mark.length ≤ (c :: (text ++ mark)).length := by
        rw [List.length_cons, List.length_append]
        omega
      have hshort : mark <+: c :: (text ++ mark) := by
        have hwhole : c :: (text ++ mark) <+: c :: (text ++ mark ++ rest) := ⟨rest, rfl⟩
        exact List.prefix_of_prefix_length_le hprefix hwhole hlength
      rcases hshort with ⟨after, hafter⟩
      have hnil := hnone [] after (by rw [List.nil_append, hafter]; rfl)
      rw [hnil, List.append_nil] at hafter
      have hlen := congrArg List.length hafter
      rw [List.length_cons, List.length_append] at hlen
      omega
    rw [List.cons_append, List.cons_append, splitFirst_cons_elsewhere hnot, ih]
    · rfl
    · intro before after heq
      exact hnone (c :: before) after (by rw [List.cons_append, heq]; rfl)

theorem splitFirst_char (hnone : c ∉ text) : splitFirst [c] (text ++ c :: rest) = some (text, rest) := by
  induction text with
  | nil =>
    rw [List.nil_append, splitFirst_cons_here (by simp)]
    rfl
  | cons d text ih =>
    rw [List.mem_cons, not_or] at hnone
    have hnot : ¬ [c].isPrefixOf (d :: (text ++ c :: rest)) = true := by
      simp [hnone.1]
    rw [List.cons_append, splitFirst_cons_elsewhere hnot, ih hnone.2]
    rfl

/-! ## Attributes -/

/-- What one character of a value becomes. -/
def escapeChar (c : Char) : List Char :=
  if c = '&' then "&amp;".toList
  else if c = '>' then "&gt;".toList
  else if c = '<' then "&lt;".toList
  else if c = '\n' then "&#10;".toList
  else if c = '\r' then "&#13;".toList
  else if c = '\t' then "&#9;".toList
  else [c]

def escapedChars : List Char := ['&', '>', '<', '\n', '\r', '\t']

/-- The characters that are escaped, one by one, and the others. -/
theorem escapeChar_rule (P : Char → List Char → Prop) (hamp : P '&' "&amp;".toList) (hgt : P '>' "&gt;".toList)
    (hlt : P '<' "&lt;".toList) (hline : P '\n' "&#10;".toList) (hreturn : P '\r' "&#13;".toList)
    (htab : P '\t' "&#9;".toList) (hplain : ∀ c, c ∉ escapedChars → P c [c]) (c : Char) : P c (escapeChar c) := by
  by_cases hc : c ∈ escapedChars
  · simp only [escapedChars, List.mem_cons, List.not_mem_nil, or_false] at hc
    rcases hc with rfl | rfl | rfl | rfl | rfl | rfl
    · exact hamp
    · exact hgt
    · exact hlt
    · exact hline
    · exact hreturn
    · exact htab
  · have hself : escapeChar c = [c] := by
      simp only [escapedChars, List.mem_cons, List.not_mem_nil, or_false, not_or] at hc
      rw [escapeChar, if_neg hc.1, if_neg hc.2.1, if_neg hc.2.2.1, if_neg hc.2.2.2.1, if_neg hc.2.2.2.2.1,
        if_neg hc.2.2.2.2.2]
    rw [hself]
    exact hplain c hc

/-- No replacement writes what a later one replaces. -/
theorem escape_eq_flatMap (text : List Char) : escape text = text.flatMap escapeChar := by
  have hsingle : ∀ c, escape [c] = escapeChar c := by
    intro c
    refine escapeChar_rule (fun c escaped => escape [c] = escaped) rfl rfl rfl rfl rfl rfl ?_ c
    intro c hc
    simp only [escapedChars, List.mem_cons, List.not_mem_nil, or_false, not_or] at hc
    simp [escape, replaceChar, hc]
  induction text with
  | nil => rfl
  | cons c text ih =>
    have happend : escape (c :: text) = escape [c] ++ escape text := by
      simp [escape, replaceChar]
    rw [happend, hsingle, ih, List.flatMap_cons]

theorem decodeEntities_cons (hc : c ≠ '&') : decodeEntities (c :: text) = c :: decodeEntities text := by
  rw [decodeEntities]
  all_goals
    intros
    exact hc (by assumption)

theorem decodeEntities_escapeChar (c : Char) (rest : List Char) :
    decodeEntities (escapeChar c ++ rest) = c :: decodeEntities rest := by
  refine escapeChar_rule (fun c escaped => decodeEntities (escaped ++ rest) = c :: decodeEntities rest)
    rfl rfl rfl rfl rfl rfl ?_ c
  intro c hc
  refine decodeEntities_cons ?_
  rintro rfl
  exact hc List.mem_cons_self

theorem decodeEntities_escape (text : List Char) : decodeEntities (escape text) = text := by
  rw [escape_eq_flatMap]
  induction text with
  | nil => rfl
  | cons c text ih => rw [List.flatMap_cons, decodeEntities_escapeChar, ih]

/-- A double quote is written as an entity, and nothing else that is escaped contains one. -/
theorem replaceChar_quote_escape (text : List Char) : replaceChar '\x22' "&quot;" (escape text) =
    text.flatMap fun c => if c = '\x22' then "&quot;".toList else escapeChar c := by
  rw [escape_eq_flatMap, replaceChar, List.flatMap_assoc]
  refine List.flatMap_congr ?_
  intro c _
  refine escapeChar_rule (fun c escaped => escaped.flatMap (fun d => if d = '\x22' then "&quot;".toList else [d]) =
    if c = '\x22' then "&quot;".toList else escaped) rfl rfl rfl rfl rfl rfl ?_ c
  intro c _
  simp

theorem decodeEntities_replaceChar_quote (text : List Char) :
    decodeEntities (replaceChar '\x22' "&quot;" (escape text)) = text := by
  rw [replaceChar_quote_escape]
  induction text with
  | nil => rfl
  | cons c text ih =>
    rw [List.flatMap_cons]
    by_cases hc : c = '\x22'
    · subst hc
      exact congrArg _ ih
    · rw [if_neg hc, decodeEntities_escapeChar, ih]

theorem quote_not_mem_replaceChar (text : List Char) : '\x22' ∉ replaceChar '\x22' "&quot;" text := by
  rw [replaceChar, List.mem_flatMap]
  rintro ⟨c, -, hmem⟩
  by_cases hc : c = '\x22'
  · rw [if_pos hc] at hmem
    exact absurd hmem (by decide)
  · rw [if_neg hc, List.mem_singleton] at hmem
    exact hc hmem.symm

theorem readQuoted_quote {quote : Char} (hquote : quote = '\x22' ∨ quote = '\x27') (hnone : quote ∉ text) :
    readQuoted (quote :: text ++ quote :: rest) = some (String.ofList (decodeEntities text), rest) := by
  rw [List.cons_append, readQuoted, if_pos hquote, splitFirst_char hnone]
  rfl

/-- No value closes its own attribute. -/
theorem readQuoted_quoteattr (value : String) (rest : List Char) :
    readQuoted (quoteattr value ++ rest) = some (value, rest) := by
  unfold quoteattr
  by_cases hdouble : '\x22' ∈ escape value.toList
  · by_cases hsingle : '\x27' ∈ escape value.toList
    · simp only [if_pos hdouble, if_pos hsingle, List.append_assoc, List.singleton_append]
      rw [readQuoted_quote (.inl rfl) (quote_not_mem_replaceChar _), decodeEntities_replaceChar_quote,
        String.ofList_toList]
    · simp only [if_pos hdouble, if_neg hsingle, List.append_assoc, List.singleton_append]
      rw [readQuoted_quote (.inr rfl) hsingle, decodeEntities_escape, String.ofList_toList]
  · simp only [if_neg hdouble, List.append_assoc, List.singleton_append]
    rw [readQuoted_quote (.inl rfl) hdouble, decodeEntities_escape, String.ofList_toList]

theorem readAttributes_flatMap {fuel : Nat} {attrs : List (String × String)} (hfuel : attrs.length ≤ fuel)
    (hnames : ∀ attr ∈ attrs, '=' ∉ attr.1.toList) :
    readAttributes fuel (attrs.flatMap renderAttribute ++ '>' :: rest) = some (attrs, '>' :: rest) := by
  induction attrs generalizing fuel with
  | nil =>
    cases fuel with
    | zero => rfl
    | succ fuel => rfl
  | cons attr attrs ih =>
    cases fuel with
    | zero => exact absurd hfuel (by simp)
    | succ fuel =>
      rw [List.length_cons, Nat.succ_le_succ_iff] at hfuel
      have hrest := ih hfuel (fun other hother => hnames other (List.mem_cons_of_mem _ hother))
      have hname := hnames attr List.mem_cons_self
      rw [List.flatMap_cons, renderAttribute, List.cons_append, List.append_assoc, List.cons_append,
        List.append_assoc, List.cons_append, readAttributes]
      rw [splitFirst_char hname]
      simp only [Option.bind_eq_bind, Option.bind_some, readQuoted_quoteattr, hrest, String.ofList_toList]
      rfl

/-! ## Bodies -/

variable {old new found after : List Char} {fuel : Nat}

theorem splitFirst_eq_none (h : splitFirst mark text = none) (before after : List Char) (hmark : mark ≠ []) :
    text ≠ before ++ mark ++ after := by
  induction text generalizing before with
  | nil =>
    intro heq
    simp [hmark] at heq
  | cons c text ih =>
    by_cases hprefix : mark.isPrefixOf (c :: text) = true
    · rw [splitFirst_cons_here hprefix] at h
      cases h
    · rw [splitFirst_cons_elsewhere hprefix, Option.map_eq_none_iff] at h
      intro heq
      cases before with
      | nil => exact hprefix (List.isPrefixOf_iff_prefix.mpr ⟨after, by rw [heq]; rfl⟩)
      | cons d before =>
        rw [List.cons_append, List.cons_append, List.cons.injEq] at heq
        exact ih h before heq.2

theorem splitFirst_eq_some (h : splitFirst mark text = some (found, after)) :
    text = found ++ mark ++ after ∧ (mark ≠ [] → ∀ before rest, found ≠ before ++ mark ++ rest) := by
  induction text generalizing found with
  | nil => cases h
  | cons c text ih =>
    by_cases hprefix : mark.isPrefixOf (c :: text) = true
    · rw [splitFirst_cons_here hprefix, Option.some.injEq, Prod.mk.injEq] at h
      rw [← h.1, ← h.2]
      rcases List.isPrefixOf_iff_prefix.mp hprefix with ⟨rest, hrest⟩
      refine ⟨?_, ?_⟩
      · rw [← hrest, List.drop_left, List.nil_append]
      · intro hmark before rest heq
        simp [hmark] at heq
    · rw [splitFirst_cons_elsewhere hprefix, Option.map_eq_some_iff] at h
      rcases h with ⟨inner, hinner, heq⟩
      rw [Prod.mk.injEq] at heq
      have hrest : splitFirst mark text = some (inner.1, after) := by rw [hinner, ← heq.2]
      rcases ih hrest with ⟨htext, hfirst⟩
      rw [← heq.1]
      refine ⟨by rw [htext]; rfl, ?_⟩
      intro hmark before rest hfound
      cases before with
      | nil =>
        refine hprefix (List.isPrefixOf_iff_prefix.mpr ⟨rest ++ mark ++ after, ?_⟩)
        rw [htext, ← List.append_assoc, ← List.append_assoc]
        change _ = c :: inner.1 ++ mark ++ after
        rw [hfound]
        rfl
      | cons d before =>
        rw [List.cons_append, List.cons_append, List.cons.injEq] at hfound
        exact hfirst hmark before rest hfound.2

theorem replace_of_none (h : splitFirst old text = none) (fuel : Nat) : replace old new fuel text = text := by
  induction text generalizing fuel with
  | nil => cases fuel <;> rfl
  | cons c text ih =>
    cases fuel with
    | zero => rfl
    | succ fuel =>
      by_cases hprefix : old.isPrefixOf (c :: text) = true
      · rw [splitFirst_cons_here hprefix] at h
        cases h
      · rw [splitFirst_cons_elsewhere hprefix, Option.map_eq_none_iff] at h
        rw [replace, if_neg hprefix, ih h]

theorem replace_of_some (hold : old ≠ []) (h : splitFirst old text = some (found, after)) (hfuel : text.length ≤ fuel) :
    ∃ fuel', after.length ≤ fuel' ∧ replace old new fuel text = found ++ new ++ replace old new fuel' after := by
  induction text generalizing fuel found with
  | nil => cases h
  | cons c text ih =>
    cases fuel with
    | zero => exact absurd hfuel (by simp)
    | succ fuel =>
      rw [List.length_cons, Nat.succ_le_succ_iff] at hfuel
      by_cases hprefix : old.isPrefixOf (c :: text) = true
      · rw [splitFirst_cons_here hprefix, Option.some.injEq, Prod.mk.injEq] at h
        refine ⟨fuel, ?_, ?_⟩
        · have hlength := List.length_pos_iff.mpr hold
          rw [← h.2, List.length_drop, List.length_cons]
          omega
        · rw [replace, if_pos hprefix, ← h.1, ← h.2]
          rfl
      · rw [splitFirst_cons_elsewhere hprefix, Option.map_eq_some_iff] at h
        rcases h with ⟨inner, hinner, heq⟩
        rw [Prod.mk.injEq] at heq
        have hrest : splitFirst old text = some (inner.1, after) := by rw [hinner, ← heq.2]
        rcases ih hrest hfuel with ⟨fuel', hafter, hreplace⟩
        refine ⟨fuel', hafter, ?_⟩
        rw [replace, if_neg hprefix, hreplace, ← heq.1]
        rfl

theorem length_le_replace (hlonger : old.length ≤ new.length) (fuel : Nat) (text : List Char) :
    text.length ≤ (replace old new fuel text).length := by
  induction fuel generalizing text with
  | zero => exact Nat.le_refl _
  | succ fuel ih =>
    cases text with
    | nil => exact Nat.le_refl _
    | cons c text =>
      rw [replace]
      split
      · have hrest := ih ((c :: text).drop old.length)
        rw [List.length_drop] at hrest
        rw [List.length_append]
        omega
      · exact Nat.succ_le_succ (ih text)

/-- Square brackets at the end of a text finish no terminator. -/
theorem sectionEnd_before_brackets (n : Nat) {before after : List Char}
    (h : text ++ List.replicate n ']' = before ++ sectionEnd ++ after) : ∃ rest, text = before ++ sectionEnd ++ rest := by
  induction n generalizing after with
  | zero => exact ⟨after, by rw [← h, List.replicate_zero, List.append_nil]⟩
  | succ n ih =>
    rw [List.replicate_succ', ← List.append_assoc] at h
    rcases List.eq_nil_or_concat' after with hnil | ⟨init, last, hlast⟩
    · rw [hnil, List.append_nil] at h
      have hend := congrArg List.getLast? h
      simp [sectionEnd] at hend
    · rw [hlast, ← List.append_assoc] at h
      exact ih (List.append_inj_left' h rfl)

/-- A text without a terminator is a section up to the terminator that is put behind it. -/
theorem splitFirst_sectionEnd (h : ∀ before after, text ≠ before ++ sectionEnd ++ after) (rest : List Char) :
    splitFirst sectionEnd (text ++ sectionEnd ++ rest) = some (text, rest) := by
  refine splitFirst_append (by decide) ?_
  intro before after heq
  rcases List.eq_nil_or_concat' after with hnil | ⟨init, last, hlast⟩
  · exact hnil
  · rw [hlast, ← List.append_assoc] at heq
    have hbrackets : text ++ List.replicate 2 ']' ++ ['>'] = before ++ sectionEnd ++ init ++ [last] := by
      rw [← heq]
      simp [sectionEnd]
    rcases sectionEnd_before_brackets 2 (List.append_inj_left' hbrackets rfl) with ⟨found, hfound⟩
    exact absurd hfound (h before found)

theorem dropPrefix?_append (start text : List Char) : (start ++ text).dropPrefix? start = some text :=
  List.dropPrefix?_append_of_beq text (beq_self_eq_true start)

theorem readSections_sectionStart (fuel : Nat) (text : List Char) : readSections (fuel + 1) (sectionStart ++ text) =
    (splitFirst sectionEnd text).bind fun found =>
      (readSections fuel found.2).map fun more => (found.1 ++ more.1, more.2) := by
  rw [readSections, dropPrefix?_append]
  simp only [Option.bind_eq_bind]
  cases splitFirst sectionEnd text with
  | none => rfl
  | some found =>
    simp only [Option.bind_some]
    cases readSections fuel found.2 <;> rfl

/-- A body is read back whole: each terminator in it is split over two sections. -/
theorem readSections_replace (hnew : new = List.replicate 2 ']' ++ sectionEnd ++ sectionStart ++ ['>'])
    (hrest : rest.dropPrefix? sectionStart = none) (body : List Char) {bound : Nat}
    (hbound : body.length ≤ bound) (hfuel : body.length + 2 ≤ fuel) :
    readSections fuel (sectionStart ++ (replace sectionEnd new bound body ++ sectionEnd ++ rest)) =
      some (body, rest) := by
  induction hn : body.length using Nat.strong_induction_on generalizing body bound fuel with
  | h n ih =>
    obtain ⟨fuel, rfl⟩ : ∃ more, fuel = more + 1 := ⟨fuel - 1, by omega⟩
    rw [readSections_sectionStart]
    cases hsplit : splitFirst sectionEnd body with
    | none =>
      have hclean : ∀ before after, body ≠ before ++ sectionEnd ++ after := by
        intro before after
        exact splitFirst_eq_none hsplit before after (by decide)
      obtain ⟨fuel, rfl⟩ : ∃ more, fuel = more + 1 := ⟨fuel - 1, by omega⟩
      rw [replace_of_none hsplit, splitFirst_sectionEnd hclean]
      simp [readSections, hrest]
    | some found =>
      rcases found with ⟨found, after⟩
      rcases splitFirst_eq_some hsplit with ⟨hbody, hfirst⟩
      rcases replace_of_some (by decide) hsplit hbound with ⟨bound', hafter, hreplace⟩
      have hlength : body.length = found.length + 3 + after.length := by
        rw [hbody, List.length_append, List.length_append]
        rfl
      -- the section ends after the two brackets, and the next one begins with what the terminator ends with
      have htext : replace sectionEnd new bound body ++ sectionEnd ++ rest =
          (found ++ List.replicate 2 ']') ++ sectionEnd ++ (sectionStart ++
            (replace sectionEnd new (bound' + 1) ('>' :: after) ++ sectionEnd ++ rest)) := by
        have hnext : replace sectionEnd new (bound' + 1) ('>' :: after) =
            '>' :: replace sectionEnd new bound' after := by
          rw [replace, if_neg (by simp [sectionEnd])]
        rw [hreplace, hnext]
        subst hnew
        simp only [List.append_assoc, List.cons_append, List.nil_append]
      have hclean : ∀ before rest, found ++ List.replicate 2 ']' ≠ before ++ sectionEnd ++ rest := by
        intro before rest heq
        rcases sectionEnd_before_brackets 2 heq with ⟨inner, hinner⟩
        exact hfirst (by decide) before inner hinner
      have hmore : readSections fuel (sectionStart ++ (replace sectionEnd new (bound' + 1) ('>' :: after) ++
          sectionEnd ++ rest)) = some ('>' :: after, rest) := by
        refine ih ('>' :: after).length ?_ ('>' :: after) ?_ ?_ rfl
        · rw [List.length_cons]
          omega
        · rw [List.length_cons]
          omega
        · rw [List.length_cons]
          omega
      rw [htext, splitFirst_sectionEnd hclean, Option.bind_some, hmore, Option.map_some, hbody]
      simp [sectionEnd]

/-! ## Messages -/

/-- Every field is found under its own name. -/
theorem lookup_attributes (m : Message) : (attributes m).lookup "from" = some m.sender ∧
    (attributes m).lookup "event_id" = m.eventId ∧ (attributes m).lookup "ts" = m.ts ∧
    (attributes m).lookup "display_name" = m.displayName := by
  rcases m with ⟨sender, body, _ | eventId, _ | ts, _ | displayName⟩ <;> exact ⟨rfl, rfl, rfl, rfl⟩

theorem attributes_names (m : Message) : ∀ attr ∈ attributes m, '=' ∉ attr.1.toList := by
  rcases m with ⟨sender, body, _ | eventId, _ | ts, _ | displayName⟩ <;> simp [attributes]

theorem length_attributes_le (m : Message) : (attributes m).length ≤ ((attributes m).flatMap renderAttribute).length := by
  induction attributes m with
  | nil => exact Nat.le_refl _
  | cons attr attrs ih =>
    rw [List.flatMap_cons, List.length_append, renderAttribute, List.cons_append, List.length_cons, List.length_cons]
    omega

/-- A tag is read as its message, whatever follows it. -/
theorem readTag_renderMsgTag (m : Message) (rest : List Char) :
    readTag ((renderMsgTag m).toList ++ rest) = some (m, rest) := by
  have hend : (tagEnd ++ rest).dropPrefix? sectionStart = none := rfl
  have hattrs : ∀ text : List Char, readAttributes ((attributes m).flatMap renderAttribute ++ '>' :: text).length
      ((attributes m).flatMap renderAttribute ++ '>' :: text) = some (attributes m, '>' :: text) := by
    intro text
    refine readAttributes_flatMap ?_ (attributes_names m)
    have hlength := length_attributes_le m
    rw [List.length_append]
    omega
  have hbody : readSections (sectionStart ++ (cdataBody m.body.toList ++ sectionEnd ++ (tagEnd ++ rest))).length
      (sectionStart ++ (cdataBody m.body.toList ++ sectionEnd ++ (tagEnd ++ rest))) =
      some (m.body.toList, tagEnd ++ rest) := by
    refine readSections_replace rfl hend _ (Nat.le_refl _) ?_
    have hlonger : m.body.toList.length ≤ (cdataBody m.body.toList).length := length_le_replace (by decide) _ _
    have hmark : sectionStart.length = 9 := rfl
    rw [List.length_append, List.length_append, List.length_append]
    omega
  have htext : (renderMsgTag m).toList ++ rest = tagStart ++ ((attributes m).flatMap renderAttribute ++
      '>' :: (sectionStart ++ (cdataBody m.body.toList ++ sectionEnd ++ (tagEnd ++ rest)))) := by
    simp only [renderMsgTag, String.toList_ofList, List.append_assoc, List.cons_append]
  have hclose : ∀ text : List Char, ('>' :: text).dropPrefix? ['>'] = some text := dropPrefix?_append ['>']
  rcases lookup_attributes m with ⟨hsender, heventId, hts, hdisplayName⟩
  rw [htext, readTag]
  simp only [dropPrefix?_append, Option.bind_eq_bind, Option.bind_some, hattrs, hclose, hbody, hsender, heventId, hts,
    hdisplayName, String.ofList_toList]
  rfl

theorem joined_cons_cons (first second : String) (parts : List String) :
    (join "\n" (first :: second :: parts)).toList = first.toList ++ '\n' :: (join "\n" (second :: parts)).toList := by
  have hfold : ∀ (parts : List String) (start text : String), (parts.foldl (fun text part => text ++ "\n" ++ part)
      (start ++ text)).toList = start.toList ++ (parts.foldl (fun text part => text ++ "\n" ++ part) text).toList := by
    intro parts
    induction parts with
    | nil =>
      intro start text
      simp
    | cons part parts ih =>
      intro start text
      rw [List.foldl_cons, List.foldl_cons, String.append_assoc, String.append_assoc, ih, String.append_assoc]
  rw [join, join, List.foldl_cons, hfold, String.toList_append]
  simp

theorem readTags_joined {fuel : Nat} (m : Message) (messages : List Message) (hfuel : messages.length < fuel) :
    readTags fuel (join "\n" ((m :: messages).map renderMsgTag)).toList = some (m :: messages) := by
  induction messages generalizing m fuel with
  | nil =>
    obtain ⟨fuel, rfl⟩ : ∃ more, fuel = more + 1 := ⟨fuel - 1, by omega⟩
    have htag := readTag_renderMsgTag m []
    rw [List.append_nil] at htag
    rw [readTags]
    change (readTag (renderMsgTag m).toList).bind _ = _
    rw [htag]
    rfl
  | cons next messages ih =>
    obtain ⟨fuel, rfl⟩ : ∃ more, fuel = more + 1 := ⟨fuel - 1, by omega⟩
    rw [List.length_cons] at hfuel
    have hmore : readTags fuel (join "\n" ((next :: messages).map renderMsgTag)).toList = some (next :: messages) :=
      ih next (by omega)
    rw [List.map_cons] at hmore
    rw [List.map_cons, List.map_cons, joined_cons_cons, readTags, readTag_renderMsgTag]
    simp only [Option.bind_eq_bind, Option.bind_some, hmore]
    rfl

theorem length_le_joined (messages : List Message) :
    messages.length ≤ (join "\n" (messages.map renderMsgTag)).toList.length := by
  have htag : ∀ m, 0 < (renderMsgTag m).toList.length := by
    intro m
    simp only [renderMsgTag, String.toList_ofList, List.length_append, List.length_cons]
    omega
  induction messages with
  | nil => exact Nat.zero_le _
  | cons m messages ih =>
    cases messages with
    | nil => exact htag m
    | cons next messages =>
      have hm := htag m
      rw [List.map_cons] at ih
      rw [List.map_cons, List.map_cons, joined_cons_cons, List.length_append]
      simp only [List.length_cons] at ih ⊢
      omega

/-- Tags cannot be forged: what is read from the tags of a list of messages is that list. -/
theorem readMessages_renderedMessages (messages : List Message) :
    readMessages (renderedMessages messages) = some messages := by
  unfold readMessages renderedMessages
  cases messages with
  | nil => rfl
  | cons m messages =>
    have hlength := length_le_joined (m :: messages)
    have hnonempty : join "\n" ((m :: messages).map renderMsgTag) ≠ "" := by
      intro hempty
      rw [hempty] at hlength
      exact absurd hlength (by simp)
    rw [if_neg hnonempty]
    exact readTags_joined m messages hlength

example : readMessages (renderedMessages [⟨"@a:\"'&", "]]>]]></msg>", some "$e'", none, some "x\n\""⟩]) =
    some [⟨"@a:\"'&", "]]>]]></msg>", some "$e'", none, some "x\n\""⟩] := by decide +kernel

end MindRoom.MessageTags
