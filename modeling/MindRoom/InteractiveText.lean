import MindRoom.CompactJson
import MindRoom.Questions

/-! # Interactive blocks in a response

`interactive.py`: a fenced block with a JSON payload is replaced by the question it asks, with a numbered
line for each option. Fences that ask a question within one line cannot be rendered and are removed. The
patterns are written out as they are matched, from left to right.
-/

namespace MindRoom.InteractiveText

/-! ## Patterns -/

/-- `[ \t]`. -/
def isBlank (c : Char) : Bool := c = ' ' || c = '\t'

def fence : List Char := ['\x60', '\x60', '\x60']

/-- `re.IGNORECASE`: a letter, its capital, and the letters outside ASCII that fold to it. -/
def ignoreCase (letter c : Char) : Bool :=
  c = letter || c = letter.toUpper || (letter = 'i' && (c = '\u0130' || c = '\u0131')) ||
    (letter = 's' && c = '\u017f')

/-- What follows some characters. -/
def eat? (same : Char → Char → Bool) : List Char → List Char → Option (List Char)
  | [], text => some text
  | letter :: letters, c :: text => if same letter c then eat? same letters text else none
  | _ :: _, [] => none

def fence? (text : List Char) : Option (List Char) := eat? (fun letter c => letter = c) fence text

def interactive? (text : List Char) : Option (List Char) :=
  eat? ignoreCase ['i', 'n', 't', 'e', 'r', 'a', 'c', 't', 'i', 'v', 'e'] text

/-- `[ \t]+`. -/
def blanks? (text : List Char) : Option (List Char) :=
  if text.head?.any isBlank then some (text.dropWhile isBlank) else none

/-- `[ \t]+json`. -/
def json? (text : List Char) : Option (List Char) :=
  (blanks? text).bind (eat? ignoreCase ['j', 's', 'o', 'n'])

/-- `\r?\n`. -/
def newline? : List Char → Option (List Char)
  | '\r' :: '\n' :: text => some text
  | '\n' :: text => some text
  | _ => none

/-- `[ \t]*\r?\n`. -/
def lineEnd? (text : List Char) : Option (List Char) := newline? (text.dropWhile isBlank)

/-- The opening fence, with its marker on its own line or on the next one. -/
def opening? (text : List Char) : Option (List Char) := do
  let text ← fence? text
  let text := text.dropWhile isBlank
  let text ← interactive? ((newline? text).elim text fun rest => rest.dropWhile isBlank)
  ((json? text).bind lineEnd?).or (lineEnd? text)

/-- `\r?\n[ \t]*` and the closing fence, at the end of a line. -/
def closing? (text : List Char) : Option (List Char) := do
  let text ← newline? text
  let text ← fence? (text.dropWhile isBlank)
  let text := text.dropWhile isBlank
  if text = [] ∨ (newline? text).isSome then some text else none

/-- The shortest payload before a closing fence. -/
def payload? : List Char → Option (List Char × List Char)
  | [] => none
  | c :: text =>
    match closing? (c :: text) with
    | some rest => some ([], rest)
    | none => (payload? text).map fun found => (c :: found.1, found.2)

/-- One match of `_INTERACTIVE_PATTERN` at the start of the text. -/
def block? (text : List Char) : Option (List Char × List Char) := (opening? text).bind payload?

/-- The payloads of all matches, each with the text before it, and the text after the last one. -/
def findBlocks : Nat → List Char → List (List Char × List Char) × List Char
  | 0, text => ([], text)
  | _ + 1, [] => ([], [])
  | fuel + 1, c :: text =>
    match block? (c :: text) with
    | some (payload, rest) =>
      let found := findBlocks fuel rest
      (([], payload) :: found.1, found.2)
    | none =>
      let found := findBlocks fuel text
      match found.1 with
      | [] => ([], c :: found.2)
      | (gap, payload) :: blocks => ((c :: gap, payload) :: blocks, found.2)

/-- `\{|\[`. -/
def bracket? : List Char → Option (List Char)
  | '\x7b' :: text => some text
  | '[' :: text => some text
  | _ => none

/-- `[ \t]+(?:\{|\[)`, the rest of a line up to a backtick, and a fence. -/
def inlineTail? (text : List Char) : Option (List Char) :=
  ((blanks? text).bind bracket?).bind fun text =>
    fence? (text.dropWhile fun c => c ≠ '\r' && c ≠ '\n' && c ≠ '\x60')

/-- One match of `_INLINE_INTERACTIVE_JSON_FENCE_PATTERN` at the start of the text. -/
def inlineFence? (text : List Char) : Option (List Char) :=
  ((fence? text).bind fun text => interactive? (text.dropWhile isBlank)).bind fun text =>
    ((json? text).bind inlineTail?).or (inlineTail? text)

/-- `re.subn(pattern, "", text)`. -/
def removeInline : Nat → List Char → List Char × Nat
  | 0, text => (text, 0)
  | _ + 1, [] => ([], 0)
  | fuel + 1, c :: text =>
    match inlineFence? (c :: text) with
    | some rest =>
      let removed := removeInline fuel rest
      (removed.1, removed.2 + 1)
    | none =>
      let removed := removeInline fuel text
      (c :: removed.1, removed.2)

def isSpace (c : Char) : Bool := inRanges spaceRanges c

def lstrip (text : List Char) : List Char := text.dropWhile isSpace

def rstrip (text : List Char) : List Char := (text.reverse.dropWhile isSpace).reverse

def strip (text : List Char) : List Char := rstrip (lstrip text)

def removeInlineUnparsedInteractiveFences (text : List Char) : List Char :=
  let removed := removeInline text.length text
  if removed.2 = 0 then text else strip removed.1

/-! ## Lines

No match of the inline pattern goes beyond a line, so what is removed from a text is what is removed from
its lines. -/

section

variable {text rest after : List Char} {c : Char}

/-- A reader that stays within a line: what follows the line does not change what it reads. -/
def WithinLine (read : List Char → Option (List Char)) : Prop :=
  ∀ text rest, '\n' ∉ text → read (text ++ '\n' :: rest) = (read text).map (· ++ '\n' :: rest)

/-- What a reader leaves of a line is in the line. -/
def Shortens (read : List Char → Option (List Char)) : Prop :=
  ∀ text after, read text = some after → after <:+ text

theorem Shortens.not_mem {read : List Char → Option (List Char)} (h : Shortens read) (htext : '\n' ∉ text)
    (hread : read text = some after) : '\n' ∉ after := fun hmem => htext ((h text after hread).subset hmem)

variable {read read' : List Char → Option (List Char)}

/-- One reader after the other. -/
theorem WithinLine.bind (h : WithinLine read)
    (hshort : Shortens read) (h' : WithinLine read') : WithinLine fun text => (read text).bind read' := by
  intro text rest htext
  dsimp only
  rw [h text rest htext]
  cases hread : read text with
  | none => rfl
  | some after => exact h' after rest (hshort.not_mem htext hread)

theorem Shortens.bind (h : Shortens read) (h' : Shortens read') : Shortens fun text => (read text).bind read' := by
  intro text after hread
  rcases Option.bind_eq_some_iff.mp hread with ⟨middle, hmiddle, hafter⟩
  exact (h' middle after hafter).trans (h text middle hmiddle)

theorem WithinLine.or (h : WithinLine read) (h' : WithinLine read') :
    WithinLine fun text => (read text).or (read' text) := by
  intro text rest htext
  dsimp only
  rw [h text rest htext, h' text rest htext]
  cases read text <;> rfl

theorem Shortens.or (h : Shortens read) (h' : Shortens read') : Shortens fun text => (read text).or (read' text) := by
  intro text after hread
  rcases Option.or_eq_some_iff.mp hread with hread | ⟨-, hread⟩
  · exact h text after hread
  · exact h' text after hread

/-- Nothing is skipped from a character on that is not. -/
theorem dropWhile_append_cons {p : Char → Bool} (hc : p c = false) (text rest : List Char) :
    (text ++ c :: rest).dropWhile p = text.dropWhile p ++ c :: rest := by
  induction text with
  | nil => rw [List.nil_append, List.dropWhile_cons_of_neg (by simp [hc]), List.dropWhile_nil, List.nil_append]
  | cons d text ih =>
    by_cases hd : p d = true
    · rw [List.cons_append, List.dropWhile_cons_of_pos hd, List.dropWhile_cons_of_pos hd, ih]
    · rw [List.cons_append, List.dropWhile_cons_of_neg hd, List.dropWhile_cons_of_neg hd, List.cons_append]

theorem withinLine_eat? {same : Char → Char → Bool} {letters : List Char}
    (hletters : ∀ letter ∈ letters, same letter '\n' = false) : WithinLine (eat? same letters) := by
  intro text rest htext
  induction letters generalizing text with
  | nil => rfl
  | cons letter letters ih =>
    cases text with
    | nil =>
      have hnot := hletters letter List.mem_cons_self
      rw [List.nil_append, eat?, eat?, if_neg (by simp [hnot])]
      rfl
    | cons c text =>
      rw [List.mem_cons, not_or] at htext
      rw [List.cons_append, eat?, eat?]
      split
      · exact ih (fun l hl => hletters l (List.mem_cons_of_mem _ hl)) text htext.2
      · rfl

theorem shortens_eat? (same : Char → Char → Bool) (letters : List Char) : Shortens (eat? same letters) := by
  intro text after hread
  induction letters generalizing text with
  | nil =>
    cases hread
    exact List.suffix_rfl
  | cons letter letters ih =>
    cases text with
    | nil => cases hread
    | cons c text =>
      rw [eat?] at hread
      split at hread
      · exact (ih text hread).trans (List.suffix_cons c text)
      · cases hread

/-- Skipping before reading. -/
theorem WithinLine.skip {read : List Char → Option (List Char)} (h : WithinLine read) {p : Char → Bool}
    (hp : p '\n' = false) : WithinLine fun text => read (text.dropWhile p) := by
  intro text rest htext
  dsimp only
  rw [dropWhile_append_cons hp]
  exact h _ rest fun hmem => htext ((List.dropWhile_suffix p).subset hmem)

theorem Shortens.skip {read : List Char → Option (List Char)} (h : Shortens read) (p : Char → Bool) :
    Shortens fun text => read (text.dropWhile p) := fun _ after hread =>
  (h _ after hread).trans (List.dropWhile_suffix p)

theorem withinLine_fence? : WithinLine fence? := withinLine_eat? (by simp [fence])

theorem withinLine_interactive? : WithinLine interactive? := withinLine_eat? (by simp [ignoreCase])

theorem withinLine_blanks? : WithinLine blanks? := by
  intro text rest _
  unfold blanks?
  rw [dropWhile_append_cons (by decide)]
  cases text with
  | nil => rfl
  | cons c text =>
    rw [List.cons_append, List.head?_cons, List.head?_cons]
    split <;> rfl

theorem shortens_blanks? : Shortens blanks? := by
  intro text after hread
  unfold blanks? at hread
  split at hread
  · cases hread
    exact List.dropWhile_suffix isBlank
  · cases hread

theorem withinLine_json? : WithinLine json? :=
  withinLine_blanks?.bind shortens_blanks? (withinLine_eat? (by simp [ignoreCase]))

theorem shortens_json? : Shortens json? := shortens_blanks?.bind (shortens_eat? ignoreCase _)

theorem bracket?_cons (c : Char) (text : List Char) :
    bracket? (c :: text) = if c = '\x7b' ∨ c = '[' then some text else none := by
  unfold bracket?
  split
  · next heq =>
    cases heq
    rw [if_pos (.inl rfl)]
  · next heq =>
    cases heq
    rw [if_pos (.inr rfl)]
  · next hbrace hbracket =>
    rw [if_neg]
    rintro (rfl | rfl)
    · exact hbrace text rfl
    · exact hbracket text rfl

theorem withinLine_bracket? : WithinLine bracket? := by
  intro text rest _
  cases text with
  | nil => rfl
  | cons c text =>
    rw [List.cons_append, bracket?_cons, bracket?_cons]
    split <;> rfl

theorem shortens_bracket? : Shortens bracket? := by
  intro text after hread
  cases text with
  | nil => cases hread
  | cons c text =>
    rw [bracket?_cons] at hread
    split at hread
    · cases hread
      exact List.suffix_cons c _
    · cases hread

theorem withinLine_inlineTail? : WithinLine inlineTail? :=
  (withinLine_blanks?.bind shortens_blanks? withinLine_bracket?).bind (shortens_blanks?.bind shortens_bracket?)
    (withinLine_fence?.skip (by decide))

theorem shortens_inlineTail? : Shortens inlineTail? :=
  (shortens_blanks?.bind shortens_bracket?).bind ((shortens_eat? _ fence).skip _)

theorem shortens_fence? : Shortens fence? := shortens_eat? _ fence

theorem shortens_interactive? : Shortens interactive? := shortens_eat? ignoreCase _

theorem withinLine_inlineFence? : WithinLine inlineFence? :=
  (withinLine_fence?.bind shortens_fence? (withinLine_interactive?.skip (by decide))).bind
    (shortens_fence?.bind (shortens_interactive?.skip _))
    ((withinLine_json?.bind shortens_json? withinLine_inlineTail?).or withinLine_inlineTail?)

/-- Beyond the first line, too, nothing changes what is read of it. -/
theorem WithinLine.append {read : List Char → Option (List Char)} (h : WithinLine read) (text rest : List Char) :
    read (text ++ '\n' :: rest) = (read text).map (· ++ '\n' :: rest) := by
  by_cases hmem : '\n' ∈ text
  · obtain ⟨line, lines, rfl, hline⟩ := List.eq_append_cons_of_mem hmem
    rw [List.append_assoc, List.cons_append, h line _ hline, h line lines hline]
    cases read line with
    | none => rfl
    | some after =>
      rw [Option.map_some, Option.map_some, Option.map_some, List.append_assoc, List.cons_append]
  · exact h text rest hmem

theorem fence?_cons (c : Char) (text : List Char) (h : fence? (c :: text) = some after) :
    c = '\x60' ∧ after <:+ text := by
  unfold fence? fence at h
  rw [eat?] at h
  split at h
  · next hc =>
    rw [decide_eq_true_eq] at hc
    exact ⟨hc.symm, shortens_eat? _ _ text after h⟩
  · cases h

/-- A match begins with a backtick, and goes on after it. -/
theorem inlineFence?_cons (h : inlineFence? (c :: text) = some after) : c = '\x60' ∧ after <:+ text := by
  rw [inlineFence?] at h
  rcases Option.bind_eq_some_iff.mp h with ⟨head, hhead, hafter⟩
  rcases Option.bind_eq_some_iff.mp hhead with ⟨middle, hmiddle, hread⟩
  have hfence := fence?_cons c text hmiddle
  have hhead := (shortens_interactive?.skip isBlank) middle head hread
  have hafter := (shortens_json?.bind shortens_inlineTail?).or shortens_inlineTail? head after hafter
  exact ⟨hfence.1, hafter.trans (hhead.trans hfence.2)⟩

/-- All inline fences of a text removed, and how many there were. -/
def removed (text : List Char) : List Char × Nat := removeInline text.length text

/-- Fuel beyond the length of the text changes nothing. -/
theorem removeInline_of_le {fuel : Nat} (h : text.length ≤ fuel) : removeInline fuel text = removed text := by
  unfold removed
  induction fuel using Nat.strongRecOn generalizing text with
  | ind fuel ih =>
    cases text with
    | nil => cases fuel <;> rfl
    | cons c text =>
      cases fuel with
      | zero => cases h
      | succ fuel =>
        rw [List.length_cons] at h ⊢
        unfold removeInline
        cases hread : inlineFence? (c :: text) with
        | none => rw [ih fuel (by omega) (by omega)]
        | some rest =>
          have hrest := (inlineFence?_cons hread).2.length_le
          dsimp only
          rw [ih fuel (by omega) (by omega), ih text.length (by omega) hrest]

theorem removed_nil : removed [] = ([], 0) := rfl

theorem removed_of_none (h : inlineFence? (c :: text) = none) :
    removed (c :: text) = (c :: (removed text).1, (removed text).2) := by
  rw [removed, List.length_cons, removeInline, h]
  rfl

theorem removed_of_some (h : inlineFence? (c :: text) = some rest) :
    removed (c :: text) = ((removed rest).1, (removed rest).2 + 1) := by
  rw [removed, List.length_cons, removeInline, h]
  dsimp only
  rw [removeInline_of_le (inlineFence?_cons h).2.length_le]

theorem removed_cons (h : c ≠ '\x60') : removed (c :: text) = (c :: (removed text).1, (removed text).2) := by
  apply removed_of_none
  by_contra hsome
  obtain ⟨rest, hrest⟩ := Option.ne_none_iff_exists'.mp hsome
  exact h (inlineFence?_cons hrest).1

/-- What is removed from a text is removed from what stands before an end of line and from what stands
after it. -/
theorem removed_append (text rest : List Char) : removed (text ++ '\n' :: rest) =
      ((removed text).1 ++ '\n' :: (removed rest).1, (removed text).2 + (removed rest).2) := by
  induction hn : text.length using Nat.strongRecOn generalizing text with
  | ind n ih =>
    cases text with
    | nil =>
      rw [List.nil_append, removed_cons (by decide), removed_nil, List.nil_append, Nat.zero_add]
    | cons c text =>
      rw [List.length_cons] at hn
      have happend := withinLine_inlineFence?.append (c :: text) rest
      rw [List.cons_append] at happend ⊢
      cases hread : inlineFence? (c :: text) with
      | none =>
        rw [hread, Option.map_none] at happend
        rw [removed_of_none happend, removed_of_none hread, ih text.length (by omega) text rfl]
        rfl
      | some after =>
        rw [hread, Option.map_some] at happend
        have hafter := (inlineFence?_cons hread).2.length_le
        rw [removed_of_some happend, removed_of_some hread, ih after.length (by omega) after rfl]
        dsimp only
        rw [Nat.add_right_comm]

/-- Where there was nothing to remove, the text stays. -/
theorem removed_of_zero (h : (removed text).2 = 0) : (removed text).1 = text := by
  induction text with
  | nil => rfl
  | cons c text ih =>
    cases hread : inlineFence? (c :: text) with
    | none =>
      rw [removed_of_none hread] at h ⊢
      rw [ih h]
    | some after =>
      rw [removed_of_some hread] at h
      cases h

/-- Nothing in the text looks like an inline fence. -/
def NoInlineFence (text : List Char) : Prop := ∀ tail, tail <:+ text → inlineFence? tail = none

theorem length_removed_le (text : List Char) : (removed text).1.length ≤ text.length := by
  induction hn : text.length using Nat.strongRecOn generalizing text with
  | ind n ih =>
    cases text with
    | nil => exact Nat.zero_le _
    | cons c text =>
      rw [List.length_cons] at hn
      cases hread : inlineFence? (c :: text) with
      | none =>
        have hle := ih text.length (by omega) text rfl
        rw [removed_of_none hread, List.length_cons]
        omega
      | some after =>
        have hafter := (inlineFence?_cons hread).2.length_le
        have hle := ih after.length (by omega) after rfl
        rw [removed_of_some hread]
        dsimp only
        omega

/-- A text stays as it is exactly if there is no inline fence in it. -/
theorem removed_eq_self_iff (text : List Char) : (removed text).1 = text ↔ NoInlineFence text := by
  induction text with
  | nil =>
    refine ⟨fun _ tail htail => ?_, fun _ => rfl⟩
    rw [List.suffix_nil.mp htail]
    rfl
  | cons c text ih =>
    cases hread : inlineFence? (c :: text) with
    | none =>
      rw [removed_of_none hread, List.cons.injEq, eq_self, true_and, ih]
      constructor
      · intro h tail htail
        rcases List.suffix_cons_iff.mp htail with rfl | htail
        · exact hread
        · exact h tail htail
      · exact fun h tail htail => h tail (htail.trans (List.suffix_cons c text))
    | some after =>
      rw [removed_of_some hread]
      constructor
      · intro h
        have hafter := (inlineFence?_cons hread).2.length_le
        have hle := length_removed_le after
        rw [h, List.length_cons] at hle
        omega
      · intro h
        have hnone := h _ List.suffix_rfl
        rw [hread] at hnone
        cases hnone

theorem lstrip_append_cons {c : Char} (hc : isSpace c = false) (text rest : List Char) :
    lstrip (text ++ c :: rest) = lstrip text ++ c :: rest := dropWhile_append_cons hc text rest

theorem rstrip_append_cons {c : Char} (hc : isSpace c = false) (text rest : List Char) :
    rstrip (text ++ c :: rest) = text ++ c :: rstrip rest := by
  have hreverse : (text ++ c :: rest).reverse = rest.reverse ++ c :: text.reverse := by
    rw [List.reverse_append, List.reverse_cons, List.append_assoc, List.singleton_append]
  rw [rstrip, hreverse, dropWhile_append_cons hc, List.reverse_append, List.reverse_cons, List.reverse_reverse,
    List.append_assoc, List.singleton_append]
  rfl

/-- Stripping stops at what is no blank. -/
theorem strip_between {first last : Char} (hfirst : isSpace first = false) (hlast : isSpace last = false)
    (text middle rest : List Char) :
    strip (text ++ first :: (middle ++ last :: rest)) = lstrip text ++ first :: (middle ++ last :: rstrip rest) := by
  rw [strip, lstrip_append_cons hfirst, ← List.cons_append, ← List.append_assoc, rstrip_append_cons hlast,
    List.append_assoc, List.cons_append]

/-- What is left of a text is empty or ends as the text does. -/
theorem lstrip_suffix (text : List Char) : lstrip text <:+ text := List.dropWhile_suffix isSpace

end

end MindRoom.InteractiveText
