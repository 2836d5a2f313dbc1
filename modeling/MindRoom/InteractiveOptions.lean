import MindRoom.InteractiveText

/-! # The options of an interactive question

The first block of a response asks a question with at most five options. Each option is shown on a numbered
line, and is found under its emoji as well as under its number: one mapping holds both, and what is set last
is what is found. So a number finds the option of its line unless a later option has that number for an emoji.
-/

namespace MindRoom

open InteractiveText JsonText

namespace Interactive

/-! ## Payloads -/

/-- What JSON is read as. A scalar is known by its text and by whether it counts as true, and no two members
of an object have one key. -/
inductive PayloadValue
  | text (s : String)
  | scalar (shown : String) (truthy : Bool)
  | list (items : List PayloadValue)
  | object (members : List (String × PayloadValue))

inductive LoadError
  | jsonDecodeError
  | other
deriving DecidableEq

/-- The JSON reader of the host, how it shows a list or an object, and its `str.lower`. -/
structure Host where
  loads : List Char → Except LoadError PayloadValue
  repr : PayloadValue → String
  lower : String → String

structure InteractiveOption where
  emoji : String
  label : String
  value : String
deriving DecidableEq

structure InteractiveMetadata where
  questionText : String
  optionMap : Mapping String String
  optionLabels : Mapping String String
  optionsList : List InteractiveOption
deriving DecidableEq

structure InteractiveResponse where
  formattedText : List Char
  interactiveMetadata : Option InteractiveMetadata
deriving DecidableEq

/-- Whether the value counts as true. -/
def PayloadValue.truthy : PayloadValue → Bool
  | .text s => s ≠ ""
  | .scalar _ truthy => truthy
  | .list items => !items.isEmpty
  | .object members => !members.isEmpty

def maxOptions : Nat := 5

def defaultQuestion : String := "Please choose an option:"

def instructionText : String := "React with an emoji or type the number to respond."

def maxPromptMetadataBytes : Nat := 8000

section

variable (host : Host)

def Host.str : PayloadValue → String
  | .text s => s
  | .scalar shown _ => shown
  | value => host.repr value

/-- `data.get(key)`. -/
def get? (data : List (String × PayloadValue)) (key : String) : Option PayloadValue :=
  (data.find? fun member => member.1 = key).map (·.2)

/-- `str(data.get(key) or default)`. -/
def Host.strOr (data : List (String × PayloadValue)) (key default : String) : String :=
  ((get? data key).filter (·.truthy)).elim default host.str

def coerceInteractiveOption : PayloadValue → Option InteractiveOption
  | .object data =>
    let label := host.strOr data "label" "Option"
    some
      { emoji := host.strOr data "emoji" "❓"
        label
        value := host.strOr data "value" (host.lower label) }
  | _ => none

def payloadOf : PayloadValue → Option (String × List InteractiveOption)
  | .object data =>
    match get? data "options" with
    | some (.list rawOptions) =>
      let options := (rawOptions.filterMap (coerceInteractiveOption host)).take maxOptions
      if options = [] then none else some (host.strOr data "question" defaultQuestion, options)
    | _ => none
  | _ => none

def coerceInteractivePayload (rawJson : List Char) :
    Except LoadError (Option (String × List InteractiveOption)) :=
  match host.loads rawJson with
  | .ok data => .ok (payloadOf host data)
  | .error .jsonDecodeError => .ok none
  | .error error => .error error

end

/-! ## Formatting -/

/-- `f"{i}. {emoji} {label}"`. -/
def optionLine (i : Nat) (option : InteractiveOption) : List Char :=
  Nat.toDigits 10 i ++ '.' :: ' ' :: (option.emoji.toList ++ ' ' :: option.label.toList)

def optionLines (options : List InteractiveOption) : List (List Char) :=
  (options.zipIdx 1).map fun option => optionLine option.2 option.1

/-- `"\n".join(lines)`. -/
def joinLines (lines : List (List Char)) : List Char := (lines.intersperse ['\n']).flatten

def renderQuestionText (question : String) (options : List InteractiveOption) (includeInstruction : Bool) :
    List Char :=
  joinLines (question.toList :: [] :: optionLines options ++
    if includeInstruction then [[], instructionText.toList] else [])

/-- One mapping of the options: each emoji and each number with what the option says. -/
def fillOptions (field : InteractiveOption → String) (options : List InteractiveOption) : Mapping String String :=
  (options.zipIdx 1).foldl
    (fun found option => (found.set option.1.emoji (field option.1)).set (Nat.repr option.2) (field option.1)) ∅

/-- A mapping as a JSON object with sorted keys. -/
def jsonOf (found : Mapping String String) : Json :=
  .obj ((Dict.sortKeys (found.rows.map fun item => (item.key, item.value))).map fun member =>
    (member.1, .str member.2))

def InteractiveMetadata.fromParts (optionMap : Option (Mapping String String))
    (optionsList : Option (List InteractiveOption)) (questionText : String)
    (optionLabels : Option (Mapping String String)) : Option InteractiveMetadata := do
  let optionMap ← optionMap.filter fun found => !found.rows.isEmpty
  let optionsList ← optionsList.filter fun options => !options.isEmpty
  let metadata : InteractiveMetadata :=
    { questionText, optionMap, optionLabels := optionLabels.getD ∅, optionsList }
  let encoded := compactLength (.obj [("option_labels", jsonOf metadata.optionLabels),
    ("options", jsonOf metadata.optionMap), ("question_text", .str questionText)])
  if maxPromptMetadataBytes < encoded then none else some metadata

/-- The metadata of the first block. -/
def registration (question : String) (options : List InteractiveOption) (extractMapping : Bool) :
    Option InteractiveMetadata :=
  InteractiveMetadata.fromParts (if extractMapping then some (fillOptions (·.value) options) else none)
    (if extractMapping then some options else none) question
    (if extractMapping then some (fillOptions (·.label) options) else none)

section

variable (host : Host)

/-- A block after the first one, with the text before it: its question, or nothing. -/
def renderExtra (block : List Char × List Char) : Except LoadError (List Char) := do
  let payload ← coerceInteractivePayload host block.2
  return block.1 ++ payload.elim [] fun payload => renderQuestionText payload.1 payload.2 false

/-- The response that shows the first block, with what stands before it and after it. -/
def respond (gap : List Char) (question : String) (options : List InteractiveOption) (extractMapping : Bool)
    (rest : List Char) : InteractiveResponse :=
  let interactiveMetadata := registration question options extractMapping
  let rendered := renderQuestionText question options (!extractMapping || interactiveMetadata.isSome)
  { formattedText := removeInlineUnparsedInteractiveFences (InteractiveText.strip (gap ++ rendered ++ rest))
    interactiveMetadata }

def parseAndFormatInteractive (responseText : List Char) (extractMapping : Bool) :
    Except LoadError InteractiveResponse :=
  let found := findBlocks responseText.length responseText
  match found.1 with
  | [] => .ok ⟨responseText, none⟩
  | block :: extra => do
      match ← coerceInteractivePayload host block.2 with
      | none => return ⟨responseText, none⟩
      | some payload =>
        let rendered ← extra.mapM (renderExtra host)
        return respond block.1 payload.1 payload.2 extractMapping (rendered.flatten ++ found.2)

end

/-! ## What a key finds -/

section

variable {options : List InteractiveOption} {option : InteractiveOption} {key : String} {i start : Nat}

/-- The keys in the order they are set, each with its option. -/
def assignments (start : Nat) (options : List InteractiveOption) : List (String × InteractiveOption) :=
  (options.zipIdx start).flatMap fun option => [(option.1.emoji, option.1), (Nat.repr option.2, option.1)]

/-- The option a key is set to last. -/
def lastSet (key : String) (assigned : List (String × InteractiveOption)) : Option InteractiveOption :=
  ((assigned.filter fun entry => entry.1 = key).map (·.2)).getLast?

def lastWith (emoji : String) (options : List InteractiveOption) : Option InteractiveOption :=
  (options.filter fun option => option.emoji = emoji).getLast?

theorem value?_foldl_assigned (field : InteractiveOption → String) (assigned : List (String × InteractiveOption))
    (found : Mapping String String) :
    (assigned.foldl (fun found entry => found.set entry.1 (field entry.2)) found).value? key =
      ((lastSet key assigned).map field).or (found.value? key) := by
  induction assigned generalizing found with
  | nil => rfl
  | cons entry assigned ih =>
    rw [List.foldl_cons, ih, Mapping.value?_set, lastSet, lastSet, List.filter_cons]
    by_cases hkey : entry.1 = key
    · rw [if_pos hkey, if_pos (by simpa using hkey), List.map_cons, List.getLast?_cons]
      cases ((assigned.filter fun entry => entry.1 = key).map (·.2)).getLast? <;> rfl
    · rw [if_neg hkey, if_neg (by simpa using hkey)]

/-- Both mappings find what the key was set to last. -/
theorem value?_fillOptions (field : InteractiveOption → String) :
    (fillOptions field options).value? key = (lastSet key (assignments 1 options)).map field := by
  have hfold : fillOptions field options =
      (assignments 1 options).foldl (fun found entry => found.set entry.1 (field entry.2)) ∅ := by
    rw [assignments, List.foldl_flatMap]
    rfl
  rw [hfold, value?_foldl_assigned, Mapping.value?_empty, Option.or_none]

theorem repr_injective : Function.Injective Nat.repr := fun m n h => toDigits_injective (by
  rw [← Nat.toList_repr, ← Nat.toList_repr, h])

theorem lastSet_append (before after : List (String × InteractiveOption)) :
    lastSet key (before ++ after) = (lastSet key after).or (lastSet key before) := by
  rw [lastSet, List.filter_append, List.map_append, List.getLast?_append]
  rfl

/-- A key that is no number of the options finds the last one with that emoji. -/
theorem lastSet_assignments (hkey : ∀ j, start ≤ j → j < start + options.length → Nat.repr j ≠ key) :
    lastSet key (assignments start options) = lastWith key options := by
  have hfilter : ((assignments start options).filter fun entry => entry.1 = key).map (·.2) =
      options.filter fun option => option.emoji = key := by
    induction options generalizing start with
    | nil => rfl
    | cons option options ih =>
      rw [List.length_cons] at hkey
      have hnumber := hkey start le_rfl (by omega)
      have hkeys : ∀ j, start + 1 ≤ j → j < start + 1 + options.length → Nat.repr j ≠ key :=
        fun j hj hlt => hkey j (by omega) (by omega)
      have htail := ih hkeys
      rw [assignments, List.zipIdx_cons, List.flatMap_cons, ← assignments, List.filter_append, List.map_append, htail]
      by_cases hemoji : option.emoji = key <;> simp [hemoji, hnumber]
  rw [lastSet, hfilter, lastWith]

/-- The number of an option finds the last later option that has it for an emoji, or else the option itself. -/
theorem lastSet_number (hoption : options[i]? = some option) : lastSet (Nat.repr (i + 1)) (assignments 1 options) =
      (lastWith (Nat.repr (i + 1)) (options.drop (i + 1))).or (some option) := by
  obtain ⟨hi, rfl⟩ := List.getElem?_eq_some_iff.mp hoption
  have hsplit : assignments 1 options = assignments 1 (options.take i) ++
      [(options[i].emoji, options[i]), (Nat.repr (i + 1), options[i])] ++
        assignments (i + 2) (options.drop (i + 1)) := by
    conv_lhs => rw [← List.take_append_drop i options, List.drop_eq_getElem_cons hi]
    rw [assignments, List.zipIdx_append, List.zipIdx_cons, List.flatMap_append, List.flatMap_cons,
      List.length_take_of_le hi.le, Nat.add_comm 1 i, ← List.append_assoc]
    rfl
  have hlater : lastSet (Nat.repr (i + 1)) (assignments (i + 2) (options.drop (i + 1))) =
      lastWith (Nat.repr (i + 1)) (options.drop (i + 1)) := by
    refine lastSet_assignments fun j hj _ h => ?_
    have heq := repr_injective h
    omega
  rw [hsplit, lastSet_append, hlater, lastSet_append, lastSet]
  by_cases hemoji : options[i].emoji = Nat.repr (i + 1) <;> simp [hemoji]

end

/-! ## What is displayed -/

/-- The option lines as they are displayed: without the inline fences in them. -/
def shownLines (options : List InteractiveOption) : List (List Char) :=
  (optionLines options).map fun line => (removed line).1

/-- What stands before the start of a line. -/
def StartsLine (before : List Char) : Prop := before = [] ∨ ∃ lines, before = lines ++ ['\n']

/-- The text shows the option lines from the start of a line to the end of one. -/
def Displays (options : List InteractiveOption) (text : List Char) : Prop :=
  ∃ before after, text = before ++ (joinLines (shownLines options) ++ '\n' :: after) ∧ StartsLine before

section

variable {before rest : List Char} {c : Char} {options : List InteractiveOption}

theorem joinLines_cons {line : List Char} {lines : List (List Char)} (h : lines ≠ []) :
    joinLines (line :: lines) = line ++ '\n' :: joinLines lines := by
  cases lines with
  | nil => exact absurd rfl h
  | cons next lines => rfl

theorem joinLines_append {lines lines' : List (List Char)} (h : lines ≠ []) (h' : lines' ≠ []) :
    joinLines (lines ++ lines') = joinLines lines ++ '\n' :: joinLines lines' := by
  induction lines with
  | nil => exact absurd rfl h
  | cons line lines ih =>
    cases lines with
    | nil =>
      rw [List.singleton_append, joinLines_cons h']
      simp [joinLines]
    | cons next lines =>
      have hnext : next :: lines ≠ [] := List.cons_ne_nil next lines
      have happend : next :: lines ++ lines' ≠ [] := List.cons_ne_nil next _
      rw [List.cons_append, joinLines_cons happend, ih hnext, joinLines_cons hnext, List.append_assoc, List.cons_append]

/-- Fences are removed line by line. -/
theorem removed_joinLines (lines : List (List Char)) :
    (removed (joinLines lines)).1 = joinLines (lines.map fun line => (removed line).1) := by
  induction lines with
  | nil => rfl
  | cons line lines ih =>
    by_cases hlines : lines = []
    · rw [hlines]
      simp [joinLines]
    · rw [joinLines_cons hlines, removed_append, List.map_cons, joinLines_cons (by simpa using hlines), ih]

theorem StartsLine.suffix (h : StartsLine before) {before' : List Char} (hsuffix : before' <:+ before) :
    StartsLine before' := by
  rcases h with rfl | ⟨lines, rfl⟩
  · exact .inl (List.suffix_nil.mp hsuffix)
  · rcases List.suffix_concat_iff.mp hsuffix with rfl | ⟨lines', rfl, -⟩
    · exact .inl rfl
    · exact .inr ⟨lines', rfl⟩

/-- What is removed from a line on does not depend on what stands before it. -/
theorem StartsLine.removed (h : StartsLine before) (text : List Char) :
    (removed (before ++ text)).1 = (removed before).1 ++ (removed text).1 ∧ StartsLine (removed before).1 := by
  rcases h with rfl | ⟨lines, rfl⟩
  · exact ⟨rfl, .inl rfl⟩
  · have happend := removed_append lines []
    rw [removed_nil] at happend
    rw [List.append_assoc, List.singleton_append, removed_append, happend, List.append_assoc, List.singleton_append]
    exact ⟨rfl, .inr ⟨_, rfl⟩⟩

/-- A text without backticks stays. -/
theorem removed_append_plain {text : List Char} (h : ∀ c ∈ text, c ≠ '\x60') (rest : List Char) :
    (removed (text ++ rest)).1 = text ++ (removed rest).1 := by
  induction text with
  | nil => rfl
  | cons c text ih =>
    rw [List.cons_append, removed_cons (h c List.mem_cons_self), List.cons_append,
      ih fun c hc => h c (List.mem_cons_of_mem _ hc)]

/-- A number is neither a blank nor the start of a fence. -/
theorem digit_shown (h : c.isDigit = true) : isSpace c = false ∧ c ≠ '\x60' := by
  have hcode : ∀ n, 48 ≤ n → n ≤ 57 → (spaceRanges.any fun r => r.1 ≤ n && n ≤ r.2) = false ∧ n ≠ 96 := by
    intro n hlow hhigh
    interval_cases n <;> decide
  rw [Char.isDigit, Bool.and_eq_true, decide_eq_true_eq, decide_eq_true_eq] at h
  have hshown := hcode c.toNat h.1 h.2
  refine ⟨hshown.1, ?_⟩
  rintro rfl
  exact hshown.2 rfl

/-- The option lines begin with a number, before and after fences are removed. -/
theorem optionLines_cons (h : options ≠ []) :
    ∃ c line lines, optionLines options = (c :: line) :: lines ∧ c.isDigit = true := by
  cases options with
  | nil => exact absurd rfl h
  | cons option options =>
    obtain ⟨c, digits, hdigits, hc⟩ := toDigits_cons 1
    refine ⟨c, digits ++ '.' :: ' ' :: (option.emoji.toList ++ ' ' :: option.label.toList),
      (options.zipIdx 2).map fun option => optionLine option.2 option.1, ?_, hc⟩
    rw [optionLines, List.zipIdx_cons, List.map_cons, optionLine, hdigits]
    rfl

theorem joinLines_cons_cons (c : Char) (line : List Char) (lines : List (List Char)) :
    ∃ text, joinLines ((c :: line) :: lines) = c :: text := by
  cases lines with
  | nil => exact ⟨_, rfl⟩
  | cons next lines => exact ⟨_, rfl⟩

/-- Stripping changes nothing from the option lines to the end of the instruction. -/
theorem strip_framed {lines : List Char} (hlines : ∃ text, lines = c :: text) (hc : c.isDigit = true)
    (before rest : List Char) :
    InteractiveText.strip (before ++ (lines ++ '\n' :: '\n' :: (instructionText.toList ++ rest))) =
      lstrip before ++ (lines ++ '\n' :: '\n' :: (instructionText.toList ++ rstrip rest)) := by
  obtain ⟨text, rfl⟩ := hlines
  have hinstruction : ∃ init, instructionText.toList = init ++ ['.'] := ⟨instructionText.toList.dropLast, rfl⟩
  obtain ⟨init, hinit⟩ := hinstruction
  rw [hinit]
  have hdot : isSpace '.' = false := by decide
  have hstrip := strip_between (digit_shown hc).1 hdot before (text ++ '\n' :: '\n' :: init) rest
  simpa only [List.append_assoc, List.cons_append, List.nil_append] using hstrip

theorem renderQuestionText_eq (h : options ≠ []) (question : String) :
    renderQuestionText question options true = question.toList ++ ['\n', '\n'] ++
      (joinLines (optionLines options) ++ '\n' :: '\n' :: instructionText.toList) := by
  obtain ⟨c, line, lines, hlines, -⟩ := optionLines_cons h
  have hnil : optionLines options ≠ [] := hlines ▸ List.cons_ne_nil _ _
  have hall : optionLines options ++ [[], instructionText.toList] ≠ [] := List.append_ne_nil_of_left_ne_nil hnil _
  rw [renderQuestionText, if_pos rfl, List.cons_append, List.cons_append, joinLines_cons (List.cons_ne_nil _ _),
    joinLines_cons hall, joinLines_append hnil (List.cons_ne_nil _ _), joinLines_cons (List.cons_ne_nil _ _)]
  simp [joinLines]

/-- What the response shows once it is stripped and rid of inline fences. -/
theorem displays_removeInline (h : options ≠ []) (hbefore : StartsLine before) (rest : List Char) :
    Displays options (removeInlineUnparsedInteractiveFences (before ++
      (joinLines (optionLines options) ++ '\n' :: '\n' :: (instructionText.toList ++ rest)))) := by
  obtain ⟨c, line, lines, hlines, hc⟩ := optionLines_cons h
  have hshown : ∃ text, joinLines (shownLines options) = c :: text := by
    rw [shownLines, hlines, List.map_cons, removed_cons (digit_shown hc).2]
    exact joinLines_cons_cons c _ _
  have hplain : ∀ c ∈ instructionText.toList, c ≠ '\x60' := by simp [instructionText]
  obtain ⟨hremoved, hstarts⟩ := hbefore.removed
    (joinLines (optionLines options) ++ '\n' :: '\n' :: (instructionText.toList ++ rest))
  rw [removed_append, removed_joinLines, ← shownLines, removed_cons (by decide), removed_append_plain hplain]
    at hremoved
  rw [removeInlineUnparsedInteractiveFences, ← removed]
  split
  · next hzero =>
    rw [removed_of_zero hzero] at hremoved
    exact ⟨_, _, hremoved, hstarts⟩
  · rw [hremoved, strip_framed hshown hc]
    exact ⟨_, _, rfl, hstarts.suffix (lstrip_suffix _)⟩

/-- A response with metadata shows the option lines. -/
theorem displays_respond (h : options ≠ []) {question : String} {extractMapping : Bool}
    (hmetadata : (registration question options extractMapping).isSome = true) (gap rest : List Char) :
    Displays options (respond gap question options extractMapping rest).formattedText := by
  obtain ⟨c, line, lines, hlines, hc⟩ := optionLines_cons h
  have hfirst : ∃ text, joinLines (optionLines options) = c :: text := hlines ▸ joinLines_cons_cons c line lines
  have hstarts : StartsLine (gap ++ (question.toList ++ ['\n', '\n'])) :=
    .inr ⟨gap ++ (question.toList ++ ['\n']), by simp⟩
  have htext : gap ++ renderQuestionText question options true ++ rest =
      gap ++ (question.toList ++ ['\n', '\n']) ++
        (joinLines (optionLines options) ++ '\n' :: '\n' :: (instructionText.toList ++ rest)) := by
    rw [renderQuestionText_eq h]
    simp only [List.append_assoc, List.cons_append]
  rw [respond]
  dsimp only
  rw [hmetadata, Bool.or_true, htext, strip_framed hfirst hc]
  exact displays_removeInline h (hstarts.suffix (lstrip_suffix _)) _

end

/-! ## Typing the number that is shown -/

section

variable {host : Host} {text formatted : List Char} {extractMapping : Bool} {metadata : InteractiveMetadata}
  {question : String} {options : List InteractiveOption} {option : InteractiveOption} {i : Nat}

def FirstBlock (host : Host) (text : List Char) (question : String) (options : List InteractiveOption) : Prop :=
  ∃ block extra rest, findBlocks text.length text = (block :: extra, rest) ∧
    coerceInteractivePayload host block.2 = .ok (some (question, options))

/-- What is found under a key is one option. -/
structure Finds (metadata : InteractiveMetadata) (key : String) (option : InteractiveOption) : Prop where
  value : metadata.optionMap.value? key = some option.value
  label : metadata.optionLabels.value? key = some option.label

structure SelectsShown (options : List InteractiveOption) (metadata : InteractiveMetadata) : Prop where
  lines : ∀ i option, options[i]? = some option →
    (removed (optionLine (i + 1) option)).1.takeWhile (· ≠ '\n') = optionLine (i + 1) option
  numbers : ∀ i option, options[i]? = some option → Finds metadata (Nat.repr (i + 1)) option
  emojis : ∀ option ∈ options, ∃ shown ∈ options, shown.emoji = option.emoji ∧ Finds metadata option.emoji shown

/-- No option breaks its line or has an inline fence in it. -/
def PlainLines (options : List InteractiveOption) : Prop :=
  ∀ i option, options[i]? = some option →
    '\n' ∉ option.emoji.toList ∧ '\n' ∉ option.label.toList ∧ NoInlineFence (optionLine (i + 1) option)

def Alike (option option' : InteractiveOption) : Prop := option.value = option'.value ∧ option.label = option'.label

/-- Where the number of an option is an emoji, too, the last later option with it says the same, and so does
some option with it. -/
structure NoClash (options : List InteractiveOption) : Prop where
  later : ∀ i option later, options[i]? = some option →
    lastWith (Nat.repr (i + 1)) (options.drop (i + 1)) = some later → Alike later option
  shown : ∀ i option, options[i]? = some option → (∃ shown ∈ options, shown.emoji = Nat.repr (i + 1)) →
    ∃ shown ∈ options, shown.emoji = Nat.repr (i + 1) ∧ Alike shown option

theorem mem_of_lastWith {emoji : String} {shown : InteractiveOption} (h : lastWith emoji options = some shown) :
    shown ∈ options ∧ shown.emoji = emoji := by
  have hmem := List.mem_of_getLast? h
  rw [List.mem_filter, decide_eq_true_eq] at hmem
  exact hmem

/-- A key finds the option it was set to last. -/
theorem finds_iff (hmap : metadata.optionMap = fillOptions (·.value) options)
    (hlabels : metadata.optionLabels = fillOptions (·.label) options) {key : String} {shown : InteractiveOption}
    (hset : lastSet key (assignments 1 options) = some shown) : Finds metadata key option ↔ Alike shown option := by
  have hvalue : metadata.optionMap.value? key = some shown.value := by
    rw [hmap, value?_fillOptions, hset, Option.map_some]
  have hlabel : metadata.optionLabels.value? key = some shown.label := by
    rw [hlabels, value?_fillOptions, hset, Option.map_some]
  constructor
  · rintro ⟨hvalue', hlabel'⟩
    exact ⟨Option.mem_unique hvalue hvalue', Option.mem_unique hlabel hlabel'⟩
  · rintro ⟨hvalue', hlabel'⟩
    exact ⟨hvalue' ▸ hvalue, hlabel' ▸ hlabel⟩

theorem Finds.alike {key : String} {option option' : InteractiveOption} (h : Finds metadata key option)
    (h' : Finds metadata key option') : Alike option option' :=
  ⟨Option.mem_unique h.value h'.value, Option.mem_unique h.label h'.label⟩

theorem takeWhile_eq_self_iff {line : List Char} : line.takeWhile (fun c => c ≠ '\n') = line ↔ '\n' ∉ line := by
  rw [List.takeWhile_eq_self_iff]
  constructor
  · intro h hmem
    simpa using h _ hmem
  · intro h c hc
    have hne : c ≠ '\n' := fun heq => h (heq ▸ hc)
    simpa using hne

/-- The end of the line stays where it is. -/
theorem takeWhile_removed (line : List Char) :
    (removed line).1.takeWhile (fun c => c ≠ '\n') = line ↔ '\n' ∉ line ∧ NoInlineFence line := by
  constructor
  · intro h
    have hmem : '\n' ∉ line := by
      rw [← h]
      intro hmem
      simpa using List.mem_takeWhile_imp hmem
    refine ⟨hmem, (removed_eq_self_iff line).mp ?_⟩
    have hle := length_removed_le line
    have hsub := (List.takeWhile_prefix (fun c => decide (c ≠ '\n')) (l := (removed line).1))
    rw [h] at hsub
    exact (hsub.eq_of_length (le_antisymm hsub.length_le hle)).symm
  · rintro ⟨hmem, hfence⟩
    rw [(removed_eq_self_iff line).mpr hfence]
    exact takeWhile_eq_self_iff.mpr hmem

theorem newline_mem_optionLine : '\n' ∈ optionLine (i + 1) option ↔
    '\n' ∈ option.emoji.toList ∨ '\n' ∈ option.label.toList := by
  have hdigits : '\n' ∉ Nat.toDigits 10 (i + 1) := by
    intro hmem
    have hdigit := Nat.isDigit_of_mem_toDigits (by decide) (by decide) hmem
    revert hdigit
    decide
  rw [optionLine]
  simp [hdigits]

theorem lines_iff : (∀ i option, options[i]? = some option →
    (removed (optionLine (i + 1) option)).1.takeWhile (· ≠ '\n') = optionLine (i + 1) option) ↔
      PlainLines options := by
  refine forall_congr' fun i => forall_congr' fun option => imp_congr_right fun _ => ?_
  rw [takeWhile_removed, newline_mem_optionLine, not_or, and_assoc]

/-- The options are selected as they are shown exactly if no number clashes with an emoji and every line is
displayed as it is. -/
theorem selectsShown_iff (hmap : metadata.optionMap = fillOptions (·.value) options)
    (hlabels : metadata.optionLabels = fillOptions (·.label) options) :
    SelectsShown options metadata ↔ PlainLines options ∧ NoClash options := by
  constructor
  · intro h
    refine ⟨lines_iff.mp h.lines, ?_, ?_⟩
    · intro i option later hoption hlater
      have hset := lastSet_number hoption
      rw [hlater, Option.some_or] at hset
      exact (finds_iff hmap hlabels hset).mp (h.numbers i option hoption)
    · rintro i option hoption ⟨shown, hshown, hemoji⟩
      obtain ⟨found, hfound, hsame, hfinds⟩ := h.emojis shown hshown
      rw [hemoji] at hsame hfinds
      exact ⟨found, hfound, hsame, hfinds.alike (h.numbers i option hoption)⟩
  · rintro ⟨hplain, hclash⟩
    have hnumbers : ∀ i option, options[i]? = some option → Finds metadata (Nat.repr (i + 1)) option := by
      intro i option hoption
      have hset := lastSet_number hoption
      cases hlater : lastWith (Nat.repr (i + 1)) (options.drop (i + 1)) with
      | none =>
        rw [hlater, Option.none_or] at hset
        exact (finds_iff hmap hlabels hset).mpr ⟨rfl, rfl⟩
      | some later =>
        rw [hlater, Option.some_or] at hset
        exact (finds_iff hmap hlabels hset).mpr (hclash.later i option later hoption hlater)
    refine ⟨lines_iff.mpr hplain, hnumbers, ?_⟩
    intro option hmem
    -- an emoji that is the number of an option is found as the number is
    by_cases hnumber : ∃ i, i < options.length ∧ Nat.repr (i + 1) = option.emoji
    · obtain ⟨i, hi, hemoji⟩ := hnumber
      have hget : options[i]? = some options[i] := List.getElem?_eq_getElem hi
      obtain ⟨shown, hshown, hsame, hvalue, hlabel⟩ := hclash.shown i _ hget ⟨option, hmem, hemoji.symm⟩
      have hfinds := hnumbers i _ hget
      rw [hemoji] at hsame hfinds
      exact ⟨shown, hshown, hsame, hvalue ▸ hfinds.value, hlabel ▸ hfinds.label⟩
    · have hset : lastSet option.emoji (assignments 1 options) = lastWith option.emoji options := by
        refine lastSet_assignments fun j hj hlt hrepr => hnumber ⟨j - 1, by omega, ?_⟩
        rw [Nat.sub_add_cancel hj, hrepr]
      have hsome : ∃ shown, lastWith option.emoji options = some shown := by
        rw [← Option.isSome_iff_exists, lastWith, List.getLast?_isSome]
        exact List.ne_nil_of_mem (List.mem_filter.mpr ⟨hmem, decide_eq_true rfl⟩)
      obtain ⟨shown, hlast⟩ := hsome
      obtain ⟨hshown, hsame⟩ := mem_of_lastWith hlast
      exact ⟨shown, hshown, hsame, (finds_iff hmap hlabels (hset.trans hlast)).mpr ⟨rfl, rfl⟩⟩

theorem options_ne_nil {raw : List Char} (h : coerceInteractivePayload host raw = .ok (some (question, options))) :
    options ≠ [] := by
  rw [coerceInteractivePayload] at h
  split at h
  · next data _ =>
    rw [Except.ok.injEq] at h
    unfold payloadOf at h
    split at h
    · split at h
      · next hget =>
        dsimp only at h
        split at h
        · cases h
        · next hne =>
          cases h
          exact hne
      · cases h
    · cases h
  · cases h
  · cases h

/-- Metadata comes from the first block, and both of its mappings from the options there. -/
theorem registration_eq_some (h : registration question options extractMapping = some metadata) :
    metadata.optionMap = fillOptions (·.value) options ∧ metadata.optionLabels = fillOptions (·.label) options := by
  rw [registration, InteractiveMetadata.fromParts] at h
  cases extractMapping with
  | false => cases h
  | true =>
    simp only [reduceIte] at h
    rcases Option.bind_eq_some_iff.mp h with ⟨optionMap, hmap, h⟩
    rcases Option.bind_eq_some_iff.mp h with ⟨optionsList, hlist, h⟩
    obtain ⟨hmap, -⟩ := Option.filter_eq_some_iff.mp hmap
    cases hmap
    split at h
    · cases h
    · cases h
      exact ⟨rfl, rfl⟩

theorem parseAndFormatInteractive_inv
    (h : parseAndFormatInteractive host text extractMapping = .ok ⟨formatted, some metadata⟩) :
    ∃ question options gap rest, FirstBlock host text question options ∧
      registration question options extractMapping = some metadata ∧
      formatted = (respond gap question options extractMapping rest).formattedText := by
  unfold parseAndFormatInteractive at h
  dsimp only at h
  split at h
  · cases h
  · next block extra hfound =>
    cases hpayload : coerceInteractivePayload host block.2 with
    | error error =>
      rw [hpayload] at h
      cases h
    | ok payload =>
      rw [hpayload] at h
      cases payload with
      | none => cases h
      | some payload =>
        cases hextra : extra.mapM (renderExtra host) with
        | error error =>
          change ((extra.mapM (renderExtra host)) >>= _) = _ at h
          rw [hextra] at h
          cases h
        | ok rendered =>
          change ((extra.mapM (renderExtra host)) >>= _) = _ at h
          rw [hextra] at h
          have hrespond : respond block.1 payload.1 payload.2 extractMapping
              (rendered.flatten ++ (findBlocks text.length text).2) = ⟨formatted, some metadata⟩ :=
            Except.ok.inj h
          refine ⟨payload.1, payload.2, block.1, rendered.flatten ++ (findBlocks text.length text).2,
            ⟨block, extra, (findBlocks text.length text).2, Prod.ext hfound rfl, hpayload⟩, ?_, ?_⟩
          · exact congrArg InteractiveResponse.interactiveMetadata hrespond
          · exact (congrArg InteractiveResponse.formattedText hrespond).symm

/-- A response with metadata displays the options of its first block, and selects what it shows exactly if their
lines are plain and no number of an option is an emoji that says something else. -/
theorem parseAndFormatInteractive_selects
    (h : parseAndFormatInteractive host text extractMapping = .ok ⟨formatted, some metadata⟩) :
    ∃ question options, FirstBlock host text question options ∧ Displays options formatted ∧
      (SelectsShown options metadata ↔ PlainLines options ∧ NoClash options) := by
  obtain ⟨question, options, gap, rest, hfirst, hmetadata, rfl⟩ := parseAndFormatInteractive_inv h
  obtain ⟨block, extra, found, hfound, hpayload⟩ := hfirst
  have hoptions := options_ne_nil hpayload
  have hmaps := registration_eq_some hmetadata
  refine ⟨question, options, ⟨block, extra, found, hfound, hpayload⟩, ?_, selectsShown_iff hmaps.1 hmaps.2⟩
  exact displays_respond hoptions (hmetadata ▸ rfl) gap rest

end

/-! ## A number for an emoji

A question whose second option has the number of the first one for an emoji. What is typed for the first line
selects the second option.
-/

namespace NumberForEmoji

mutual

def ofJson : Json → PayloadValue
  | .null => .scalar "None" false
  | .bool true => .scalar "True" true
  | .bool false => .scalar "False" false
  | .num n => .scalar (String.ofList (dumpsNum n)) (n ≠ 0)
  | .str s => .text s
  | .arr items => .list (ofItems items)
  | .obj members => .object (ofMembers members)

def ofItems : List Json → List PayloadValue
  | [] => []
  | item :: items => ofJson item :: ofItems items

def ofMembers : List (String × Json) → List (String × PayloadValue)
  | [] => []
  | (k, v) :: members => (k, ofJson v) :: ofMembers members

end

/-- A host on which labels are lower case already. -/
def plainHost : Host where
  loads raw := (JsonText.loads raw).elim (.error .jsonDecodeError) fun data => .ok (ofJson data)
  repr _ := ""
  lower s := s

def responseText : List Char :=
  ("Pick one.\n\x60\x60\x60interactive\n\x7b\"question\": \"Which?\", \"options\": [" ++
    "\x7b\"emoji\": \"x\", \"label\": \"A\", \"value\": \"a\"\x7d, " ++
    "\x7b\"emoji\": \"1\", \"label\": \"B\", \"value\": \"b\"\x7d]\x7d\n\x60\x60\x60").toList

def options : List InteractiveOption := [⟨"x", "A", "a"⟩, ⟨"1", "B", "b"⟩]

def metadata : InteractiveMetadata :=
  ⟨"Which?", fillOptions (·.value) options, fillOptions (·.label) options, options⟩

def formatted : List Char :=
  ("Pick one.\nWhich?\n\n1. x A\n2. 1 B\n\n" ++ instructionText).toList

theorem parses : parseAndFormatInteractive plainHost responseText true = .ok ⟨formatted, some metadata⟩ := by
  decide +kernel

/-- The first line shows one option, and its number finds the other one. -/
theorem parses_unselected : ∃ formatted metadata question options,
    parseAndFormatInteractive plainHost responseText true = .ok ⟨formatted, some metadata⟩ ∧
      FirstBlock plainHost responseText question options ∧ ¬ SelectsShown options metadata := by
  refine ⟨formatted, metadata, "Which?", options, parses, ?_, ?_⟩
  · obtain ⟨block, hfound⟩ : ∃ block, findBlocks responseText.length responseText = ([block], []) ∧
        coerceInteractivePayload plainHost block.2 = .ok (some ("Which?", options)) := by
      refine ⟨((findBlocks responseText.length responseText).1.headD ([], [])), ?_⟩
      decide +kernel
    exact ⟨block, [], [], hfound⟩
  · intro h
    have hvalue := (h.numbers 0 ⟨"x", "A", "a"⟩ rfl).value
    revert hvalue
    decide +kernel

theorem parses_selects : ∃ question options,
    FirstBlock plainHost responseText question options ∧ Displays options formatted ∧
      (SelectsShown options metadata ↔ PlainLines options ∧ NoClash options) :=
  parseAndFormatInteractive_selects parses

end NumberForEmoji

end Interactive

end MindRoom
