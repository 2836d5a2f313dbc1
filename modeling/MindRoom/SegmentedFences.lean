import MindRoom.TextLines
import MindRoom.SegmentedLossless

/-! # Fenced code blocks of segments

The fenced code blocks of a text are found by one scan over its lines. Splitting scans each chunk on its
own: that agrees with the scan of the text as long as no chunk ends inside a fence line, and no chunk starts
inside a line with what is read as a fence.
-/

namespace MindRoom.SegmentedMessages

open TextLines

/-! ## Scans -/

section

variable {position : Nat} {opener : Option Opener} {line : List Char} {lines lines' : List (List Char)}

/-- The open fence behind lines that start at a position. -/
def openAfter (position : Nat) (opener : Option Opener) (lines : List (List Char)) : Option Opener :=
  (lines.foldl scanLine (position, opener)).2

theorem foldl_scanLine_fst : (lines.foldl scanLine (position, opener)).1 = position + width lines := by
  induction lines generalizing position opener with
  | nil => rfl
  | cons line lines ih =>
    have hnext : scanLine (position, opener) line =
      (position + line.length + 1, fenceAfter position opener line) := rfl
    rw [List.foldl_cons, hnext, ih, width_cons]
    omega

theorem openAfter_cons : openAfter position opener (line :: lines) =
    openAfter (position + line.length + 1) (fenceAfter position opener line) lines := rfl

theorem openAfter_append : openAfter position opener (lines ++ lines') =
    openAfter (position + width lines) (openAfter position opener lines) lines' := by
  unfold openAfter
  rw [List.foldl_append, ← foldl_scanLine_fst]

theorem openAfter_concat : openAfter position opener (lines ++ [line]) =
    fenceAfter (position + width lines) (openAfter position opener lines) line := openAfter_append

def closedBlock (position : Nat) (opener : Option Opener) (line : List Char) : List (Nat × Nat) :=
  match opener with
  | none => []
  | some opener =>
    if fenceAfter position (some opener) line = none then [(opener.position, position + line.length)] else []

/-- The fenced code blocks of lines that start at a position: where each starts, and where its last line ends.
A fence that is not closed goes up to the end. -/
def blocksOf : Nat → Option Opener → List (List Char) → List (Nat × Nat)
  | position, opener, [] => opener.toList.map fun opener => (opener.position, position - 1)
  | position, opener, line :: lines =>
    closedBlock position opener line ++
      blocksOf (position + line.length + 1) (fenceAfter position opener line) lines

def fencedBlocks (text : List Char) : List (Nat × Nat) := blocksOf 0 none (text.splitOn '\n')

theorem mem_closedBlock {block : Nat × Nat} : block ∈ closedBlock position opener line ↔
    ∃ o ∈ opener, fenceAfter position opener line = none ∧ block = (o.position, position + line.length) := by
  cases opener with
  | none => simp [closedBlock]
  | some o =>
    change (block ∈ if fenceAfter position (some o) line = none then [(o.position, position + line.length)]
      else []) ↔ _
    by_cases hclosed : fenceAfter position (some o) line = none
    · rw [if_pos hclosed]
      simp [hclosed]
    · rw [if_neg hclosed]
      simp [hclosed]

theorem blocksOf_append (h : openAfter position opener lines = none) : blocksOf position opener (lines ++ lines') =
      blocksOf position opener lines ++ blocksOf (position + width lines) none lines' := by
  induction lines generalizing position opener with
  | nil =>
    have hnone : opener = none := h
    subst hnone
    rfl
  | cons line lines ih =>
    rw [List.cons_append, blocksOf, blocksOf, ih h, List.append_assoc, width_cons, Nat.add_assoc, Nat.add_assoc]
/-- Blocks start where the scan does or later. -/
theorem blocksOf_start {first : Nat} (hopener : ∀ o ∈ opener, first ≤ o.position) (hposition : first ≤ position) :
    ∀ block ∈ blocksOf position opener lines, first ≤ block.1 := by
  induction lines generalizing position opener with
  | nil =>
    intro block hblock
    obtain ⟨o, ho, rfl⟩ := List.mem_map.mp hblock
    exact hopener o (Option.mem_toList.mp ho)
  | cons line lines ih =>
    intro block hblock
    rw [blocksOf, List.mem_append] at hblock
    rcases hblock with hclosed | hlater
    · obtain ⟨o, ho, -, rfl⟩ := mem_closedBlock.mp hclosed
      exact hopener o ho
    · refine ih ?_ (by omega) block hlater
      intro o ho
      rcases fenceAfter_position o ho with hopener' | ⟨-, hsame⟩
      · exact hopener o hopener'
      · omega

/-- Blocks end before the last break. -/
theorem blocksOf_stop (h : opener = none ∨ 0 < position) :
    ∀ block ∈ blocksOf position opener lines, block.2 + 1 ≤ position + width lines := by
  induction lines generalizing position opener with
  | nil =>
    intro block hblock
    obtain ⟨o, ho, rfl⟩ := List.mem_map.mp hblock
    rcases h with rfl | hpositive
    · cases ho
    · rw [width_nil]
      dsimp only
      omega
  | cons line lines ih =>
    intro block hblock
    rw [blocksOf, List.mem_append] at hblock
    rw [width_cons]
    rcases hblock with hclosed | hlater
    · obtain ⟨o, -, -, rfl⟩ := mem_closedBlock.mp hclosed
      dsimp only
      omega
    · have hstop := ih (.inr (Nat.succ_pos _)) block hlater
      omega

theorem ne_nil_of_fenceAfter {o : Opener} (h : fenceAfter position none line = some o) : line ≠ [] := by
  rintro rfl
  cases h

/-- Blocks are not empty. -/
theorem blocksOf_nonempty (h : ∀ o ∈ opener, o.position + 1 < position) :
    ∀ block ∈ blocksOf position opener lines, block.1 < block.2 := by
  induction lines generalizing position opener with
  | nil =>
    intro block hblock
    obtain ⟨o, ho, rfl⟩ := List.mem_map.mp hblock
    have hbefore := h o (Option.mem_toList.mp ho)
    dsimp only
    omega
  | cons line lines ih =>
    intro block hblock
    rw [blocksOf, List.mem_append] at hblock
    rcases hblock with hclosed | hlater
    · obtain ⟨o, ho, -, rfl⟩ := mem_closedBlock.mp hclosed
      have hbefore := h o ho
      dsimp only
      omega
    · refine ih ?_ block hlater
      intro o ho
      rcases fenceAfter_position o ho with hopener | ⟨rfl, hsame⟩
      · have hbefore := h o hopener
        omega
      · have hlength := List.length_pos_of_ne_nil (ne_nil_of_fenceAfter ho)
        omega

/-- The blocks that end in later lines. -/
theorem blocksOf_suffix : ∀ block ∈ blocksOf (position + width lines) (openAfter position opener lines) lines',
    block ∈ blocksOf position opener (lines ++ lines') := by
  induction lines generalizing position opener with
  | nil => exact fun block hblock => hblock
  | cons line lines ih =>
    intro block hblock
    rw [List.cons_append, blocksOf, List.mem_append]
    apply Or.inr
    apply ih
    rw [width_cons] at hblock
    have hposition : position + line.length + 1 + width lines = position + (line.length + 1 + width lines) := by
      omega
    rw [hposition]
    exact hblock

/-- An open fence stays open or is closed. -/
theorem fenceAfter_some (o : Opener) (line : List Char) :
    fenceAfter position (some o) line = none ∨ fenceAfter position (some o) line = some o := by
  unfold fenceAfter
  cases fenceLine? line with
  | none => exact .inr rfl
  | some fence =>
    dsimp only
    split
    · exact .inl rfl
    · exact .inr rfl

/-- An open fence has a block that ends behind what was scanned. -/
theorem blocksOf_open (o : Opener) :
    ∃ stop, position ≤ stop + 1 ∧ (o.position, stop) ∈ blocksOf position (some o) lines := by
  induction lines generalizing position with
  | nil => exact ⟨position - 1, by omega, List.mem_singleton.mpr rfl⟩
  | cons line lines ih =>
    rw [blocksOf]
    rcases fenceAfter_some o line with hclosed | hopen
    · refine ⟨position + line.length, by omega, List.mem_append_left _ ?_⟩
      exact mem_closedBlock.mpr ⟨o, rfl, hclosed, rfl⟩
    · rw [hopen]
      obtain ⟨stop, hstop, hmem⟩ := @ih (position + line.length + 1)
      exact ⟨stop, by omega, List.mem_append_right _ hmem⟩

/-- The block of a fence that is open before a line, or that the line opens, holds the line. -/
theorem blocksOf_line {o : Opener} (h : opener = some o ∨ opener = none ∧ fenceAfter position none line = some o) :
    ∃ stop, position + line.length ≤ stop ∧ (o.position, stop) ∈ blocksOf position opener (line :: lines) := by
  rw [blocksOf]
  have hafter : fenceAfter position opener line = none ∧ opener = some o ∨ fenceAfter position opener line = some o := by
    rcases h with rfl | ⟨rfl, hopens⟩
    · rcases fenceAfter_some o line with hclosed | hopen
      · exact .inl ⟨hclosed, rfl⟩
      · exact .inr hopen
    · exact .inr hopens
  rcases hafter with ⟨hclosed, rfl⟩ | hopen
  · refine ⟨position + line.length, le_rfl, List.mem_append_left _ ?_⟩
    exact mem_closedBlock.mpr ⟨o, rfl, hclosed, rfl⟩
  · rw [hopen]
    obtain ⟨stop, hstop, hmem⟩ := @blocksOf_open (position + line.length + 1) lines o
    exact ⟨stop, by omega, List.mem_append_right _ hmem⟩

end

/-! ## Lines that are cut -/

section

variable {line rest : List Char}

theorem quoteMarks_append {blanks : Nat} (h : (quoteMarks blanks line).2 ≠ []) :
    (quoteMarks blanks (line ++ rest)).2 = (quoteMarks blanks line).2 ++ rest := by
  induction line generalizing blanks with
  | nil => exact absurd (by cases blanks <;> rfl) h
  | cons c line ih =>
    rw [List.cons_append]
    unfold quoteMarks at h ⊢
    by_cases hmark : c = '>'
    · simp only [if_pos hmark] at h ⊢
      exact ih h
    · by_cases hblank : isBlank c = true ∧ blanks ≠ 0
      · simp only [if_neg hmark, if_pos hblank] at h ⊢
        exact ih h
      · simp only [if_neg hmark, if_neg hblank]
        rfl

/-- What starts as a fence line stays one. -/
theorem fenceLine?_append (h : fenceLine? (line ++ rest) = none) : fenceLine? line = none := by
  unfold fenceLine? at h ⊢
  dsimp only at h ⊢
  cases hmarks : (quoteMarks 0 (line.dropWhile isBlank)).2 with
  | nil => rfl
  | cons marker info =>
    have hne : line.dropWhile isBlank ≠ [] := by
      intro hnil
      rw [hnil] at hmarks
      cases hmarks
    have hdrop : (line ++ rest).dropWhile isBlank = line.dropWhile isBlank ++ rest := by
      rw [List.dropWhile_append, if_neg]
      rwa [List.isEmpty_iff]
    have hmarks' : (quoteMarks 0 ((line ++ rest).dropWhile isBlank)).2 = marker :: (info ++ rest) := by
      rw [hdrop, quoteMarks_append (by rw [hmarks]; exact List.cons_ne_nil _ _), hmarks]
      rfl
    rw [hmarks'] at h
    dsimp only at h ⊢
    split at h
    · cases h
    · next hshort =>
      rw [if_neg]
      intro hlong
      apply hshort
      refine ⟨hlong.1, hlong.2.trans ?_⟩
      rw [← List.cons_append, List.takeWhile_append]
      split
      · next hall =>
        rw [List.length_append, hall]
        exact Nat.le_add_right _ _
      · exact le_rfl

end

/-! ## Cuts -/

def lineBefore (text : List Char) (e : Nat) : List Char := (((text.take e).splitOn '\n').getLast?).getD []

/-- The part of the line around a position that is behind it. -/
def lineAfter (text : List Char) (e : Nat) : List Char := (((text.drop e).splitOn '\n').head?).getD []

def InsideLine (text : List Char) (e : Nat) : Prop := lineBefore text e ≠ [] ∧ lineAfter text e ≠ []

/-- A cut inside a line that is no fence line. -/
def SparesFenceLines (text : List Char) (e : Nat) : Prop :=
  InsideLine text e → fenceLine? (lineBefore text e ++ lineAfter text e) = none

/-- A cut inside a line that leaves nothing that is read as a fence line. -/
def MakesNoFenceLine (text : List Char) (e : Nat) : Prop :=
  InsideLine text e → fenceLine? (lineBefore text e ++ lineAfter text e) = none →
    fenceLine? (lineAfter text e) = none

/-- No block reaches from before a position to behind it. -/
def Uncrossed (text : List Char) (e : Nat) : Prop := ∀ block ∈ fencedBlocks text, block.2 ≤ e ∨ e ≤ block.1

/-- A position in the line `here ++ there` from which lines are scanned as in the whole text. -/
structure GoodCut (text : List Char) (e : Nat) (before : List (List Char)) (here there : List Char)
    (after : List (List Char)) : Prop where
  lines : text.splitOn '\n' = before ++ (here ++ there) :: after
  behind : (text.drop e).splitOn '\n' = there :: after
  position : e = width before + here.length
  state : here = [] ∧ openAfter 0 none before = none ∨
    fenceLine? there = none ∧ openAfter 0 none (before ++ [here ++ there]) = none ∧
      (here ≠ [] → there ≠ [] → fenceLine? (here ++ there) = none)

section

variable {text here there line : List Char} {e f : Nat} {before after lines : List (List Char)}

theorem fenceAfter_of_none {position : Nat} {opener : Option Opener} (h : fenceLine? line = none) :
    fenceAfter position opener line = opener := by
  unfold fenceAfter
  rw [h]

theorem fenceLine?_of_fenceAfter {position : Nat} (h : fenceAfter position none line = none) :
    fenceLine? line = none := by
  unfold fenceAfter at h
  cases hline : fenceLine? line with
  | none => rfl
  | some fence =>
    rw [hline] at h
    cases h

/-- Lines behind a good cut are scanned as in the whole text. -/
theorem GoodCut.sync (h : GoodCut text e before here there after) (lines : List (List Char)) :
    openAfter e none (there :: lines) = openAfter 0 none (before ++ (here ++ there) :: lines) := by
  rcases h.state with ⟨hhere, hnone⟩ | ⟨hplain, hnone, -⟩
  · have hposition := h.position
    rw [hhere, List.length_nil, Nat.add_zero] at hposition
    rw [openAfter_append, hnone, hhere, List.nil_append, Nat.zero_add, ← hposition]
  · have hsplit : before ++ (here ++ there) :: lines = (before ++ [here ++ there]) ++ lines := by simp
    have hwidth : 0 + width (before ++ [here ++ there]) = e + there.length + 1 := by
      have hposition := h.position
      rw [width_append, width_cons, width_nil, List.length_append]
      omega
    rw [hsplit, openAfter_append, hnone, hwidth, openAfter_cons, fenceAfter_of_none hplain]

/-- No block reaches over lines behind which no fence is open. -/
theorem uncrossed_of_openAfter (hlines : text.splitOn '\n' = before ++ after) (hnone : openAfter 0 none before = none)
    (hlow : width before ≤ e + 1) (hhigh : e ≤ width before) : Uncrossed text e := by
  intro block hblock
  unfold fencedBlocks at hblock
  rw [hlines, blocksOf_append hnone, List.mem_append] at hblock
  rcases hblock with hearly | hlate
  · have hstop := blocksOf_stop (.inl rfl) block hearly
    exact .inl (by omega)
  · have hstart := blocksOf_start (fun o ho => by cases ho) le_rfl block hlate
    exact .inr (by omega)

/-- No block reaches over a line that is no fence line where no fence is open. -/
theorem uncrossed_of_plain (hlines : text.splitOn '\n' = before ++ line :: after)
    (hnone : openAfter 0 none before = none) (hplain : fenceLine? line = none)
    (hlow : width before ≤ e + 1) (hhigh : e ≤ width before + line.length + 1) : Uncrossed text e := by
  intro block hblock
  unfold fencedBlocks at hblock
  rw [hlines, blocksOf_append hnone, List.mem_append, blocksOf, fenceAfter_of_none hplain] at hblock
  rcases hblock with hearly | hlate
  · have hstop := blocksOf_stop (.inl rfl) block hearly
    exact .inl (by omega)
  · rw [List.mem_append] at hlate
    rcases hlate with hclosed | hlate
    · cases hclosed
    · have hstart := blocksOf_start (fun o ho => by cases ho) le_rfl block hlate
      exact .inr (by omega)

/-- The parts of the line around a position. -/
theorem line_at (he : e ≤ text.length) (hlines : text.splitOn '\n' = before ++ (here ++ there) :: after)
    (hbehind : (text.drop e).splitOn '\n' = there :: after) : lineBefore text e = here ∧ lineAfter text e = there := by
  obtain ⟨before', here', there', after', hall, htake, hdrop, -⟩ := splitOn_at text he
  rw [hbehind] at hdrop
  cases hdrop
  rw [hlines] at hall
  have hconcat : (before ++ [here ++ there]) ++ after = (before' ++ [here' ++ there]) ++ after := by simpa using hall
  have hline := List.append_inj_right' (List.append_cancel_right hconcat) rfl
  have hhere : here = here' := List.append_cancel_right (List.cons.inj hline).1
  constructor
  · unfold lineBefore
    rw [htake, hhere]
    simp
  · unfold lineAfter
    rw [hbehind]
    rfl

/-- The lines of a chunk that starts at a good cut. -/
theorem GoodCut.slice_lines (h : GoodCut text e before here there after) (hef : e ≤ f) (hf : f ≤ text.length) :
    ∃ before' here' there' after', there :: after = before' ++ (here' ++ there') :: after' ∧
      (slice text e f).splitOn '\n' = before' ++ [here'] ∧ (text.drop f).splitOn '\n' = there' :: after' ∧
      f = e + width before' + here'.length := by
  have hlength : f - e ≤ (text.drop e).length := by
    rw [List.length_drop]
    omega
  obtain ⟨before', here', there', after', hall, htake, hdrop, hwidth⟩ := splitOn_at (text.drop e) hlength
  rw [h.behind] at hall
  rw [List.drop_drop, Nat.add_sub_cancel' hef] at hdrop
  exact ⟨before', here', there', after', hall, htake, hdrop, by omega⟩

theorem unclosedFenceStart_eq (hlines : (slice text e f).splitOn '\n' = lines) :
    unclosedFenceStart text e f = (openAfter e none lines).map (·.position) := by
  unfold unclosedFenceStart openAfter
  rw [hlines]

/-- A cut that spares fence lines and makes none is good, and no block reaches over it. -/
theorem goodCut_of (he : e ≤ text.length) (hlines : text.splitOn '\n' = before ++ (here ++ there) :: after)
    (hbehind : (text.drop e).splitOn '\n' = there :: after) (hposition : e = width before + here.length)
    (hspares : SparesFenceLines text e) (hmakes : MakesNoFenceLine text e)
    (hstart : here = [] → openAfter 0 none before = none)
    (hend : there = [] → openAfter 0 none (before ++ [here ++ there]) = none)
    (hplain : fenceLine? (here ++ there) = none → openAfter 0 none before = none) :
    Uncrossed text e ∧ GoodCut text e before here there after := by
  rcases line_at he hlines hbehind with ⟨hhere, hthere⟩
  by_cases hfirst : here = []
  · have hnone := hstart hfirst
    have hwidth : e = width before := by
      rw [hposition, hfirst, List.length_nil, Nat.add_zero]
    exact ⟨uncrossed_of_openAfter hlines hnone (by omega) (by omega), hlines, hbehind, hposition, .inl ⟨hfirst, hnone⟩⟩
  by_cases hlast : there = []
  · have hnone := hend hlast
    have hsplit : text.splitOn '\n' = (before ++ [here ++ there]) ++ after := by
      rw [hlines]
      simp
    have hwidth : width (before ++ [here ++ there]) = e + 1 := by
      rw [width_append, width_cons, width_nil, hlast, List.append_nil]
      omega
    refine ⟨uncrossed_of_openAfter hsplit hnone hwidth.le (by omega), hlines, hbehind, hposition, .inr ⟨?_, hnone, ?_⟩⟩
    · rw [hlast]
      rfl
    · intro _ hne
      exact absurd hlast hne
  · have hinside : InsideLine text e := by
      unfold InsideLine
      rw [hhere, hthere]
      exact ⟨hfirst, hlast⟩
    have hline := hspares hinside
    have hrest := hmakes hinside hline
    rw [hhere, hthere] at hline
    rw [hthere] at hrest
    have hnone := hplain hline
    have hlength : e ≤ width before + (here ++ there).length + 1 := by
      rw [List.length_append]
      omega
    refine ⟨uncrossed_of_plain hlines hnone hline (by omega) hlength, hlines, hbehind, hposition,
      .inr ⟨hrest, ?_, fun _ _ => hline⟩⟩
    rw [openAfter_concat, hnone, fenceAfter_of_none hline]

/-- A chunk that starts at a good cut and leaves no fence open ends at a good cut. -/
theorem GoodCut.next (h : GoodCut text e before here there after) (hef : e < f) (hf : f ≤ text.length)
    (hclosed : unclosedFenceStart text e f = none) (hspares : SparesFenceLines text f)
    (hmakes : MakesNoFenceLine text f) :
    Uncrossed text f ∧ ∃ before here there after, GoodCut text f before here there after := by
  obtain ⟨before', here', there', after', hall, hslice, hdrop, hposition⟩ := h.slice_lines hef.le hf
  rw [unclosedFenceStart_eq hslice, Option.map_eq_none_iff] at hclosed
  have he := h.position
  cases before' with
  | nil =>
    -- the cut is in the line in which the chunk starts
    injection hall with hthere hafter
    subst hthere hafter
    have hlines : text.splitOn '\n' = before ++ ((here ++ here') ++ there') :: after := by
      rw [h.lines, List.append_assoc]
    rw [width_nil] at hposition
    have hwidth : f = width before + (here ++ here').length := by
      rw [List.length_append]
      omega
    have hstart : here ++ here' = [] → openAfter 0 none before = none := by
      intro hnil
      rw [hnil, List.length_nil] at hwidth
      omega
    have hend : there' = [] → openAfter 0 none (before ++ [here ++ here' ++ there']) = none := by
      intro hnil
      have hsync := h.sync []
      rw [hnil, List.append_nil] at hsync
      rw [hnil, List.append_nil, ← hsync]
      exact hclosed
    have hplain : fenceLine? (here ++ here' ++ there') = none → openAfter 0 none before = none := by
      intro hline
      rcases h.state with ⟨-, hnone⟩ | ⟨-, hnone, -⟩
      · exact hnone
      · rwa [openAfter_concat, ← List.append_assoc, fenceAfter_of_none hline] at hnone
    rcases goodCut_of hf hlines hdrop hwidth hspares hmakes hstart hend hplain with ⟨huncrossed, hgood⟩
    exact ⟨huncrossed, _, _, _, _, hgood⟩
  | cons line before' =>
    injection hall with hthere hafter
    subst hthere hafter
    have hlines : text.splitOn '\n' = (before ++ (here ++ there) :: before') ++ (here' ++ there') :: after' := by
      rw [h.lines]
      simp
    have hwidth : f = width (before ++ (here ++ there) :: before') + here'.length := by
      rw [width_append, width_cons, List.length_append]
      rw [width_cons] at hposition
      omega
    rw [List.cons_append, h.sync] at hclosed
    have hsplit : before ++ (here ++ there) :: (before' ++ [here']) =
        (before ++ (here ++ there) :: before') ++ [here'] := by simp
    rw [hsplit] at hclosed
    have hlast := hclosed
    rw [openAfter_concat] at hlast
    have hstart : here' = [] → openAfter 0 none (before ++ (here ++ there) :: before') = none := by
      rintro rfl
      exact hlast
    have hend : there' = [] →
        openAfter 0 none ((before ++ (here ++ there) :: before') ++ [here' ++ there']) = none := by
      rintro rfl
      rw [List.append_nil]
      exact hclosed
    have hplain : fenceLine? (here' ++ there') = none →
        openAfter 0 none (before ++ (here ++ there) :: before') = none := by
      intro hline
      rwa [fenceAfter_of_none (fenceLine?_append hline)] at hlast
    rcases goodCut_of hf hlines hdrop hwidth hspares hmakes hstart hend hplain with ⟨huncrossed, hgood⟩
    exact ⟨huncrossed, _, _, _, _, hgood⟩

/-- An open fence was opened by one of the lines, before which none was open. -/
theorem openAfter_eq_some {position : Nat} {o : Opener} (h : openAfter position none lines = some o) :
    ∃ before line after, lines = before ++ line :: after ∧ openAfter position none before = none ∧
      o.position = position + width before := by
  induction lines using List.reverseRecOn with
  | nil => cases h
  | append_singleton lines line ih =>
    rw [openAfter_concat] at h
    rcases fenceAfter_position o h with hopen | ⟨hnone, hposition⟩
    · obtain ⟨before, line', after, rfl, hnone, hposition⟩ := ih hopen
      exact ⟨before, line', after ++ [line], by simp, hnone, hposition⟩
    · exact ⟨lines, line, [], rfl, hnone, hposition⟩

/-- A chunk that is cut where its open fence starts ends at a good cut. -/
theorem GoodCut.moved (h : GoodCut text e before here there after) (hef : e < f) (hf : f ≤ text.length) {p : Nat}
    (hopen : unclosedFenceStart text e f = some p) (hp : p ≠ e) :
    Uncrossed text p ∧ ∃ before here there after, GoodCut text p before here there after := by
  obtain ⟨before', here', there', after', hall, hslice, -, -⟩ := h.slice_lines hef.le hf
  rw [unclosedFenceStart_eq hslice] at hopen
  obtain ⟨o, ho, rfl⟩ := Option.map_eq_some_iff.mp hopen
  obtain ⟨earlier, line, later, hlines, hnone, hposition⟩ := openAfter_eq_some ho
  -- the fence does not start in the line in which the chunk starts
  obtain ⟨first, earlier, rfl⟩ : ∃ first rest, earlier = first :: rest := by
    cases earlier with
    | nil => exact absurd hposition hp
    | cons first rest => exact ⟨first, rest, rfl⟩
  obtain ⟨fenceLine, lines', hafter, hfirst⟩ : ∃ fenceLine lines', after = earlier ++ fenceLine :: lines' ∧
      first = there := by
    cases before' with
    | nil =>
      have hnil : [] = earlier ++ line :: later := (List.cons.inj hlines).2
      simp at hnil
    | cons line' before' =>
      have hthere : there = line' := (List.cons.inj hall).1
      have hrest : after = before' ++ (here' ++ there') :: after' := (List.cons.inj hall).2
      have hfirst : line' = first := (List.cons.inj hlines).1
      have hlater : before' ++ [here'] = earlier ++ line :: later := (List.cons.inj hlines).2
      rcases List.eq_nil_or_concat later with rfl | ⟨later, last, rfl⟩
      · have hbefore : before' = earlier := List.append_inj_left' hlater rfl
        refine ⟨here' ++ there', after', ?_, (hthere.trans hfirst).symm⟩
        rw [hrest, hbefore]
      · have hconcat : before' ++ [here'] = (earlier ++ line :: later) ++ [last] := by
          rw [hlater]
          simp
        have hbefore : before' = earlier ++ line :: later := List.append_inj_left' hconcat rfl
        refine ⟨line, later ++ (here' ++ there') :: after', ?_, (hthere.trans hfirst).symm⟩
        rw [hrest, hbefore]
        simp
  subst hfirst
  have hstart : text.splitOn '\n' = (before ++ (here ++ first) :: earlier) ++ ([] ++ fenceLine) :: lines' := by
    rw [h.lines, hafter]
    simp
  have hwidth : o.position = width (before ++ (here ++ first) :: earlier) := by
    have he := h.position
    rw [width_cons] at hposition
    rw [width_append, width_cons, List.length_append]
    omega
  rw [h.sync] at hnone
  have hbehind := splitOn_drop_width hstart (List.cons_ne_nil _ _)
  rw [← hwidth] at hbehind
  exact ⟨uncrossed_of_openAfter hstart hnone (by omega) hwidth.le, _, _, _, _, hstart, hbehind,
    hwidth, .inl ⟨rfl, hnone⟩⟩

theorem goodCut_zero (text : List Char) : ∃ before here there after, GoodCut text 0 before here there after := by
  obtain ⟨line, lines, hlines⟩ := List.exists_cons_of_ne_nil (List.splitOn_ne_nil '\n' text)
  exact ⟨[], [], line, lines, hlines, hlines, rfl, .inl ⟨rfl, rfl⟩⟩

/-- A fence line that is not spared belongs to a block that reaches over the cut. -/
theorem crossed_of_line (hlines : text.splitOn '\n' = before ++ (here ++ there) :: after)
    (hposition : e = width before + here.length) (hhere : here ≠ []) (hthere : there ≠ []) {o : Opener}
    (h : openAfter 0 none before = some o ∨
      openAfter 0 none before = none ∧ fenceAfter (0 + width before) none (here ++ there) = some o)
    (ho : o.position ≤ width before) : ∃ block ∈ fencedBlocks text, block.1 < e ∧ e < block.2 := by
  obtain ⟨stop, hstop, hmem⟩ := @blocksOf_line (0 + width before) _ (here ++ there) after o h
  have hfirst := List.length_pos_of_ne_nil hhere
  have hlast := List.length_pos_of_ne_nil hthere
  rw [List.length_append] at hstop
  refine ⟨(o.position, stop), ?_, ?_, ?_⟩
  · unfold fencedBlocks
    rw [hlines]
    exact blocksOf_suffix _ hmem
  · dsimp only
    omega
  · dsimp only
    omega

theorem openAfter_position {o : Opener} (h : openAfter 0 none before = some o) : o.position ≤ width before := by
  obtain ⟨earlier, line, later, rfl, -, hposition⟩ := openAfter_eq_some h
  rw [width_append]
  omega

/-- A chunk that leaves no fence open and ends inside a fence line cuts a block. -/
theorem GoodCut.crossed (h : GoodCut text e before here there after) (hef : e < f) (hf : f ≤ text.length)
    (hclosed : unclosedFenceStart text e f = none) (hspares : ¬ SparesFenceLines text f) :
    ∃ block ∈ fencedBlocks text, block.1 < f ∧ f < block.2 := by
  obtain ⟨before', here', there', after', hall, hslice, hdrop, hposition⟩ := h.slice_lines hef.le hf
  rw [unclosedFenceStart_eq hslice, Option.map_eq_none_iff] at hclosed
  unfold SparesFenceLines at hspares
  rw [Classical.not_imp] at hspares
  obtain ⟨⟨hbefore, hafter⟩, hline⟩ := hspares
  have he := h.position
  cases before' with
  | nil =>
    injection hall with hthere hafter'
    subst hthere hafter'
    have hlines : text.splitOn '\n' = before ++ ((here ++ here') ++ there') :: after := by
      rw [h.lines, List.append_assoc]
    rcases line_at hf hlines hdrop with ⟨hfirst, hlast⟩
    rw [hfirst] at hbefore hline
    rw [hlast] at hafter hline
    rw [width_nil] at hposition
    have hwidth : f = width before + (here ++ here').length := by
      rw [List.length_append]
      omega
    have hnone : openAfter 0 none before = none := by
      rcases h.state with ⟨-, hnone⟩ | ⟨hplain, -, hwhole⟩
      · exact hnone
      · by_cases hhere : here = []
        · rw [hhere, List.nil_append] at hline
          exact absurd hplain hline
        · rw [← List.append_assoc] at hwhole
          exact absurd (hwhole hhere (by simp [hafter])) hline
    cases hopens : fenceAfter (0 + width before) none ((here ++ here') ++ there') with
    | none => exact absurd (fenceLine?_of_fenceAfter hopens) hline
    | some o =>
      rcases fenceAfter_position o hopens with hnot | ⟨-, ho⟩
      · cases hnot
      · exact crossed_of_line hlines hwidth hbefore hafter (.inr ⟨hnone, hopens⟩) (by omega)
  | cons line before' =>
    injection hall with hthere hafter'
    subst hthere hafter'
    have hlines : text.splitOn '\n' = (before ++ (here ++ there) :: before') ++ (here' ++ there') :: after' := by
      rw [h.lines]
      simp
    rcases line_at hf hlines hdrop with ⟨hfirst, hlast⟩
    rw [hfirst] at hbefore hline
    rw [hlast] at hafter hline
    have hwidth : f = width (before ++ (here ++ there) :: before') + here'.length := by
      rw [width_append, width_cons, List.length_append]
      rw [width_cons] at hposition
      omega
    cases hopen : openAfter 0 none (before ++ (here ++ there) :: before') with
    | some o => exact crossed_of_line hlines hwidth hbefore hafter (.inl hopen) (openAfter_position hopen)
    | none =>
      cases hopens : fenceAfter (0 + width (before ++ (here ++ there) :: before')) none (here' ++ there') with
      | none => exact absurd (fenceLine?_of_fenceAfter hopens) hline
      | some o =>
        rcases fenceAfter_position o hopens with hnot | ⟨-, ho⟩
        · cases hnot
        · exact crossed_of_line hlines hwidth hbefore hafter (.inr ⟨hopen, hopens⟩) (by omega)

end

/-! ## Runs -/

def Inside (chunks : List (List Char)) (block : Nat × Nat) : Prop :=
  ∃ earlier chunk later, chunks = earlier ++ chunk :: later ∧ earlier.flatten.length ≤ block.1 ∧
    block.2 ≤ (earlier ++ [chunk]).flatten.length

/-- Every fenced code block of the text lies inside one of the chunks. -/
def FencesWhole (text : List Char) (chunks : List (List Char)) : Prop :=
  ∀ block ∈ fencedBlocks text, Inside chunks block

theorem Inside.append {chunks : List (List Char)} {block : Nat × Nat} (h : Inside chunks block)
    (later : List (List Char)) : Inside (chunks ++ later) block := by
  obtain ⟨earlier, chunk, rest, rfl, hstart, hstop⟩ := h
  exact ⟨earlier, chunk, rest ++ later, by simp, hstart, hstop⟩

/-- A block that reaches over the end of a chunk is inside none. -/
theorem not_inside {chunks : List (List Char)} {block : Nat × Nat} {done : List (List Char)} (hdone : done <+: chunks)
    (hstart : block.1 < done.flatten.length) (hstop : done.flatten.length < block.2) : ¬ Inside chunks block := by
  rintro ⟨earlier, chunk, later, rfl, hfirst, hlast⟩
  rcases List.prefix_or_prefix_of_prefix hdone (List.prefix_append earlier (chunk :: later)) with hshort | hlong
  · obtain ⟨rest, rfl⟩ := hshort
    rw [List.flatten_append, List.length_append] at hfirst
    omega
  · obtain ⟨rest, rfl⟩ := hlong
    cases rest with
    | nil =>
      rw [List.append_nil] at hstart
      omega
    | cons chunk' rest =>
      obtain ⟨after, hafter⟩ := hdone
      rw [List.append_assoc, List.append_cancel_left_eq] at hafter
      injection hafter with hchunk
      subst hchunk
      rw [List.append_cons, List.flatten_append, List.length_append] at hstop
      omega

section

variable {γ : Type*} (calculateEventSize : γ → Int) (text : List Char) (fuel : Nat)
  (firstBuild continuationBuild : List Char → γ) (firstTarget continuationTarget : Int)

/-- A state that splitting goes through. -/
def Reached (s : Splitting) : Prop :=
  Relation.ReflTransGen (WhileLoop.Steps
    (splitRound calculateEventSize text fuel firstBuild continuationBuild firstTarget continuationTarget)) {} s

/-- Splitting cuts its chunks, where they leave no fence open, only at positions with a property. -/
def CutsWhere (P : Nat → Prop) : Prop :=
  ∀ s, Reached calculateEventSize text fuel firstBuild continuationBuild firstTarget continuationTarget s →
    s.offset < text.length → ∀ stop,
    fittingEndAt calculateEventSize text fuel firstBuild continuationBuild firstTarget continuationTarget s.offset =
      some (some stop) →
    unclosedFenceStart text s.offset (cut text s.offset stop) = none → P (cut text s.offset stop)

variable {calculateEventSize text fuel firstBuild continuationBuild firstTarget continuationTarget}

/-- What holds of a state when no cut so far went wrong. -/
structure Splitting.Whole (text : List Char) (s : Splitting) : Prop extends s.Inv text where
  good : ∃ before here there after, GoodCut text s.offset before here there after
  uncrossed : Uncrossed text s.offset
  inside : ∀ block ∈ fencedBlocks text, block.2 ≤ s.offset → Inside s.chunks block

theorem GoodCut.le {e : Nat} {before after : List (List Char)} {here there : List Char}
    (h : GoodCut text e before here there after) : e ≤ text.length := by
  have hposition := h.position
  have hwidth := width_splitOn text
  rw [h.lines, width_append, width_cons, List.length_append] at hwidth
  omega

theorem Splitting.Whole.length {s : Splitting} (h : s.Whole text) : s.chunks.flatten.length = s.offset := by
  obtain ⟨before, here, there, after, hgood⟩ := h.good
  rw [h.flatten, List.length_take, Nat.min_eq_left hgood.le]

theorem whole_start : Splitting.Whole text {} where
  flatten := rfl
  nonempty chunk hmem := by cases hmem
  good := goodCut_zero text
  uncrossed block _ := .inr (Nat.zero_le _)
  inside block hblock hstop := by
    have hnonempty := blocksOf_nonempty (fun o ho => by cases ho) block hblock
    exact absurd (Nat.lt_of_lt_of_le hnonempty hstop) (Nat.not_lt_zero _)

/-- A chunk that ends at a good cut, over which no block reaches, keeps blocks whole. -/
theorem Splitting.Whole.step {s s' : Splitting} (h : s.Whole text) (hs' : s'.Inv text)
    (hchunks : s'.chunks = s.chunks ++ [slice text s.offset s'.offset])
    (hcut : Uncrossed text s'.offset ∧ ∃ before here there after, GoodCut text s'.offset before here there after) :
    s'.Whole text := by
  obtain ⟨huncrossed, before, here, there, after, hgood⟩ := hcut
  refine ⟨hs', ⟨before, here, there, after, hgood⟩, huncrossed, ?_⟩
  intro block hblock hstop
  rcases h.uncrossed block hblock with hbefore | hbehind
  · rw [hchunks]
    exact (h.inside block hblock hbefore).append _
  · refine ⟨s.chunks, slice text s.offset s'.offset, [], hchunks, ?_, ?_⟩
    · rw [h.length]
      exact hbehind
    · rw [← hchunks, hs'.flatten, List.length_take, Nat.min_eq_left hgood.le]
      exact hstop

/-- A round of splitting keeps blocks whole, or it cuts one because it does not spare a fence line. -/
theorem Splitting.Whole.round {s s' : Splitting} (h : s.Whole text)
    (hround : splitRound calculateEventSize text fuel firstBuild continuationBuild firstTarget continuationTarget s =
      some (.again s'))
    (hmakes : ∀ stop, fittingEndAt calculateEventSize text fuel firstBuild continuationBuild firstTarget
        continuationTarget s.offset = some (some stop) →
      unclosedFenceStart text s.offset (cut text s.offset stop) = none →
      MakesNoFenceLine text (cut text s.offset stop)) :
    s'.Whole text ∨ ∃ stop, fittingEndAt calculateEventSize text fuel firstBuild continuationBuild firstTarget
        continuationTarget s.offset = some (some stop) ∧
      unclosedFenceStart text s.offset (cut text s.offset stop) = none ∧
      ¬ SparesFenceLines text (cut text s.offset stop) ∧ s'.offset = cut text s.offset stop ∧
      ∃ block ∈ fencedBlocks text, block.1 < s'.offset ∧ s'.offset < block.2 := by
  have hs' := h.toInv.again hround
  obtain ⟨stop, hoffset, hfitting, hlater, hchunks, hnext⟩ := splitRound_again hround
  obtain ⟨before, here, there, after, hgood⟩ := h.good
  have hbounds := fittingEndAt_spec hoffset hfitting
  have hcut := @cut_spec text s.offset stop hbounds.1
  have hlength := hcut.2.trans hbounds.2
  cases hfence : unclosedFenceStart text s.offset (cut text s.offset stop) with
  | some p =>
    rw [hfence, Option.getD_some] at hnext
    subst hnext
    exact .inl (h.step hs' hchunks (hgood.moved hcut.1 hlength hfence hlater.ne'))
  | none =>
    rw [hfence, Option.getD_none] at hnext
    by_cases hspares : SparesFenceLines text (cut text s.offset stop)
    · have hgood' := hgood.next hcut.1 hlength hfence hspares (hmakes stop hfitting hfence)
      rw [← hnext] at hgood'
      exact .inl (h.step hs' hchunks hgood')
    · have hcrossed := hgood.crossed hcut.1 hlength hfence hspares
      rw [← hnext] at hcrossed
      exact .inr ⟨stop, hfitting, hfence, hspares, hnext, hcrossed⟩

/-- A chunk ends where a block goes on. -/
def Crossed (text : List Char) (s : Splitting) : Prop :=
  s.Inv text ∧ ∃ block ∈ fencedBlocks text, block.1 < s.offset ∧ s.offset < block.2

/-- Splitting keeps blocks whole until it does not spare a fence line; then it has cut a block. -/
theorem whole_or_crossed {s : Splitting}
    (hmakes : CutsWhere calculateEventSize text fuel firstBuild continuationBuild firstTarget continuationTarget
      (MakesNoFenceLine text))
    (h : Reached calculateEventSize text fuel firstBuild continuationBuild firstTarget continuationTarget s) :
    s.Whole text ∨ ¬ CutsWhere calculateEventSize text fuel firstBuild continuationBuild firstTarget
        continuationTarget (SparesFenceLines text) ∧
      ∃ s', Reached calculateEventSize text fuel firstBuild continuationBuild firstTarget continuationTarget s' ∧
        Crossed text s' := by
  induction h with
  | refl => exact .inl whole_start
  | @tail s s' hs hround ih =>
    rcases ih with hwhole | hcrossed
    · obtain ⟨_, hoffset, -⟩ := splitRound_again hround
      have hs' := hwhole.toInv.again hround
      rcases hwhole.round hround (fun stop => hmakes s hs hoffset stop) with hwhole' | ⟨stop, hcut⟩
      · exact .inl hwhole'
      · obtain ⟨hfitting, hfence, hspares, -, hblock⟩ := hcut
        exact .inr ⟨fun hall => hspares (hall s hs hoffset stop hfitting hfence), s', hs.tail hround, hs', hblock⟩
    · exact .inr hcrossed

theorem stop_le_length : ∀ block ∈ fencedBlocks text, block.2 ≤ text.length := by
  intro block hblock
  have hstop := blocksOf_stop (.inl rfl) block hblock
  rw [width_splitOn] at hstop
  omega

theorem splitRound_of_closed {s : Splitting} {stop : Nat} (hoffset : s.offset < text.length)
    (hfitting : fittingEndAt calculateEventSize text fuel firstBuild continuationBuild firstTarget continuationTarget
      s.offset = some (some stop))
    (hfence : unclosedFenceStart text s.offset (cut text s.offset stop) = none) :
    splitRound calculateEventSize text fuel firstBuild continuationBuild firstTarget continuationTarget s =
      some (.again { chunks := s.chunks ++ [slice text s.offset (cut text s.offset stop)]
                     offset := cut text s.offset stop }) := by
  unfold splitRound
  rw [if_pos hoffset, hfitting]
  dsimp only
  rw [hfence]

section

variable {chunks : List (List Char)}
  (h : splitBody calculateEventSize text fuel firstBuild continuationBuild firstTarget continuationTarget =
    some (some chunks))

include h

/-- The chunks of a reached state are the first ones of the result. -/
theorem prefix_of_reached {s : Splitting}
    (hs : Reached calculateEventSize text fuel firstBuild continuationBuild firstTarget continuationTarget s) :
    s.chunks <+: chunks := by
  obtain ⟨fuel', hrun⟩ := WhileLoop.run_of_reached hs h
  refine WhileLoop.run_rule (fun s' => s.chunks <+: s'.chunks) (fun r => ∀ chunks ∈ r, s.chunks <+: chunks)
    ?_ ?_ (List.prefix_refl s.chunks) hrun chunks rfl
  · intro s₁ s₂ hprefix hround
    obtain ⟨_, -, -, -, hchunks, -⟩ := splitRound_again hround
    rw [hchunks]
    exact hprefix.trans (List.prefix_append _ _)
  · intro s₁ r hprefix hround chunks hmem
    rcases splitRound_leave hround with rfl | ⟨-, rfl⟩
    · cases hmem
    · cases hmem
      exact hprefix

theorem not_fencesWhole {s : Splitting}
    (hs : Reached calculateEventSize text fuel firstBuild continuationBuild firstTarget continuationTarget s)
    (hcrossed : Crossed text s) : ¬ FencesWhole text chunks := by
  obtain ⟨hinv, block, hblock, hstart, hstop⟩ := hcrossed
  have hend := stop_le_length block hblock
  have hlength : s.chunks.flatten.length = s.offset := by
    rw [hinv.flatten, List.length_take]
    omega
  intro hwhole
  rw [← hlength] at hstart hstop
  exact not_inside (prefix_of_reached h hs) hstart hstop (hwhole block hblock)

/-- Where every reached state keeps blocks whole, so does the result. -/
theorem fencesWhole_of_reached
    (hwhole : ∀ s, Reached calculateEventSize text fuel firstBuild continuationBuild firstTarget continuationTarget s →
      s.Whole text) : FencesWhole text chunks := by
  refine WhileLoop.run_rule
    (Reached calculateEventSize text fuel firstBuild continuationBuild firstTarget continuationTarget)
    (fun r => ∀ chunks ∈ r, FencesWhole text chunks) ?_ ?_ Relation.ReflTransGen.refl h chunks rfl
  · intro s s' hs hround
    exact hs.tail hround
  · intro s r hs hround chunks hmem
    rcases splitRound_leave hround with rfl | ⟨hoffset, rfl⟩
    · cases hmem
    · cases hmem
      intro block hblock
      exact (hwhole s hs).inside block hblock ((stop_le_length block hblock).trans hoffset)

end

end

/-! ### Two texts -/

theorem makesNoFenceLine_of_length_le {text : List Char} {e : Nat} (h : text.length ≤ e) : MakesNoFenceLine text e := by
  rintro ⟨-, hafter⟩
  unfold lineAfter at hafter
  rw [List.drop_eq_nil_of_le h] at hafter
  exact absurd rfl hafter

instance (text : List Char) (e : Nat) : Decidable (InsideLine text e) :=
  inferInstanceAs (Decidable (_ ∧ _))

instance (text : List Char) (e : Nat) : Decidable (MakesNoFenceLine text e) :=
  inferInstanceAs (Decidable (_ → _ → _))

def blockText : List Char := "```\na\n```\nbcdef".toList

def longClosing : List Char := "```\n`````````".toList

end MindRoom.SegmentedMessages
