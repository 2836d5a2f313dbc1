import MindRoom.Binary64
import MindRoom.Spans
import MindRoom.WhileLoop

/-! # Chunking of knowledge text

`SafeFixedSizeChunking` of `chunking.py`: a text is cut at the last whitespace before the size limit, or at
the limit where that would make the chunk too short, and the next chunk starts a fixed overlap before the
end of the last one. The shortest chunk is a floating-point product of the size and the fill ratio.
-/

namespace MindRoom

/-- `SafeFixedSizeChunking`, with what its constructors check. -/
structure SafeFixedSizeChunking where
  chunkSize : Nat
  overlap : Nat
  minChunkFillRatio : ℚ
  overlap_lt : overlap < chunkSize
  ratio_pos : 0 < minChunkFillRatio
  ratio_le : minChunkFillRatio ≤ 1

namespace SafeFixedSizeChunking

/-- The product of an integer with a floating-point number is an error where the integer is too large. -/
inductive ChunkingError where
  | overflowError
deriving DecidableEq

def float (n : Nat) : Except ChunkingError ℚ :=
  if Binary64.nearest n < 2 ^ 1024 then .ok (Binary64.nearest n) else .error .overflowError

def minChunkSize (c : SafeFixedSizeChunking) : Except ChunkingError Nat := do
  let size ← float c.chunkSize
  return max 1 ⌊Binary64.nearest (size * c.minChunkFillRatio)⌋.toNat

def minChunkStep (c : SafeFixedSizeChunking) : Except ChunkingError Nat := do
  let m ← c.minChunkSize
  return max 1 (m - c.overlap)

def maxChunkTextBytes (c : SafeFixedSizeChunking) (sourceBytes : Nat) : Except ChunkingError Nat :=
  if sourceBytes = 0 then .ok 0
  else if c.overlap = 0 then .ok sourceBytes
  else do
    let step ← c.minChunkStep
    let maxChunks := (sourceBytes - 1) / step + 1
    let byRepeats := sourceBytes + maxChunks * c.overlap * 4
    let byCoverage := ((c.chunkSize - 1) / step + 1) * sourceBytes
    return min byRepeats byCoverage

/-- `content[end] in [" ", "\n", "\r", "\t"]`. -/
def isBlank (ch : Char) : Bool := ch = ' ' || ch = '\n' || ch = '\r' || ch = '\t'

/-- The inner loop: back to the last blank before the boundary, no further than the start. -/
def moveBack (content : List Char) (start : Nat) : Nat → Nat
  | 0 => 0
  | stop + 1 =>
    if start < stop + 1 ∧ ¬ (content[stop + 1]?.any isBlank) then moveBack content start stop else stop + 1

def chunkEnd (c : SafeFixedSizeChunking) (m : Nat) (content : List Char) (start : Nat) : Nat :=
  let rawEnd := min (start + c.chunkSize) content.length
  if rawEnd < content.length then
    let stop := moveBack content start rawEnd
    if stop = start ∨ stop - start < m then rawEnd else stop
  else rawEnd

def nextStart (c : SafeFixedSizeChunking) (start stop : Nat) : Nat :=
  if stop - c.overlap ≤ start then stop else stop - c.overlap

/-- `content[start:end]`. -/
def slice (content : List Char) (a : Spans.Span) : List Char := (content.drop a.start).take (a.stop - a.start)

/-- One emitted document: its number and its text. -/
structure Chunk where
  number : Nat
  text : List Char
deriving DecidableEq

/-- The locals of the loop. -/
structure Cutting where
  start : Nat
  chunkNumber : Nat
  chunks : List Chunk

/-- One round of the loop. -/
def cut (c : SafeFixedSizeChunking) (m : Nat) (content : List Char) (s : Cutting) :
    Option (WhileLoop.Round Cutting (List Chunk)) :=
  if s.start < content.length then
    let stop := c.chunkEnd m content s.start
    let chunks := s.chunks ++ [⟨s.chunkNumber, slice content ⟨s.start, stop⟩⟩]
    if content.length ≤ stop then some (.leave chunks)
    else some (.again ⟨c.nextStart s.start stop, s.chunkNumber + 1, chunks⟩)
  else some (.leave s.chunks)

/-- `chunk`, for content that is cleaned. -/
def chunk (c : SafeFixedSizeChunking) (content : List Char) (fuel : Nat) :
    Except ChunkingError (Option (List Chunk)) := do
  let m ← c.minChunkSize
  return WhileLoop.run (c.cut m content) fuel ⟨0, 1, []⟩

/-- `len(text.encode("utf-8"))`. -/
def utf8Bytes (text : List Char) : Nat := (text.map Char.utf8Size).sum

/-! ## One chunk -/

section

variable {c : SafeFixedSizeChunking} {m start stop : Nat} {content : List Char}

theorem moveBack_bounds (content : List Char) (h : start ≤ stop) :
    start ≤ moveBack content start stop ∧ moveBack content start stop ≤ stop := by
  induction stop with
  | zero => exact ⟨h, le_rfl⟩
  | succ stop ih =>
    unfold moveBack
    split
    · next hback =>
      have hstop := ih (Nat.lt_succ_iff.mp hback.1)
      exact ⟨hstop.1, hstop.2.trans (Nat.le_succ stop)⟩
    · exact ⟨h, le_rfl⟩

/-- A chunk is not empty and not too long. -/
theorem chunkEnd_bounds (h : start < content.length) :
    start < c.chunkEnd m content start ∧ c.chunkEnd m content start ≤ start + c.chunkSize ∧
      c.chunkEnd m content start ≤ content.length := by
  have hsize := c.overlap_lt
  have hback := moveBack_bounds content
    (show start ≤ min (start + c.chunkSize) content.length by omega)
  unfold chunkEnd
  dsimp only
  split
  · split <;> omega
  · omega

/-- A chunk before the last one is long enough. -/
theorem le_chunkEnd (hm : m ≤ c.chunkSize) (h : c.chunkEnd m content start < content.length) :
    start + m ≤ c.chunkEnd m content start := by
  unfold chunkEnd at h ⊢
  dsimp only at h ⊢
  split at h
  · next hraw =>
    rw [if_pos hraw]
    split at h
    · next hshort =>
      rw [if_pos hshort]
      omega
    · next hlong =>
      have hback := moveBack_bounds content
        (show start ≤ min (start + c.chunkSize) content.length by omega)
      rw [if_neg hlong]
      omega
  · omega

/-- The next chunk starts later, and no further back than the overlap. -/
theorem nextStart_bounds (h : start < stop) :
    start < c.nextStart start stop ∧ c.nextStart start stop ≤ stop ∧ stop ≤ c.nextStart start stop + c.overlap := by
  unfold nextStart
  split <;> omega

theorem le_nextStart (hm : start + m ≤ stop) (h : start < stop) :
    start + max 1 (m - c.overlap) ≤ c.nextStart start stop := by
  unfold nextStart
  split <;> omega

end

/-! ## Bytes -/

section

variable {content : List Char} {start stop : Nat}

def bytesAt (content : List Char) (p : Nat) : Nat := (content[p]?).elim 0 Char.utf8Size

theorem bytesAt_le (content : List Char) (p : Nat) : bytesAt content p ≤ 4 := by
  unfold bytesAt
  cases content[p]? with
  | none => exact Nat.zero_le 4
  | some ch => exact Char.utf8Size_le_four ch

theorem utf8Bytes_append (text rest : List Char) : utf8Bytes (text ++ rest) = utf8Bytes text + utf8Bytes rest := by
  unfold utf8Bytes
  rw [List.map_append, List.sum_append]

theorem slice_succ (h : start ≤ stop) :
    slice content ⟨start, stop + 1⟩ = slice content ⟨start, stop⟩ ++ (content[stop]?).toList := by
  unfold slice
  dsimp only
  rw [Nat.succ_sub h, List.take_add_one, List.getElem?_drop, Nat.add_sub_cancel' h]

/-- The bytes of a slice are those of its positions. -/
theorem utf8Bytes_slice (content : List Char) (h : start ≤ stop) :
    utf8Bytes (slice content ⟨start, stop⟩) = Spans.weight (bytesAt content) ⟨start, stop⟩ := by
  induction stop, h using Nat.le_induction with
  | base => simp [slice, utf8Bytes, Spans.weight]
  | succ stop h ih =>
    have hone : utf8Bytes (content[stop]?).toList = bytesAt content stop := by
      unfold bytesAt utf8Bytes
      cases content[stop]? <;> simp
    unfold Spans.weight at ih ⊢
    rw [slice_succ h, utf8Bytes_append, ih, hone, Finset.sum_Ico_succ_top h]

theorem utf8Bytes_eq (content : List Char) :
    utf8Bytes content = ∑ p ∈ Finset.range content.length, bytesAt content p := by
  have hwhole := utf8Bytes_slice content (Nat.zero_le content.length)
  unfold slice Spans.weight at hwhole
  dsimp only at hwhole
  rw [List.drop_zero, Nat.sub_zero, List.take_length] at hwhole
  rw [hwhole, Finset.range_eq_Ico]

/-- A character has at least one byte. -/
theorem length_le_utf8Bytes (content : List Char) : content.length ≤ utf8Bytes content := by
  induction content with
  | nil => exact le_rfl
  | cons ch content ih =>
    unfold utf8Bytes at ih ⊢
    have hpos := Char.utf8Size_pos ch
    rw [List.map_cons, List.sum_cons, List.length_cons]
    omega

end

/-! ## The whole text -/

section

variable {c : SafeFixedSizeChunking} {m : Nat} {content : List Char} {s : Cutting}

def emitted (content : List Char) (spans : List Spans.Span) : List Chunk :=
  (spans.zipIdx 1).map fun a => ⟨a.2, slice content a.1⟩

theorem emitted_snoc (spans : List Spans.Span) (a : Spans.Span) :
    emitted content (spans ++ [a]) = emitted content spans ++ [⟨spans.length + 1, slice content a⟩] := by
  unfold emitted
  rw [List.zipIdx_append, List.map_append, Nat.add_comm 1]
  rfl

theorem texts_emitted (spans : List Spans.Span) :
    (emitted content spans).map (·.text) = spans.map (slice content) := by
  unfold emitted
  rw [List.map_map]
  change (spans.zipIdx 1).map (slice content ∘ Prod.fst) = _
  rw [← List.map_map, List.zipIdx_map_fst]

/-- The least advance of a start. It follows from the shortest chunk only where that is no longer than a
chunk may be. -/
def leastStep (c : SafeFixedSizeChunking) (m : Nat) : Nat := if m ≤ c.chunkSize then max 1 (m - c.overlap) else 1

structure CutSoFar (c : SafeFixedSizeChunking) (m : Nat) (content : List Char) (s : Cutting)
    (spans : List Spans.Span) : Prop where
  walk : Spans.Walk c.chunkSize c.overlap (c.leastStep m) 0 spans s.start
  chunks : s.chunks = emitted content spans
  number : s.chunkNumber = spans.length + 1
  bounded : ∀ a ∈ spans, a.start < a.stop ∧ a.stop ≤ content.length
  open_ : s.start < content.length ∨ (content = [] ∧ spans = [])

/-- The spans of a whole text. -/
structure Cuts (c : SafeFixedSizeChunking) (m : Nat) (content : List Char) (chunks : List Chunk)
    (spans : List Spans.Span) (s : Nat) : Prop where
  walk : Spans.Walk c.chunkSize c.overlap (c.leastStep m) 0 spans s
  chunks : chunks = emitted content (spans ++ [⟨s, content.length⟩])
  bounded : ∀ a ∈ spans ++ [⟨s, content.length⟩], a.start < a.stop ∧ a.stop ≤ content.length
  last : content.length ≤ s + c.chunkSize

theorem leastStep_le_nextStart {start : Nat} (h : start < content.length)
    (hstop : c.chunkEnd m content start < content.length) :
    start + c.leastStep m ≤ c.nextStart start (c.chunkEnd m content start) := by
  have hless := (chunkEnd_bounds (c := c) (m := m) h).1
  unfold leastStep
  split
  · next hm => exact le_nextStart (le_chunkEnd hm hstop) hless
  · exact (nextStart_bounds hless).1

theorem cut_spec {spans : List Spans.Span} (h : CutSoFar c m content s spans) :
    (∃ chunks, c.cut m content s = some (.leave chunks) ∧
        ((content = [] ∧ chunks = []) ∨ ∃ spans s, Cuts c m content chunks spans s)) ∨
      ∃ s', c.cut m content s = some (.again s') ∧ (∃ spans, CutSoFar c m content s' spans) ∧
        content.length - s'.start < content.length - s.start := by
  unfold cut
  by_cases hstart : s.start < content.length
  · rw [if_pos hstart]
    dsimp only
    rcases chunkEnd_bounds (c := c) (m := m) hstart with ⟨hless, hsize, hlen⟩
    have hbounded : ∀ a ∈ spans ++ [⟨s.start, c.chunkEnd m content s.start⟩],
        a.start < a.stop ∧ a.stop ≤ content.length := by
      intro a ha
      rcases List.mem_append.mp ha with ha | ha
      · exact h.bounded a ha
      · rw [List.mem_singleton] at ha
        rw [ha]
        exact ⟨hless, hlen⟩
    have hchunks : s.chunks ++ [⟨s.chunkNumber, slice content ⟨s.start, c.chunkEnd m content s.start⟩⟩] =
        emitted content (spans ++ [⟨s.start, c.chunkEnd m content s.start⟩]) := by
      rw [emitted_snoc, h.chunks, h.number]
    by_cases hend : content.length ≤ c.chunkEnd m content s.start
    · have hwhole : c.chunkEnd m content s.start = content.length := le_antisymm hlen hend
      rw [if_pos hend]
      refine .inl ⟨_, rfl, .inr ⟨spans, s.start, h.walk, ?_, ?_, ?_⟩⟩
      · rw [hchunks, hwhole]
      · rw [← hwhole]
        rw [hwhole] at hbounded ⊢
        exact hbounded
      · omega
    · rw [if_neg hend]
      rcases nextStart_bounds (c := c) hless with ⟨hnext, hjoin, hrepeat⟩
      refine .inr ⟨_, rfl, ⟨_, ?_, hchunks, ?_, hbounded, ?_⟩, ?_⟩
      · exact h.walk.snoc hsize hnext (leastStep_le_nextStart hstart (not_le.mp hend)) hjoin hrepeat
      · rw [h.number, List.length_append, List.length_singleton]
      · exact .inl (by dsimp only; omega)
      · dsimp only
        omega
  · rw [if_neg hstart]
    rcases h.open_ with hopen | ⟨hnil, hspans⟩
    · exact absurd hopen hstart
    · refine .inl ⟨_, rfl, .inl ⟨hnil, ?_⟩⟩
      rw [h.chunks, hspans]
      rfl

/-- The loop ends and has cut the whole text. -/
theorem chunk_spec (hm : c.minChunkSize = .ok m) (content : List Char) (extra : Nat) :
    ∃ chunks, c.chunk content (content.length + 1 + extra) = .ok (some chunks) ∧
      ((content = [] ∧ chunks = []) ∨ ∃ spans s, Cuts c m content chunks spans s) := by
  have hstart : ∃ spans, CutSoFar c m content ⟨0, 1, []⟩ spans := by
    refine ⟨[], .nil 0, rfl, rfl, fun a ha => absurd ha List.not_mem_nil, ?_⟩
    cases content with
    | nil => exact .inr ⟨rfl, rfl⟩
    | cons ch content => exact .inl (Nat.succ_pos _)
  have hrun : ∃ chunks, WhileLoop.run (c.cut m content) (content.length + 1 + extra) ⟨0, 1, []⟩ = some chunks ∧
      ((content = [] ∧ chunks = []) ∨ ∃ spans s, Cuts c m content chunks spans s) :=
    WhileLoop.run_total (fun s => ∃ spans, CutSoFar c m content s spans) _ (fun s => content.length - s.start)
      (fun s ⟨spans, hs⟩ => cut_spec hs) hstart (show content.length - 0 < _ by omega)
  rcases hrun with ⟨chunks, hrun, hcuts⟩
  refine ⟨chunks, ?_, hcuts⟩
  unfold chunk
  rw [hm]
  exact congrArg Except.ok hrun

/-! ## What a run promises -/

/-- The chunks are the slices of spans that are short enough, leave nothing out and repeat little. -/
structure Splits (c : SafeFixedSizeChunking) (content : List Char) (chunks : List Chunk)
    (spans : List Spans.Span) : Prop where
  texts : chunks.map (·.text) = spans.map (slice content)
  within : ∀ a ∈ spans, a.start < a.stop ∧ a.stop ≤ a.start + c.chunkSize ∧ a.stop ≤ content.length
  linked : spans.IsChain (Spans.Linked c.overlap)
  covers : ∀ p < content.length, ∃ a ∈ spans, Spans.Covers p a

def emittedBytes (chunks : List Chunk) : Nat := (chunks.map fun chunk => utf8Bytes chunk.text).sum

namespace Cuts

variable {chunks : List Chunk} {spans : List Spans.Span} {s : Nat} (h : Cuts c m content chunks spans s)
include h

theorem splits : Splits c content chunks (spans ++ [⟨s, content.length⟩]) where
  texts := by rw [h.chunks, texts_emitted]
  within a ha := by
    rcases h.bounded a ha with ⟨hless, hlen⟩
    refine ⟨hless, ?_, hlen⟩
    rcases List.mem_append.mp ha with ha | ha
    · exact h.walk.stop_le a ha
    · rw [List.mem_singleton] at ha
      rw [ha]
      exact h.last
  linked := h.walk.linked content.length
  covers p hp := by
    by_cases hbefore : p < s
    · rcases h.walk.covers (Nat.zero_le p) hbefore with ⟨a, ha, hcovers⟩
      exact ⟨a, List.mem_append_left _ ha, hcovers⟩
    · exact ⟨⟨s, content.length⟩, List.mem_append_right _ List.mem_cons_self, not_lt.mp hbefore, hp⟩

theorem start_lt : s < content.length :=
  (h.bounded ⟨s, content.length⟩ (List.mem_append_right _ List.mem_cons_self)).1

theorem emittedBytes_eq :
    emittedBytes chunks = ((spans ++ [(⟨s, content.length⟩ : Spans.Span)]).map (Spans.weight (bytesAt content))).sum := by
  have htexts : chunks.map (fun chunk => utf8Bytes chunk.text) =
      (spans ++ [(⟨s, content.length⟩ : Spans.Span)]).map fun a => utf8Bytes (slice content a) := by
    have hmap := congrArg (List.map utf8Bytes) h.splits.texts
    rw [List.map_map, List.map_map] at hmap
    exact hmap
  unfold emittedBytes
  rw [htexts]
  congr 1
  apply List.map_congr_left
  intro a ha
  exact utf8Bytes_slice content (h.bounded a ha).1.le

/-- Beside the text itself, every chunk but the last repeats the overlap. -/
theorem byRepeats : emittedBytes chunks ≤ utf8Bytes content + spans.length * (c.overlap * 4) := by
  have hwalk := h.walk.weight_le (bytesAt_le content)
  have hlast : Spans.weight (bytesAt content) ⟨s, content.length⟩ =
      ∑ p ∈ Finset.Ico s content.length, bytesAt content p := rfl
  have hwhole := Finset.sum_Ico_consecutive (bytesAt content) (Nat.zero_le s) h.start_lt.le
  rw [h.emittedBytes_eq, List.map_append, List.sum_append, List.map_singleton, List.sum_singleton, hlast,
    utf8Bytes_eq, Finset.range_eq_Ico, ← hwhole]
  omega

/-- No position is in more chunks than fit their size. -/
theorem byCoverage : emittedBytes chunks ≤
    ((c.chunkSize - 1) / c.leastStep m + 1) * utf8Bytes content := by
  have hstep : 0 < c.leastStep m := by
    unfold leastStep
    split <;> omega
  have hspaced : (spans ++ [(⟨s, content.length⟩ : Spans.Span)]).Pairwise
      fun a b => a.start + c.leastStep m ≤ b.start := by
    rw [List.pairwise_append]
    refine ⟨h.walk.spaced.1, List.pairwise_singleton _ _, ?_⟩
    intro a ha b hb
    rw [List.mem_singleton] at hb
    rw [hb]
    exact h.walk.spaced.2 a ha
  rw [h.emittedBytes_eq, utf8Bytes_eq]
  apply Spans.sum_weight_le fun a ha => (h.bounded a ha).2
  exact fun p => Spans.countP_covers_le hstep hspaced fun a ha => (h.splits.within a ha).2.1

/-- The starts fit into the text. -/
theorem length_le {sourceBytes : Nat} (hsource : utf8Bytes content ≤ sourceBytes) :
    spans.length ≤ (sourceBytes - 1) / c.leastStep m := by
  have hstep : 0 < c.leastStep m := by
    unfold leastStep
    split <;> omega
  have hlength := h.walk.length_mul_le
  have hstart := h.start_lt
  have hcontent := length_le_utf8Bytes content
  rw [Nat.le_div_iff_mul_le hstep]
  omega

/-- The bound that is computed beforehand holds. -/
theorem le_maxChunkTextBytes (hsize : c.minChunkSize = .ok m) (hm : m ≤ c.chunkSize) {sourceBytes : Nat}
    (hsource : utf8Bytes content ≤ sourceBytes) :
    ∃ bound, c.maxChunkTextBytes sourceBytes = .ok bound ∧ emittedBytes chunks ≤ bound := by
  have hleast : c.leastStep m = max 1 (m - c.overlap) := if_pos hm
  have hpositive : 0 < sourceBytes := by
    have hstart := h.start_lt
    have hcontent := length_le_utf8Bytes content
    omega
  have hrepeats := h.byRepeats
  unfold maxChunkTextBytes
  rw [if_neg hpositive.ne']
  split
  · next hoverlap =>
    rw [hoverlap, Nat.zero_mul, Nat.mul_zero] at hrepeats
    exact ⟨sourceBytes, rfl, hrepeats.trans hsource⟩
  · have hstep : c.minChunkStep = .ok (c.leastStep m) := by
      unfold minChunkStep
      rw [hsize, hleast]
      rfl
    rw [hstep]
    refine ⟨_, rfl, le_min ?_ ?_⟩
    · have hcount : spans.length * (c.overlap * 4) ≤
          ((sourceBytes - 1) / c.leastStep m + 1) * c.overlap * 4 := by
        rw [Nat.mul_assoc]
        exact Nat.mul_le_mul_right _ ((h.length_le hsource).trans (Nat.le_succ _))
      omega
    · exact h.byCoverage.trans (Nat.mul_le_mul_left _ hsource)

end Cuts

end

/-! ## Sizes and their floating-point products -/

section

variable {c : SafeFixedSizeChunking}

/-- A size of at most 53 binary digits is not rounded, and the shortest chunk is no longer than it. -/
theorem minChunkSize_le (h : c.chunkSize < 2 ^ 53) : ∃ m, c.minChunkSize = .ok m ∧ m ≤ c.chunkSize := by
  have hexact := Binary64.nearest_natCast h
  have hfloat : float c.chunkSize = .ok (c.chunkSize : ℚ) := by
    unfold float
    rw [hexact, if_pos]
    have hbound : (c.chunkSize : ℚ) < 2 ^ 53 := by exact_mod_cast h
    exact hbound.trans (pow_lt_pow_right₀ one_lt_two (by norm_num))
  have hpos := c.overlap_lt
  have hproduct : (c.chunkSize : ℚ) * c.minChunkFillRatio ≤ c.chunkSize :=
    mul_le_of_le_one_right (Nat.cast_nonneg _) c.ratio_le
  have hnonneg : 0 ≤ (c.chunkSize : ℚ) * c.minChunkFillRatio :=
    mul_nonneg (Nat.cast_nonneg _) c.ratio_pos.le
  have hrounded : Binary64.nearest (c.chunkSize * c.minChunkFillRatio) < c.chunkSize + 1 := by
    have hle := Binary64.nearest_le hnonneg hproduct
    have hsmall : (c.chunkSize : ℚ) * (1 / 2 ^ 53) < 1 := by
      have hbound : (c.chunkSize : ℚ) < 2 ^ 53 := by exact_mod_cast h
      rw [mul_one_div, div_lt_one (by norm_num)]
      exact hbound
    linarith
  refine ⟨max 1 ⌊Binary64.nearest (c.chunkSize * c.minChunkFillRatio)⌋.toNat, ?_, ?_⟩
  · unfold minChunkSize
    rw [hfloat]
    rfl
  · have hfloor : ⌊Binary64.nearest (c.chunkSize * c.minChunkFillRatio)⌋ < (c.chunkSize : ℤ) + 1 := by
      rw [Int.floor_lt]
      push_cast
      exact hrounded
    omega

/-- Chunking ends with chunks that are short enough, leave nothing out and repeat at most the overlap, as long
as the shortest chunk can be computed, and the chunks are within the bound on their bytes, as long as that is
no longer than a chunk may be. Below 53 binary digits both is so. -/
theorem chunk_promised (c : SafeFixedSizeChunking) (content : List Char) (extra : Nat) :
    (c.chunkSize < 2 ^ 53 → ∃ m, c.minChunkSize = .ok m ∧ m ≤ c.chunkSize) ∧
      ∀ m, c.minChunkSize = .ok m →
        ∃ chunks spans, c.chunk content (content.length + 1 + extra) = .ok (some chunks) ∧
          Splits c content chunks spans ∧
          (m ≤ c.chunkSize → ∀ sourceBytes, utf8Bytes content ≤ sourceBytes →
            ∃ bound, c.maxChunkTextBytes sourceBytes = .ok bound ∧ emittedBytes chunks ≤ bound) := by
  refine ⟨minChunkSize_le, ?_⟩
  intro m hsize
  rcases chunk_spec hsize content extra with ⟨chunks, hchunk, ⟨rfl, rfl⟩ | ⟨spans, s, hcuts⟩⟩
  · refine ⟨[], [], hchunk, ⟨rfl, fun a ha => absurd ha List.not_mem_nil, List.isChain_nil, ?_⟩, ?_⟩
    · intro p hp
      exact absurd hp (Nat.not_lt_zero p)
    · intro hm sourceBytes _
      unfold maxChunkTextBytes minChunkStep
      rw [hsize]
      split
      · exact ⟨0, rfl, le_rfl⟩
      · split
        · exact ⟨sourceBytes, rfl, Nat.zero_le _⟩
        · exact ⟨_, rfl, Nat.zero_le _⟩
  · exact ⟨chunks, _, hchunk, hcuts.splits, fun hm _ hsource => hcuts.le_maxChunkTextBytes hsize hm hsource⟩

end

/-! ## Sizes that are rounded -/

section

variable {c : SafeFixedSizeChunking} {m len start number : Nat} {chunks : List Chunk}

theorem moveBack_unbroken {stop : Nat} (h : start ≤ stop) (hstop : stop < len) :
    moveBack (List.replicate len 'a') start stop = start := by
  induction stop with
  | zero => exact (Nat.le_zero.mp h).symm
  | succ stop ih =>
    unfold moveBack
    have hchar : ¬ ((List.replicate len 'a')[stop + 1]?.any isBlank = true) := by
      rw [List.getElem?_replicate_of_lt hstop]
      decide
    by_cases hlt : start < stop + 1
    · rw [if_pos ⟨hlt, hchar⟩]
      exact ih (by omega) (by omega)
    · rw [if_neg fun hboth => hlt hboth.1]
      omega

/-- Text without blanks is cut at the limit. -/
theorem chunkEnd_unbroken (h : start + c.chunkSize ≤ len) :
    c.chunkEnd m (List.replicate len 'a') start = start + c.chunkSize := by
  unfold chunkEnd
  dsimp only
  rw [List.length_replicate, min_eq_left h]
  split
  · next hlt => rw [if_pos (.inl (moveBack_unbroken (by omega) hlt))]
  · rfl

theorem utf8Bytes_slice_unbroken {stop : Nat} (h : stop ≤ len) :
    utf8Bytes (slice (List.replicate len 'a') ⟨start, stop⟩) = stop - start := by
  have hslice : slice (List.replicate len 'a') ⟨start, stop⟩ = List.replicate (stop - start) 'a' := by
    unfold slice
    dsimp only
    rw [List.drop_replicate, List.take_replicate, min_eq_left (by omega)]
  have hsize : Char.utf8Size 'a' = 1 := by decide
  unfold utf8Bytes
  rw [hslice, List.map_replicate, List.sum_replicate, hsize, smul_eq_mul, Nat.mul_one]

theorem emittedBytes_concat (chunk : Chunk) :
    emittedBytes (chunks ++ [chunk]) = emittedBytes chunks + utf8Bytes chunk.text := by
  unfold emittedBytes
  rw [List.map_append, List.sum_append, List.map_singleton, List.sum_singleton]

/-- With an overlap of all but one character, unbroken text is cut at every position. -/
theorem run_unbroken (hoverlap : c.overlap + 1 = c.chunkSize) (d : Nat) (hlen : start + c.chunkSize + d = len)
    (extra : Nat) :
    ∃ chunks', WhileLoop.run (c.cut m (List.replicate len 'a')) (d + 1 + extra) ⟨start, number, chunks⟩ =
      some chunks' ∧ emittedBytes chunks' = emittedBytes chunks + (d + 1) * c.chunkSize := by
  induction d generalizing start number chunks with
  | zero =>
    have hstop := chunkEnd_unbroken (c := c) (m := m) (show start + c.chunkSize ≤ len by omega)
    have hround : c.cut m (List.replicate len 'a') ⟨start, number, chunks⟩ =
        some (.leave (chunks ++ [⟨number, slice (List.replicate len 'a') ⟨start, start + c.chunkSize⟩⟩])) := by
      unfold cut
      dsimp only
      rw [List.length_replicate, if_pos (by omega), hstop, if_pos (by omega)]
    rw [show 0 + 1 + extra = extra + 1 by omega, WhileLoop.run_leave hround]
    refine ⟨_, rfl, ?_⟩
    rw [emittedBytes_concat, utf8Bytes_slice_unbroken (by omega)]
    omega
  | succ d ih =>
    have hstop := chunkEnd_unbroken (c := c) (m := m) (show start + c.chunkSize ≤ len by omega)
    have hnext : c.nextStart start (start + c.chunkSize) = start + 1 := by
      unfold nextStart
      rw [if_neg (by omega)]
      omega
    have hround : c.cut m (List.replicate len 'a') ⟨start, number, chunks⟩ =
        some (.again ⟨start + 1, number + 1,
          chunks ++ [⟨number, slice (List.replicate len 'a') ⟨start, start + c.chunkSize⟩⟩]⟩) := by
      unfold cut
      dsimp only
      rw [List.length_replicate, if_pos (by omega), hstop, if_neg (by omega), hnext]
    rw [show d + 1 + 1 + extra = (d + 1 + extra) + 1 by omega, WhileLoop.run_again hround]
    rcases ih (show start + 1 + c.chunkSize + d = len by omega) with ⟨chunks', hrun, hbytes⟩
    refine ⟨chunks', hrun, ?_⟩
    rw [hbytes, emittedBytes_concat, utf8Bytes_slice_unbroken (by omega), Nat.add_mul (d + 1) 1]
    omega

/-- A size that no floating-point number can hold. -/
def immense : SafeFixedSizeChunking := ⟨2 ^ 1025, 0, 1, Nat.two_pow_pos 1025, by norm_num, le_rfl⟩

def roundedUp : SafeFixedSizeChunking := ⟨2 ^ 53 + 3, 2 ^ 53 + 2, 1, by norm_num, by norm_num, le_rfl⟩

theorem minChunkSize_immense : immense.minChunkSize = .error .overflowError := by
  have hdistance := abs_le.mp (Binary64.abs_nearest_sub_le ((2 ^ 1025 : Nat) : ℚ))
  have hlarge : ¬ Binary64.nearest ((2 ^ 1025 : Nat) : ℚ) < 2 ^ 1024 := by
    rw [abs_of_nonneg (Nat.cast_nonneg _)] at hdistance
    have hpow : ((2 ^ 1025 : Nat) : ℚ) = 2 * 2 ^ 1024 := by
      rw [Nat.cast_pow, Nat.cast_ofNat, pow_succ, mul_comm]
    rw [hpow] at hdistance ⊢
    have hpos : (0 : ℚ) < 2 ^ 1024 := by positivity
    generalize (2 : ℚ) ^ 1024 = x at hdistance hpos ⊢
    linarith [hdistance.1]
  unfold minChunkSize float
  change (if Binary64.nearest ((2 ^ 1025 : Nat) : ℚ) < 2 ^ 1024 then _ else _) >>= _ = _
  rw [if_neg hlarge]
  rfl

theorem minChunkSize_roundedUp : roundedUp.minChunkSize = .ok (2 ^ 53 + 4) := by
  have hsize : Binary64.nearest ((2 ^ 53 + 3 : Nat) : ℚ) = 2 ^ 53 + 4 := by decide +kernel
  have hproduct : Binary64.nearest ((2 ^ 53 + 4 : ℚ) * 1) = 2 ^ 53 + 4 := by decide +kernel
  have hfloat : float (2 ^ 53 + 3) = .ok (2 ^ 53 + 4) := by
    unfold float
    rw [hsize, if_pos (lt_of_lt_of_le (by norm_num : (2 ^ 53 + 4 : ℚ) < 2 ^ 54)
      (pow_le_pow_right₀ one_le_two (by norm_num)))]
  have hfloor : ⌊(2 ^ 53 + 4 : ℚ)⌋ = 2 ^ 53 + 4 := by
    rw [show (2 ^ 53 + 4 : ℚ) = ((2 ^ 53 + 4 : ℤ) : ℚ) by norm_num, Int.floor_intCast]
  unfold minChunkSize
  change (float (2 ^ 53 + 3) >>= fun size => pure (max 1 ⌊Binary64.nearest (size * 1)⌋.toNat)) = _
  rw [hfloat]
  change Except.ok (max 1 ⌊Binary64.nearest ((2 ^ 53 + 4 : ℚ) * 1)⌋.toNat) = _
  rw [hproduct, hfloor]
  rfl

/-- Text without blanks. -/
def unbroken : List Char := List.replicate (3 * (2 ^ 53 + 3)) 'a'

/-- With a size that cannot be converted nothing is chunked, and with a size that is rounded up the shortest
chunk is longer than a chunk may be, so that the chunks go beyond their bound. -/
theorem chunk_unpromised :
    (∀ content fuel, immense.chunk content fuel = .error .overflowError) ∧
      ∃ chunks bound, roundedUp.chunk unbroken (2 * (2 ^ 53 + 3) + 1) = .ok (some chunks) ∧
        roundedUp.maxChunkTextBytes (utf8Bytes unbroken) = .ok bound ∧ bound < emittedBytes chunks := by
  constructor
  · intro content fuel
    unfold chunk
    rw [minChunkSize_immense]
    rfl
  · have hbytes : utf8Bytes unbroken = 3 * (2 ^ 53 + 3) := by
      have hsize : Char.utf8Size 'a' = 1 := by decide
      unfold utf8Bytes unbroken
      rw [List.map_replicate, List.sum_replicate, hsize, smul_eq_mul, Nat.mul_one]
    have hsize : roundedUp.chunkSize = 2 ^ 53 + 3 := rfl
    have hstep : roundedUp.minChunkStep = .ok 2 := by
      unfold minChunkStep
      rw [minChunkSize_roundedUp]
      rfl
    rcases run_unbroken (c := roundedUp) (m := 2 ^ 53 + 4) rfl (2 * (2 ^ 53 + 3))
      (show 0 + roundedUp.chunkSize + 2 * (2 ^ 53 + 3) = 3 * (2 ^ 53 + 3) by rw [hsize]; norm_num) 0 with
      ⟨chunks, hrun, hemitted⟩
    refine ⟨chunks, ((2 ^ 53 + 3 - 1) / 2 + 1) * (3 * (2 ^ 53 + 3)), ?_, ?_, ?_⟩
    · unfold chunk
      rw [minChunkSize_roundedUp]
      exact congrArg Except.ok hrun
    · rw [hbytes]
      unfold maxChunkTextBytes
      rw [if_neg (by norm_num), if_neg (by decide), hstep]
      rfl
    · rw [hemitted, hsize]
      norm_num [emittedBytes]

end

end SafeFixedSizeChunking

end MindRoom
