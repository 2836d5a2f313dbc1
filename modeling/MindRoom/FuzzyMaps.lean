import MindRoom.FuzzyLines

/-! # Offset maps

For each offset of a normalized line, where in the line it comes from. A line in composed form is mapped character
by character, any other line by the composed form of each of its prefixes: where nothing is composed across a
position, the two parts of the line there are normalized to the two parts at the offset.
-/

namespace MindRoom

open InteractiveText (isSpace rstrip)

namespace FuzzyText

/-! ## Prefix maps -/

def positionsFrom (i : Nat) : List Char → List Nat
  | [] => []
  | c :: text => if (translateChar c).isSome then i :: positionsFrom (i + 1) text else positionsFrom (i + 1) text

def normalizePrefixMapLinear (text : List Char) : List Char × List Nat := (translate text, 0 :: positionsFrom 1 text)

/-- `offset_map[offset] = max(offset_map[offset], offset_map[offset - 1])`. -/
def runningMax (m : Nat) : List Nat → List Nat
  | [] => []
  | offset :: offsets => max m offset :: runningMax (max m offset) offsets

section

variable (nfc : List Char → List Char)

/-- One prefix: the offsets it reaches, and the one it ends at. -/
def mapPrefix (text : List Char) (normalizedLen : Nat) (state : List Nat × Nat) (i : Nat) : List Nat × Nat :=
  let currentLen := min (composed nfc (text.take i)).length normalizedLen
  let prevLen := min state.2 currentLen
  (state.1.mapIdx fun offset old => if (prevLen < offset ∧ offset ≤ currentLen) ∨ offset = currentLen then i else old,
    currentLen)

def mapPrefixes (text : List Char) (count : Nat) : List Nat × Nat :=
  (List.range' 1 count).foldl (mapPrefix nfc text (composed nfc text).length)
    (List.replicate ((composed nfc text).length + 1) 0, 0)

def normalizePrefixMapSlow (text : List Char) : List Char × List Nat :=
  (composed nfc text, runningMax 0 (mapPrefixes nfc text text.length).1)

def normalizePrefixMap (text : List Char) : List Char × List Nat :=
  if nfc text = text then normalizePrefixMapLinear text else normalizePrefixMapSlow nfc text

/-- Nothing is composed across a position, whatever prefix of the text is. -/
def Boundary (text : List Char) (i : Nat) : Prop :=
  ∀ k, i ≤ k → nfc (text.take k) = nfc (text.take i) ++ nfc ((text.drop i).take (k - i))

/-- The two parts of a text are normalized to the two parts of the normalized text. -/
structure Cut (text : List Char) (i j : Nat) : Prop where
  fits : i ≤ text.length
  before : composed nfc (text.take i) = (composed nfc text).take j
  behind : composed nfc (text.drop i) = (composed nfc text).drop j

end

/-! ### Texts in composed form -/

section

variable {nfc : List Char → List Char} {text : List Char} {i j start : Nat}

theorem length_positionsFrom (text : List Char) (start : Nat) :
    (positionsFrom start text).length = (translate text).length := by
  induction text generalizing start with
  | nil => rfl
  | cons c text ih =>
    rw [positionsFrom, translate, List.filterMap_cons]
    cases translateChar c with
    | none => exact ih (start + 1)
    | some d => exact congrArg Nat.succ (ih (start + 1))

/-- The position behind a kept character cuts the text there. -/
theorem positionsFrom_cut (start : Nat) (hget : (positionsFrom (start + 1) text)[j]? = some i) :
    ∃ m, i = start + m ∧ m ≤ text.length ∧ translate (text.take m) = (translate text).take (j + 1) ∧
      translate (text.drop m) = (translate text).drop (j + 1) := by
  induction text generalizing start j with
  | nil => cases hget
  | cons c text ih =>
    rw [positionsFrom] at hget
    have htail : ∀ {j'}, (positionsFrom (start + 1 + 1) text)[j']? = some i → ∃ m, i = start + (m + 1) ∧ m ≤ text.length ∧
        translate (text.take m) = (translate text).take (j' + 1) ∧
          translate (text.drop m) = (translate text).drop (j' + 1) := by
      intro j' hget'
      obtain ⟨m, rfl, hrest⟩ := ih (start + 1) hget'
      exact ⟨m, by omega, hrest⟩
    cases hc : translateChar c with
    | none =>
      rw [hc, Option.isSome_none, if_neg (by decide)] at hget
      obtain ⟨m, rfl, hm, hbefore, hbehind⟩ := htail hget
      refine ⟨m + 1, rfl, Nat.succ_le_succ hm, ?_, ?_⟩
      · rw [List.take_succ_cons, translate, translate, List.filterMap_cons_none hc, List.filterMap_cons_none hc]
        exact hbefore
      · rw [List.drop_succ_cons, hbehind]
        exact congrArg _ (List.filterMap_cons_none hc).symm
    | some d =>
      rw [hc, Option.isSome_some, if_pos rfl] at hget
      have hall : translate (c :: text) = d :: translate text := List.filterMap_cons_some hc
      cases j with
      | zero =>
        rw [List.getElem?_cons_zero, Option.some.injEq] at hget
        refine ⟨1, hget.symm, Nat.succ_le_succ (Nat.zero_le _), ?_, ?_⟩
        · rw [hall, List.take_succ_cons, List.take_zero, List.take_succ_cons, List.take_zero]
          exact List.filterMap_cons_some hc
        · rw [hall]
          rfl
      | succ j =>
        rw [List.getElem?_cons_succ] at hget
        obtain ⟨m, rfl, hm, hbefore, hbehind⟩ := htail hget
        refine ⟨m + 1, rfl, Nat.succ_le_succ hm, ?_, ?_⟩
        · rw [List.take_succ_cons, hall, List.take_succ_cons, ← hbefore]
          exact List.filterMap_cons_some hc
        · rw [List.drop_succ_cons, hbehind, hall, List.drop_succ_cons]

theorem positionsFrom_sorted (text : List Char) (start : Nat) :
    (positionsFrom start text).Pairwise (· ≤ ·) ∧ ∀ i ∈ positionsFrom start text, start ≤ i ∧ i < start + text.length := by
  induction text generalizing start with
  | nil => exact ⟨List.Pairwise.nil, List.forall_mem_nil _⟩
  | cons c text ih =>
    obtain ⟨hsorted, hbounds⟩ := ih (start + 1)
    have htail : ∀ i ∈ positionsFrom (start + 1) text, start ≤ i ∧ i < start + (c :: text).length := by
      intro i hi
      have hi := hbounds i hi
      rw [List.length_cons]
      omega
    rw [positionsFrom]
    split
    · refine ⟨List.pairwise_cons.mpr ⟨fun i hi => (htail i hi).1, hsorted⟩, ?_⟩
      rintro i hi
      rcases List.mem_cons.mp hi with rfl | hi
      · rw [List.length_cons]
        omega
      · exact htail i hi
    · exact ⟨hsorted, htail⟩

/-- A part of a text in composed form is only replaced. -/
theorem composed_part (h : IsNfc nfc) (htext : nfc text = text) {piece : List Char} (hpiece : piece <:+: text) :
    composed nfc piece = translate piece := by
  rw [composed, h.part text piece htext hpiece]

theorem linear_cut (h : IsNfc nfc) (htext : nfc text = text)
    (hget : (normalizePrefixMapLinear text).2[j]? = some i) : Cut nfc text i j := by
  have hall := composed_part h htext List.infix_rfl
  have htake : composed nfc (text.take i) = translate (text.take i) :=
    composed_part h htext (List.take_prefix i text).isInfix
  have hdrop : composed nfc (text.drop i) = translate (text.drop i) :=
    composed_part h htext (List.drop_suffix i text).isInfix
  cases j with
  | zero =>
    rw [normalizePrefixMapLinear, List.getElem?_cons_zero] at hget
    cases hget
    exact ⟨Nat.zero_le _, by rw [List.take_zero, List.take_zero, composed_nil h], by rw [List.drop_zero, List.drop_zero]⟩
  | succ j =>
    rw [normalizePrefixMapLinear, List.getElem?_cons_succ] at hget
    obtain ⟨m, hi, hm, hbefore, hbehind⟩ := positionsFrom_cut 0 hget
    rw [Nat.zero_add] at hi
    subst hi
    exact ⟨hm, by rw [htake, hall, hbefore], by rw [hdrop, hall, hbehind]⟩

end

/-! ### Other texts -/

section

variable {nfc : List Char → List Char} {text rest : List Char} {i j k : Nat}

theorem mapPrefixes_succ (text : List Char) (count : Nat) : mapPrefixes nfc text (count + 1) =
    mapPrefix nfc text (composed nfc text).length (mapPrefixes nfc text count) (count + 1) := by
  rw [mapPrefixes, List.range'_1_concat, List.foldl_append, Nat.add_comm 1]
  rfl

theorem getElem?_mapPrefix (text : List Char) (normalizedLen : Nat) (state : List Nat × Nat) (i j : Nat) :
    (mapPrefix nfc text normalizedLen state i).1[j]? = state.1[j]?.map fun old =>
      if (min state.2 (min (composed nfc (text.take i)).length normalizedLen) < j ∧
          j ≤ min (composed nfc (text.take i)).length normalizedLen) ∨
        j = min (composed nfc (text.take i)).length normalizedLen then i else old := by
  rw [mapPrefix, List.getElem?_mapIdx]

/-- The offsets come from the prefixes so far. -/
theorem mapPrefixes_le (nfc : List Char → List Char) (text : List Char) (count : Nat) :
    (mapPrefixes nfc text count).1.length = (composed nfc text).length + 1 ∧
      ∀ i ∈ (mapPrefixes nfc text count).1, i ≤ count := by
  induction count with
  | zero => exact ⟨List.length_replicate, fun i hi => (List.eq_of_mem_replicate hi).le⟩
  | succ count ih =>
    rw [mapPrefixes_succ]
    refine ⟨by rw [mapPrefix, List.length_mapIdx, ih.1], fun i hi => ?_⟩
    obtain ⟨j, hj⟩ := List.mem_iff_getElem?.mp hi
    rw [getElem?_mapPrefix, Option.map_eq_some_iff] at hj
    obtain ⟨old, hold, hi⟩ := hj
    have hle := ih.2 old (List.mem_of_getElem? hold)
    split at hi <;> omega

/-- The prefix that was mapped last. -/
theorem mapPrefixes_snd (h : IsNfc nfc) (text : List Char) (count : Nat) :
    (mapPrefixes nfc text count).2 = min (composed nfc (text.take count)).length (composed nfc text).length := by
  cases count with
  | zero =>
    rw [List.take_zero, composed_nil h, List.length_nil, Nat.zero_min]
    rfl
  | succ count =>
    rw [mapPrefixes_succ]
    rfl

theorem translate_append (text rest : List Char) : translate (text ++ rest) = translate text ++ translate rest :=
  List.filterMap_append

theorem Boundary.composed (hb : Boundary nfc text i) (hk : i ≤ k) : FuzzyText.composed nfc (text.take k) =
    FuzzyText.composed nfc (text.take i) ++ FuzzyText.composed nfc ((text.drop i).take (k - i)) := by
  rw [FuzzyText.composed, hb k hk, translate_append]
  rfl

/-- A text that is normalized to nothing has only byte order marks. -/
theorem composed_eq_nil (h : IsNfc nfc) (htext : composed nfc text = []) : ∀ c ∈ text, c = '\ufeff' := by
  induction hn : text.length using Nat.strongRecOn generalizing text with
  | ind n ih =>
    by_cases hmem : '\ufeff' ∈ text
    · obtain ⟨before, after, rfl⟩ := List.append_of_mem hmem
      rw [composed_bom h, List.append_eq_nil_iff] at htext
      rw [List.length_append, List.length_cons] at hn
      intro c hc
      rcases List.mem_append.mp hc with hc | hc
      · exact ih before.length (by omega) htext.1 rfl c hc
      · rcases List.mem_cons.mp hc with rfl | hc
        · rfl
        · exact ih after.length (by omega) htext.2 rfl c hc
    · have hnone : nfc text = [] := by
        rw [List.eq_nil_iff_forall_not_mem]
        intro c hc
        have hdropped := List.filterMap_eq_nil_iff.mp htext c hc
        rw [eq_of_translateChar_none hdropped] at hc
        exact hmem (h.created '\ufeff' (.inr (.inr rfl)) text hc)
      rw [h.nonempty text hnone]
      exact List.forall_mem_nil _

/-- Byte order marks at the start do not count. -/
theorem composed_of_boms (h : IsNfc nfc) (htext : ∀ c ∈ text, c = '\ufeff') (rest : List Char) :
    composed nfc (text ++ rest) = composed nfc rest := by
  induction text with
  | nil => rfl
  | cons c text ih =>
    have hc := htext c List.mem_cons_self
    subst hc
    have hbom := composed_bom h [] (text ++ rest)
    rw [composed_nil h, List.nil_append, List.nil_append] at hbom
    rw [List.cons_append, hbom, ih fun c hc => htext c (List.mem_cons_of_mem _ hc)]

/-- Once the boundary is passed, its offset comes from a prefix of its length, and smaller offsets from prefixes that
do not pass it. -/
theorem mapPrefixes_boundary (h : IsNfc nfc) (hb : Boundary nfc text i) (hlength : (composed nfc (text.take i)).length = j)
    (hj : j < (composed nfc text).length) (hk : i ≤ k) :
    (∃ m, (mapPrefixes nfc text k).1[j]? = some m ∧ i ≤ m ∧ m ≤ k ∧ (composed nfc (text.take m)).length = j) ∧
      ∀ j' < j, ∀ m, (mapPrefixes nfc text k).1[j']? = some m → m ≤ i := by
  have hlong : ∀ k, i ≤ k → j ≤ (composed nfc (text.take k)).length := by
    intro k hk
    rw [hb.composed hk, List.length_append, hlength]
    exact Nat.le_add_right _ _
  have hget : ∀ count, ∃ old, (mapPrefixes nfc text count).1[j]? = some old := by
    intro count
    have hcount := (mapPrefixes_le nfc text count).1
    exact ⟨_, List.getElem?_eq_getElem (by omega)⟩
  induction k, hk using Nat.le_induction with
  | base =>
    refine ⟨⟨i, ?_, le_rfl, le_rfl, hlength⟩, fun j' _ m hm => (mapPrefixes_le nfc text i).2 m (List.mem_of_getElem? hm)⟩
    cases i with
    | zero =>
      rw [List.take_zero, composed_nil h] at hlength
      subst hlength
      rfl
    | succ count =>
      obtain ⟨old, hold⟩ := hget count
      rw [mapPrefixes_succ, getElem?_mapPrefix, hold, Option.map_some, hlength, min_eq_left hj.le, if_pos (.inr rfl)]
  | succ k hk ih =>
    obtain ⟨⟨m, hm, hi, hle, hmlength⟩, hsmall⟩ := ih
    have hprev := hlong k hk
    have hcurrent := hlong (k + 1) (hk.trans (Nat.le_succ k))
    rw [mapPrefixes_succ]
    refine ⟨?_, fun j' hj' m hm => ?_⟩
    · rw [getElem?_mapPrefix, hm, Option.map_some, mapPrefixes_snd h]
      by_cases hsame : j = min (composed nfc (text.take (k + 1))).length (composed nfc text).length
      · rw [if_pos (.inr hsame)]
        exact ⟨k + 1, rfl, hk.trans (Nat.le_succ k), le_rfl, by omega⟩
      · rw [if_neg (by omega)]
        exact ⟨m, rfl, hi, hle.trans (Nat.le_succ k), hmlength⟩
    · rw [getElem?_mapPrefix, Option.map_eq_some_iff, mapPrefixes_snd h] at hm
      obtain ⟨old, hold, hm⟩ := hm
      rw [if_neg (by omega)] at hm
      exact hm ▸ hsmall j' hj' old hold

theorem getElem?_runningMax {offsets : List Nat} {m v : Nat} (hget : offsets[j]? = some v) (hm : m ≤ v)
    (hsmall : ∀ j' < j, ∀ v', offsets[j']? = some v' → v' ≤ v) : (runningMax m offsets)[j]? = some v := by
  induction offsets generalizing m j with
  | nil => cases hget
  | cons offset offsets ih =>
    cases j with
    | zero =>
      rw [List.getElem?_cons_zero, Option.some.injEq] at hget
      rw [runningMax, List.getElem?_cons_zero, hget, max_eq_right hm]
    | succ j =>
      rw [List.getElem?_cons_succ] at hget
      have hfirst := hsmall 0 (Nat.succ_pos j) offset rfl
      rw [runningMax, List.getElem?_cons_succ]
      exact ih hget (max_le hm hfirst) fun j' hj' v' hv' => hsmall (j' + 1) (Nat.succ_lt_succ hj') v' hv'

theorem runningMax_sorted (offsets : List Nat) (m : Nat) :
    (runningMax m offsets).Pairwise (· ≤ ·) ∧ (∀ v ∈ runningMax m offsets, m ≤ v) ∧
      (runningMax m offsets).length = offsets.length := by
  induction offsets generalizing m with
  | nil => exact ⟨List.Pairwise.nil, List.forall_mem_nil _, rfl⟩
  | cons offset offsets ih =>
    obtain ⟨hsorted, hbounds, hlength⟩ := ih (max m offset)
    refine ⟨List.pairwise_cons.mpr ⟨hbounds, hsorted⟩, ?_, congrArg Nat.succ hlength⟩
    intro v hv
    rcases List.mem_cons.mp hv with rfl | hv
    · exact le_max_left m offset
    · exact (le_max_left m offset).trans (hbounds v hv)

theorem runningMax_le {offsets : List Nat} {m bound : Nat} (hm : m ≤ bound) (h : ∀ v ∈ offsets, v ≤ bound) :
    ∀ v ∈ runningMax m offsets, v ≤ bound := by
  induction offsets generalizing m with
  | nil => exact List.forall_mem_nil _
  | cons offset offsets ih =>
    have hmax := max_le hm (h offset List.mem_cons_self)
    intro v hv
    rcases List.mem_cons.mp hv with rfl | hv
    · exact hmax
    · exact ih hmax (fun v hv => h v (List.mem_cons_of_mem _ hv)) v hv

/-- The offset of a boundary comes from a position that cuts the text there. -/
theorem slow_cut (h : IsNfc nfc) (hb : Boundary nfc text i) (hi : i ≤ text.length)
    (hlength : (composed nfc (text.take i)).length = j) (hj : j < (composed nfc text).length) :
    ∃ m, (normalizePrefixMapSlow nfc text).2[j]? = some m ∧ Cut nfc text m j := by
  obtain ⟨⟨m, hm, him, hmtext, hmlength⟩, hsmall⟩ := mapPrefixes_boundary h hb hlength hj hi
  have hall := hb.composed hi
  have hrest : (text.drop i).take (text.length - i) = text.drop i := List.take_of_length_le (by rw [List.length_drop])
  rw [List.take_length, hrest] at hall
  -- what lies between the boundary and the position is dropped
  have htake := hb.composed him
  have hbetween : composed nfc ((text.drop i).take (m - i)) = [] := by
    have hsum := congrArg List.length htake
    rw [List.length_append, hmlength, hlength] at hsum
    exact List.eq_nil_of_length_eq_zero (by omega)
  have hdrop : text.drop i = (text.drop i).take (m - i) ++ text.drop m := by
    conv_lhs => rw [← List.take_append_drop (m - i) (text.drop i), List.drop_drop, Nat.add_sub_cancel' him]
  rw [hbetween, List.append_nil] at htake
  refine ⟨m, getElem?_runningMax hm (Nat.zero_le m) fun j' hj' v hv => (hsmall j' hj' v hv).trans him, hmtext, ?_, ?_⟩
  · rw [htake, hall, ← hlength, List.take_left]
  · rw [hall, ← hlength, List.drop_left, hdrop, composed_of_boms h (composed_eq_nil h hbetween)]

end

/-! ## Line maps -/

/-- Per-line normalized-to-original offset mapping for fuzzy matches. -/
structure NormalizedLineMap where
  normToOrig : List Nat
  normLen : Nat
deriving DecidableEq

/-- One line of `_build_normalized_line_maps`. -/
def normalizedLineMap (nfc : List Char → List Char) (line : List Char) : NormalizedLineMap :=
  let body := (splitLineBodyEnding line).1
  let lineEnding := (splitLineBodyEnding line).2
  let normalizedBody := rstrip (normalizePrefixMap nfc body).1
  { normToOrig := ((normalizePrefixMap nfc body).2.take (normalizedBody.length + 1)).set normalizedBody.length body.length ++
      (List.range' 1 lineEnding.length).map (body.length + ·)
    normLen := normalizedBody.length + lineEnding.length }

section

variable {nfc : List Char → List Char} {text body ending : List Char} {i j : Nat}

/-- An offset of a normalized body that is not at its end comes from a boundary of the body. -/
def AtBoundary (nfc : List Char → List Char) (body : List Char) (j : Nat) : Prop :=
  nfc body = body ∨ ∃ i, i ≤ body.length ∧ Boundary nfc body i ∧ (composed nfc (body.take i)).length = j

theorem normalizePrefixMap_fst (text : List Char) : (normalizePrefixMap nfc text).1 = composed nfc text := by
  rw [normalizePrefixMap]
  split
  · next htext =>
    rw [composed, htext]
    rfl
  · rfl

theorem normalizePrefixMap_cut (h : IsNfc nfc) (hb : AtBoundary nfc text j) (hj : j < (composed nfc text).length) :
    ∃ i, (normalizePrefixMap nfc text).2[j]? = some i ∧ Cut nfc text i j := by
  rw [normalizePrefixMap]
  split
  · next htext =>
    have hlength : (normalizePrefixMapLinear text).2.length = (composed nfc text).length + 1 := by
      rw [normalizePrefixMapLinear, List.length_cons, length_positionsFrom, composed, htext]
    have hget : (normalizePrefixMapLinear text).2[j]? = some ((normalizePrefixMapLinear text).2[j]) :=
      List.getElem?_eq_getElem (by omega)
    exact ⟨_, hget, linear_cut h htext hget⟩
  · next htext =>
    rcases hb with hsame | ⟨i, hi, hb, hlength⟩
    · exact absurd hsame htext
    · exact slow_cut h hb hi hlength hj

/-- Offsets of a prefix map never decrease and are in the text. -/
theorem normalizePrefixMap_sorted (nfc : List Char → List Char) (text : List Char) :
     (normalizePrefixMap nfc text).2.Pairwise (· ≤ ·) ∧
    (∀ i ∈ (normalizePrefixMap nfc text).2, i ≤ text.length) ∧
      (normalizePrefixMap nfc text).2.length = (composed nfc text).length + 1 := by
  rw [normalizePrefixMap]
  split
  · next htext =>
    obtain ⟨hsorted, hbounds⟩ := positionsFrom_sorted text 1
    refine ⟨List.pairwise_cons.mpr ⟨fun i _ => Nat.zero_le i, hsorted⟩, ?_, ?_⟩
    · intro i hi
      rcases List.mem_cons.mp hi with rfl | hi
      · exact Nat.zero_le _
      · have hlt := (hbounds i hi).2
        omega
    · rw [normalizePrefixMapLinear, List.length_cons, length_positionsFrom, composed, htext]
  · obtain ⟨hsorted, -, hlength⟩ := runningMax_sorted (mapPrefixes nfc text text.length).1 0
    obtain ⟨hcount, hle⟩ := mapPrefixes_le nfc text text.length
    exact ⟨hsorted, runningMax_le (Nat.zero_le _) hle, hlength.trans hcount⟩

theorem length_rstrip_le (text : List Char) : (rstrip text).length ≤ text.length := by
  obtain ⟨blanks, hsplit, -, -⟩ := rstrip_split text
  conv_rhs => rw [hsplit]
  rw [List.length_append]
  exact Nat.le_add_right _ _

/-- The map of a line: the offsets within its normalized body, and all from its end on. -/
theorem normalizedLineMap_eq (hs : SplitLine body ending) : normalizedLineMap nfc (body ++ ending) =
    { normToOrig := (normalizePrefixMap nfc body).2.take (rstrip (composed nfc body)).length ++
        (List.range' 0 (ending.length + 1)).map (body.length + ·)
      normLen := (normalizedLine nfc body ending).length } := by
  have hlength := (normalizePrefixMap_sorted nfc body).2.2
  have hle := length_rstrip_le (composed nfc body)
  have hset : ((normalizePrefixMap nfc body).2.take ((rstrip (composed nfc body)).length + 1)).set
      (rstrip (composed nfc body)).length body.length =
        (normalizePrefixMap nfc body).2.take (rstrip (composed nfc body)).length ++ [body.length] := by
    rw [List.set_eq_take_append_cons_drop, if_pos (by rw [List.length_take]; omega), List.take_take,
      min_eq_left (Nat.le_succ _), List.drop_eq_nil_of_le (by rw [List.length_take]; omega)]
  rw [normalizedLineMap, hs.split_eq, normalizePrefixMap_fst, normalizedLine, List.length_append]
  dsimp only
  rw [hset, List.append_assoc]
  rfl

theorem length_bodyMap (nfc : List Char → List Char) (body : List Char) :
    ((normalizePrefixMap nfc body).2.take (rstrip (composed nfc body)).length).length =
    (rstrip (composed nfc body)).length := by
  have hlength := (normalizePrefixMap_sorted nfc body).2.2
  have hle := length_rstrip_le (composed nfc body)
  rw [List.length_take]
  omega

/-- Offsets within the normalized body. -/
theorem normToOrig_body (hs : SplitLine body ending) (hj : j < (rstrip (composed nfc body)).length) :
    (normalizedLineMap nfc (body ++ ending)).normToOrig[j]? = (normalizePrefixMap nfc body).2[j]? := by
  have hlength := length_bodyMap nfc body
  rw [normalizedLineMap_eq hs, List.getElem?_append_left (by omega), List.getElem?_take_of_lt hj]

/-- Offsets at the end of the normalized body and within the ending. -/
theorem normToOrig_ending (hs : SplitLine body ending) {t : Nat} (ht : t ≤ ending.length) :
    (normalizedLineMap nfc (body ++ ending)).normToOrig[(rstrip (composed nfc body)).length + t]? =
      some (body.length + t) := by
  have hlength := length_bodyMap nfc body
  rw [normalizedLineMap_eq hs, List.getElem?_append_right (by omega), hlength, Nat.add_sub_cancel_left, List.getElem?_map,
    List.getElem?_range' (by omega), Option.map_some, Nat.one_mul, Nat.zero_add]

/-- Offsets of a line never decrease. -/
theorem normToOrig_sorted (hs : SplitLine body ending) :
    (normalizedLineMap nfc (body ++ ending)).normToOrig.Pairwise (· ≤ ·) := by
  obtain ⟨hsorted, hle, -⟩ := normalizePrefixMap_sorted nfc body
  rw [normalizedLineMap_eq hs, List.pairwise_append]
  refine ⟨hsorted.sublist (List.take_sublist _ _), ?_, ?_⟩
  · exact List.pairwise_map.mpr (List.pairwise_le_range'.imp fun hle => Nat.add_le_add_left hle _)
  · intro i hi k hk
    obtain ⟨t, -, rfl⟩ := List.mem_map.mp hk
    exact (hle i (List.mem_of_mem_take hi)).trans (Nat.le_add_right _ t)

/-- The end of the body keeps the blanks before it: there are none, or a line separator is one of them. -/
def KeepsEnd (nfc : List Char → List Char) (body : List Char) : Prop :=
  Ended body ∨ rstrip (composed nfc body) = composed nfc body

/-- An offset of a normalized line corresponds to the position it comes from. -/
theorem normToOrig_corresponds (h : IsNfc nfc) (hs : SplitLine body ending)
    (hj : j ≤ (normalizedLine nfc body ending).length)
    (hb : j < (rstrip (composed nfc body)).length → AtBoundary nfc body j) :
    ∃ i, (normalizedLineMap nfc (body ++ ending)).normToOrig[j]? = some i ∧ Corresponds nfc body ending i j ∧
      ((j = (rstrip (composed nfc body)).length → KeepsEnd nfc body) → KeepsBefore nfc body ending i j) := by
  rcases Nat.lt_or_ge j (rstrip (composed nfc body)).length with hlt | hge
  · have hle := length_rstrip_le (composed nfc body)
    obtain ⟨i, hget, hcut⟩ := normalizePrefixMap_cut h (hb hlt) (show j < (composed nfc body).length by omega)
    rw [← normToOrig_body hs hlt] at hget
    refine ⟨i, hget, corresponds_body h hs hcut.fits hlt.le hcut.behind, fun _ => ?_⟩
    refine keepsBefore_body h hcut.fits ?_ hlt.le hcut.before
    rcases hs.oneLine with hbody | ⟨init, c, hinit, hc, -, rfl, rfl⟩
    · exact fun d hd => hbody d (List.mem_of_mem_take hd)
    · have hi : i ≤ init.length := by
        by_contra hlong
        have hnil : (init ++ [c]).drop i = [] := List.drop_eq_nil_of_le (by simpa using by omega)
        have hbehind := congrArg List.length hcut.behind
        rw [hnil, composed_nil h, List.length_drop, List.length_nil] at hbehind
        omega
      intro d hd
      rw [List.take_append_of_le_length hi] at hd
      exact hinit d (List.mem_of_mem_take hd)
  · obtain ⟨t, rfl⟩ := Nat.exists_eq_add_of_le hge
    rw [normalizedLine, List.length_append] at hj
    have ht : t ≤ ending.length := by omega
    refine ⟨body.length + t, normToOrig_ending hs ht, corresponds_ending h hs ht, fun hend => ?_⟩
    rcases Nat.eq_zero_or_pos t with rfl | hpos
    · exact keepsBefore_end h hs (hend rfl)
    · exact keepsBefore_ending h hs hpos ht

end

end FuzzyText

end MindRoom
