import MindRoom.JsonText
import MindRoom.Questions

/-! # The values of workflow specs

A spec, a run input and a step output are values of the host language as its JSON and YAML readers
give them. A float is kept as the text it is written as. Mappings have string keys, so that copying
one with `object_mapping` changes nothing.
-/

namespace MindRoom.DynamicWorkflow

inductive Value where
  | none
  | bool (b : Bool)
  | int (n : Int)
  | float (repr : String)
  | str (s : String)
  | list (items : List Value)
  | dict (fields : List (String × Value))
deriving Inhabited

/-- `dict[str, object]`. -/
abbrev Fields := List (String × Value)

/-! ## Text -/

mutual

/-- `json.dumps(value, indent=2, sort_keys=True)` on a line that is indented by some spaces. -/
def Value.dumps (indent : Nat) : Value → List Char
  | .none => "null".toList
  | .bool true => "true".toList
  | .bool false => "false".toList
  | .int n => JsonText.dumpsNum n
  | .float repr => repr.toList
  | .str s => JsonText.dumpsStr s
  | .list items =>
    match dumpsItems (indent + 2) items with
    | [] => ['[', ']']
    | lines =>
      '[' :: (lines.intersperse [',']).flatten ++ '\n' :: List.replicate indent ' ' ++ [']']
  | .dict fields =>
    match Dict.sortKeys (dumpsFields (indent + 2) fields) with
    | [] => ['\x7b', '\x7d']
    | lines =>
      '\x7b' :: ((lines.map (·.2)).intersperse [',']).flatten ++ '\n' :: List.replicate indent ' ' ++ ['\x7d']

def dumpsItems (indent : Nat) : List Value → List (List Char)
  | [] => []
  | item :: items => ('\n' :: List.replicate indent ' ' ++ item.dumps indent) :: dumpsItems indent items

/-- The members of a mapping, with their keys to sort them by. -/
def dumpsFields (indent : Nat) : List (String × Value) → List (String × List Char)
  | [] => []
  | (k, v) :: fields =>
    (k, '\n' :: List.replicate indent ' ' ++ JsonText.dumpsStr k ++ ':' :: ' ' :: v.dumps indent) ::
      dumpsFields indent fields

end

def stripped (value : String) : String := String.ofList (strip value)

/-- `value.rstrip()`. -/
def rstripped (value : String) : String :=
  String.ofList (value.toList.reverse.dropWhile (inRanges spaceRanges)).reverse

/-- `reference.split(".")`. -/
def splitDots (reference : String) : List String := (reference.toList.splitOn '.').map String.ofList

/-- A text that stripping leaves alone, and that is not empty. -/
structure Trimmed (text : String) : Prop where
  nonempty : strip text ≠ []
  fixed : stripped text = text

theorem dropWhile_eq_self {α : Type} {p : α → Bool} {l : List α} (h : ∀ a ∈ l.head?, p a = false) :
    l.dropWhile p = l := by
  cases l with
  | nil => rfl
  | cons a l => rw [List.dropWhile_cons, h a rfl, if_neg Bool.false_ne_true]

theorem head?_dropWhile {α : Type} {p : α → Bool} {l : List α} : ∀ a ∈ (l.dropWhile p).head?, p a = false := by
  intro a ha
  have hnot := List.head?_dropWhile_not p l
  rw [ha] at hnot
  exact hnot

/-- Stripping both ends once is enough. -/
theorem stripBy_stripBy {α : Type} (p : α → Bool) (l : List α) :
    ((((l.dropWhile p).reverse.dropWhile p).reverse.dropWhile p).reverse.dropWhile p).reverse =
      ((l.dropWhile p).reverse.dropWhile p).reverse := by
  have hfront := @head?_dropWhile _ p l
  generalize l.dropWhile p = front at hfront ⊢
  have hback := @head?_dropWhile _ p front.reverse
  have hsuffix := List.dropWhile_suffix (l := front.reverse) p
  generalize front.reverse.dropWhile p = back at hback hsuffix ⊢
  have hprefix : back.reverse <+: front := List.reverse_reverse front ▸ List.reverse_prefix.mpr hsuffix
  have hhead : ∀ a ∈ back.reverse.head?, p a = false := by
    intro a ha
    rcases hprefix with ⟨rest, rfl⟩
    apply hfront
    rw [List.head?_append, ha]
    rfl
  rw [dropWhile_eq_self hhead, List.reverse_reverse, dropWhile_eq_self hback]

theorem strip_stripped (value : String) : strip (stripped value) = strip value := by
  unfold stripped
  rw [strip, String.toList_ofList]
  exact stripBy_stripBy (inRanges spaceRanges) value.toList

theorem trimmed_stripped {value : String} (h : strip value ≠ []) : Trimmed (stripped value) where
  nonempty := by
    rw [strip_stripped]
    exact h
  fixed := by
    rw [stripped, strip_stripped, stripped]

/-! ## Mappings -/

namespace Fields

/-- `d.get(k)`. -/
def get? (d : Fields) (k : String) : Option Value := List.lookup k d

/-- `d[k] = v`: a key that is present keeps its position. -/
def set : Fields → String → Value → Fields
  | [], k, v => [(k, v)]
  | item :: d, k, v => if item.1 = k then (k, v) :: d else item :: set d k v

/-- `sorted(set(d) - allowed)`. -/
def unsupported (d : Fields) (allowed : List String) : List String :=
  ((d.map (·.1)).dedup.filter (· ∉ allowed)).insertionSort (· ≤ ·)

variable {d : Fields} {k k' : String} {v : Value}

theorem get?_cons {item : String × Value} : get? (item :: d) k = if item.1 = k then some item.2 else get? d k := by
  unfold get?
  rw [List.lookup_cons]
  by_cases hk : item.1 = k
  · rw [if_pos hk, beq_iff_eq.mpr hk.symm]
  · rw [if_neg hk, beq_eq_false_iff_ne.mpr (Ne.symm hk)]

@[simp] theorem get?_set : get? (set d k v) k' = if k = k' then some v else get? d k' := by
  induction d with
  | nil => rw [set, get?_cons]
  | cons item d ih =>
    rw [set]
    by_cases hitem : item.1 = k
    · rw [if_pos hitem, get?_cons, get?_cons, hitem]
      by_cases hk : k = k' <;> simp [hk]
    · rw [if_neg hitem, get?_cons, ih, get?_cons]
      by_cases hk : item.1 = k'
      · have hne : k ≠ k' := fun h => hitem (hk.trans h.symm)
        rw [if_pos hk, if_neg hne, if_pos hk]
      · rw [if_neg hk, if_neg hk]

/-- Setting what is there changes nothing. -/
theorem set_self (h : get? d k = some v) : set d k v = d := by
  induction d with
  | nil => cases h
  | cons item d ih =>
    rw [get?_cons] at h
    rw [set]
    by_cases hitem : item.1 = k
    · rw [if_pos hitem, Option.some.injEq] at h
      rw [if_pos hitem, ← hitem, ← h]
    · rw [if_neg hitem] at h
      rw [if_neg hitem, ih h]

theorem mem_keys_set : k' ∈ (set d k v).map (·.1) ↔ k' = k ∨ k' ∈ d.map (·.1) := by
  induction d with
  | nil => simp [set]
  | cons item d ih =>
    rw [set]
    by_cases hitem : item.1 = k
    · rw [if_pos hitem, List.map_cons, List.map_cons, List.mem_cons, List.mem_cons, hitem, or_self_left]
    · rw [if_neg hitem, List.map_cons, List.map_cons, List.mem_cons, List.mem_cons, ih, or_left_comm]

theorem mem_keys : k ∈ d.map (·.1) ↔ ∃ v, get? d k = some v := by
  induction d with
  | nil => simp [get?]
  | cons item d ih =>
    rw [List.map_cons, List.mem_cons, ih, get?_cons]
    by_cases hitem : item.1 = k
    · simp [hitem]
    · simp [hitem, Ne.symm hitem]

theorem unsupported_eq_nil {allowed : List String} : unsupported d allowed = [] ↔ ∀ k ∈ d.map (·.1), k ∈ allowed := by
  unfold unsupported
  rw [← List.length_eq_zero_iff, List.length_insertionSort, List.length_eq_zero_iff, List.filter_eq_nil_iff]
  simp

end Fields

end MindRoom.DynamicWorkflow
