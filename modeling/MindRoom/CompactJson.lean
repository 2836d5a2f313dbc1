import MindRoom.MetadataMerge

/-! # The size of compact JSON

The text of a JSON value without blanks, and what its length comes to: an object is as long as its members
and what stands between them. So an object grows with its members, in whatever order they stand.
-/

namespace MindRoom

namespace JsonText

mutual

/-- `json.dumps` with the separators `,` and `:`, the members of an object in their order. -/
def compact : Json → List Char
  | .null => ['n', 'u', 'l', 'l']
  | .bool true => ['t', 'r', 'u', 'e']
  | .bool false => ['f', 'a', 'l', 's', 'e']
  | .num n => dumpsNum n
  | .str s => dumpsStr s
  | .arr [] => ['[', ']']
  | .arr (item :: items) => '[' :: compact item ++ compactItems items
  | .obj [] => ['\x7b', '\x7d']
  | .obj ((k, v) :: members) => '\x7b' :: dumpsStr k ++ ':' :: compact v ++ compactMembers members

/-- The items after the first, and the end of the array. -/
def compactItems : List Json → List Char
  | [] => [']']
  | item :: items => ',' :: compact item ++ compactItems items

/-- The members after the first, and the end of the object. -/
def compactMembers : List (String × Json) → List Char
  | [] => ['\x7d']
  | (k, v) :: members => ',' :: dumpsStr k ++ ':' :: compact v ++ compactMembers members

end

def memberSize (size : Json → Nat) (member : String × Json) : Nat := size (.str member.1) + 1 + size member.2

/-- A measure of JSON texts in which an object is its members, a comma between each two, and its braces. -/
structure CompactSize (size : Json → Nat) : Prop where
  obj : ∀ members, size (.obj members) = 2 + (members.map (memberSize size)).sum + (members.length - 1)

/-- The number of characters. -/
def compactLength (v : Json) : Nat := (compact v).length

theorem length_compactMembers (members : List (String × Json)) :
    (compactMembers members).length = 1 + (members.map (memberSize compactLength)).sum + members.length := by
  induction members with
  | nil => rfl
  | cons member members ih =>
    rw [compactMembers, List.map_cons, List.sum_cons]
    simp only [List.cons_append, List.length_cons, List.length_append, ih, memberSize, compactLength, compact]
    omega

theorem compactSize_compactLength : CompactSize compactLength where
  obj := by
    intro members
    cases members with
    | nil => rfl
    | cons member members =>
      rw [compactLength, compact, List.map_cons, List.sum_cons]
      simp only [List.cons_append, List.length_cons, List.length_append, length_compactMembers, memberSize,
        compactLength, compact]
      omega

section

variable {size : Json → Nat} (h : CompactSize size)

include h

/-- An object is at least as long as one with some of its members. -/
theorem CompactSize.sublist {few members : List (String × Json)} (hfew : few.Sublist members) :
    size (.obj few) ≤ size (.obj members) := by
  rw [h.obj, h.obj]
  have hsum := (hfew.map (memberSize size)).sum_le_sum (fun _ _ => Nat.zero_le _)
  have hlength := hfew.length_le
  omega

theorem CompactSize.concat (members : List (String × Json)) (member : String × Json) :
    size (.obj (members ++ [member])) ≤ size (.obj members) + memberSize size member + 1 := by
  rw [h.obj, h.obj, List.map_append, List.sum_append, List.length_append]
  simp only [List.map_cons, List.map_nil, List.sum_cons, List.sum_nil, List.length_cons, List.length_nil]
  omega

theorem CompactSize.pair (first second : String × Json) :
    size (.obj [first, second]) = memberSize size first + memberSize size second + 3 := by
  rw [h.obj]
  simp only [List.map_cons, List.map_nil, List.sum_cons, List.sum_nil, List.length_cons, List.length_nil]
  omega

/-- A member that grows makes the object grow. -/
theorem CompactSize.replace (before after : List (String × Json)) {member member' : String × Json}
    (hmember : memberSize size member ≤ memberSize size member') :
    size (.obj (before ++ member :: after)) ≤ size (.obj (before ++ member' :: after)) := by
  rw [h.obj, h.obj]
  simp only [List.map_append, List.map_cons, List.sum_append, List.sum_cons, List.length_append, List.length_cons]
  omega

end

end JsonText

/-! ## Updates -/

namespace Dict

variable {d few entries : Dict} {k k' : String} {v v' : Json}

def update (d entries : Dict) : Dict := entries.foldl (fun d entry => Dict.set d entry.1 entry.2) d

@[simp] theorem update_nil (d : Dict) : Dict.update d [] = d := rfl

theorem update_cons (d : Dict) (entry : String × Json) (entries : Dict) :
    Dict.update d (entry :: entries) = Dict.update (Dict.set d entry.1 entry.2) entries := rfl

/-- The members of other keys stay where they are. -/
theorem sublist_set (hfew : few.Sublist d) (hk : k ∉ few.map (·.1)) : few.Sublist (Dict.set d k v) := by
  unfold Dict.set
  split
  · have hsame : few.map (fun kv => if kv.1 = k then (k, v) else kv) = few := by
      conv_rhs => rw [← List.map_id few]
      refine List.map_congr_left ?_
      intro member hmember
      have hne : member.1 ≠ k := by
        intro heq
        exact hk (List.mem_map.2 ⟨member, hmember, heq⟩)
      simp [hne]
    have hmap := hfew.map (fun kv => if kv.1 = k then (k, v) else kv)
    rwa [hsame] at hmap
  · exact hfew.trans (List.sublist_append_left _ _)

theorem sublist_update (hfew : few.Sublist d) (hentries : ∀ entry ∈ entries, entry.1 ∉ few.map (·.1)) :
    few.Sublist (Dict.update d entries) := by
  induction entries generalizing d with
  | nil => exact hfew
  | cons entry entries ih =>
    rw [update_cons]
    refine ih (sublist_set hfew (hentries entry List.mem_cons_self)) ?_
    intro other hother
    exact hentries other (List.mem_cons_of_mem _ hother)

theorem get?_update : Dict.get? (Dict.update d entries) k = (Dict.get? entries.reverse k).or (Dict.get? d k) := by
  induction entries generalizing d with
  | nil => rfl
  | cons entry entries ih =>
    rw [update_cons, ih, List.reverse_cons, get?_append, get?_set, get?_cons, get?_nil]
    by_cases hk : k = entry.1
    · rw [if_pos hk, if_pos hk, Option.or_assoc]
      rfl
    · rw [if_neg hk, if_neg hk, Option.or_none]

theorem get?_filter (p : String → Bool) :
    Dict.get? (d.filter fun entry => p entry.1) k = if p k then Dict.get? d k else none := by
  induction d with
  | nil => simp
  | cons entry d ih =>
    by_cases hentry : p entry.1 = true
    · rw [List.filter_cons_of_pos (p := fun entry : String × Json => p entry.1) hentry, get?_cons, get?_cons, ih]
      by_cases hk : k = entry.1
      · rw [if_pos hk, if_pos hk, if_pos (by rw [hk]; exact hentry)]
      · rw [if_neg hk, if_neg hk]
    · rw [List.filter_cons_of_neg (p := fun entry : String × Json => p entry.1) hentry, ih, get?_cons]
      by_cases hk : k = entry.1
      · rw [hk, if_neg hentry, if_neg hentry]
      · rw [if_neg hk]

/-- Two writes under different keys, the first of them present, may change places. -/
theorem set_set (hne : k ≠ k') (hpresent : (d.lookup k).isSome) :
    Dict.set (Dict.set d k' v') k v = Dict.set (Dict.set d k v) k' v' := by
  have hk : ((Dict.set d k' v').lookup k).isSome := by
    have hget : Dict.get? (Dict.set d k' v') k = Dict.get? d k := by
      rw [get?_set, if_neg hne]
    exact (congrArg Option.isSome hget).trans hpresent
  have hk' : ((Dict.set d k v).lookup k').isSome = (d.lookup k').isSome := by
    have hget : Dict.get? (Dict.set d k v) k' = Dict.get? d k' := by
      rw [get?_set, if_neg (Ne.symm hne)]
    exact congrArg Option.isSome hget
  rw [Dict.set, if_pos hk]
  conv_rhs => rw [Dict.set]
  rw [hk', Dict.set, Dict.set, if_pos hpresent]
  by_cases hother : (d.lookup k').isSome
  · rw [if_pos hother, if_pos hother, List.map_map, List.map_map]
    refine List.map_congr_left ?_
    intro member _
    by_cases h : member.1 = k
    · simp [h, hne]
    · by_cases h' : member.1 = k'
      · simp [h', Ne.symm hne]
      · simp [h, h']
  · rw [if_neg hother, if_neg hother, List.map_append]
    simp [Ne.symm hne]

/-- A write may come before an update of other keys. -/
theorem set_update (hentries : ∀ entry ∈ entries, entry.1 ≠ k) (hpresent : (d.lookup k).isSome) :
    Dict.set (Dict.update d entries) k v = Dict.update (Dict.set d k v) entries := by
  induction entries generalizing d with
  | nil => rfl
  | cons entry entries ih =>
    have hentry : k ≠ entry.1 := (hentries entry List.mem_cons_self).symm
    have hstill : ((Dict.set d entry.1 entry.2).lookup k).isSome := by
      have hget : Dict.get? (Dict.set d entry.1 entry.2) k = Dict.get? d k := by
        rw [get?_set, if_neg hentry]
      exact (congrArg Option.isSome hget).trans hpresent
    rw [update_cons, update_cons, ih ?_ hstill, set_set hentry hpresent]
    intro other hother
    exact hentries other (List.mem_cons_of_mem _ hother)

end Dict

end MindRoom
