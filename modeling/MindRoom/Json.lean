import Mathlib.Data.List.Sort
import Mathlib.Data.String.Basic

/-! # JSON values and the strings of the host language

Event contents, payloads and snapshots are JSON objects. Text columns that hold an encoded
object are represented by the object itself: `json.dumps` with `sort_keys` is a function of
the value, and `json.loads` gives the value back.
-/

namespace MindRoom

/-- A decoded JSON value. Numbers are the integers canonical Matrix JSON allows. -/
inductive Json where
  | null
  | bool (b : Bool)
  | num (n : Int)
  | str (s : String)
  | arr (items : List Json)
  | obj (fields : List (String × Json))
deriving Inhabited

namespace Json

mutual

/-- Structural equality, decided along the value. -/
def decEq : (a b : Json) → Decidable (a = b)
  | .null, .null => isTrue rfl
  | .bool a, .bool b => decidable_of_iff (a = b) (by simp)
  | .num a, .num b => decidable_of_iff (a = b) (by simp)
  | .str a, .str b => decidable_of_iff (a = b) (by simp)
  | .arr as, .arr bs =>
    match decEqItems as bs with
    | isTrue h => isTrue (by rw [h])
    | isFalse h => isFalse (by simpa using h)
  | .obj as, .obj bs =>
    match decEqFields as bs with
    | isTrue h => isTrue (by rw [h])
    | isFalse h => isFalse (by simpa using h)
  | .null, .bool _ | .null, .num _ | .null, .str _ | .null, .arr _ | .null, .obj _ => isFalse (by simp)
  | .bool _, .null | .bool _, .num _ | .bool _, .str _ | .bool _, .arr _ | .bool _, .obj _ =>
    isFalse (by simp)
  | .num _, .null | .num _, .bool _ | .num _, .str _ | .num _, .arr _ | .num _, .obj _ =>
    isFalse (by simp)
  | .str _, .null | .str _, .bool _ | .str _, .num _ | .str _, .arr _ | .str _, .obj _ =>
    isFalse (by simp)
  | .arr _, .null | .arr _, .bool _ | .arr _, .num _ | .arr _, .str _ | .arr _, .obj _ =>
    isFalse (by simp)
  | .obj _, .null | .obj _, .bool _ | .obj _, .num _ | .obj _, .str _ | .obj _, .arr _ =>
    isFalse (by simp)

def decEqItems : (as bs : List Json) → Decidable (as = bs)
  | [], [] => isTrue rfl
  | [], _ :: _ => isFalse (by simp)
  | _ :: _, [] => isFalse (by simp)
  | a :: as, b :: bs =>
    match decEq a b, decEqItems as bs with
    | isTrue h, isTrue hs => isTrue (by rw [h, hs])
    | isFalse h, _ => isFalse (by simp [h])
    | _, isFalse hs => isFalse (by simp [hs])

def decEqFields : (as bs : List (String × Json)) → Decidable (as = bs)
  | [], [] => isTrue rfl
  | [], _ :: _ => isFalse (by simp)
  | _ :: _, [] => isFalse (by simp)
  | (k, a) :: as, (l, b) :: bs =>
    if hk : k = l then
      match decEq a b, decEqFields as bs with
      | isTrue h, isTrue hs => isTrue (by rw [hk, h, hs])
      | isFalse h, _ => isFalse (by simp [h])
      | _, isFalse hs => isFalse (by simp [hs])
    else isFalse (by simp [hk])

end

instance : DecidableEq Json := decEq

mutual

/-- Equality as the host compares decoded values: the order of object members does not count. -/
def same : (a b : Json) → Bool
  | .obj as, .obj bs => as.length == bs.length && sameFields as bs
  | .arr as, .arr bs => sameItems as bs
  | .null, .null => true
  | .bool a, .bool b => a == b
  | .num a, .num b => a == b
  | .str a, .str b => a == b
  | _, _ => false

def sameItems : (as bs : List Json) → Bool
  | [], [] => true
  | a :: as, b :: bs => same a b && sameItems as bs
  | _, _ => false

def sameFields : (as bs : List (String × Json)) → Bool
  | [], _ => true
  | (k, a) :: as, bs =>
    match bs.lookup k with
    | some b => same a b && sameFields as bs
    | none => false

end

end Json

/-- A JSON object: `Mapping[str, object]`. -/
abbrev Dict := List (String × Json)

namespace Dict

/-- `d.get(k)`. -/
def get? (d : Dict) (k : String) : Option Json := d.lookup k

/-- `d.get(k)` when it is a string. -/
def str? (d : Dict) (k : String) : Option String :=
  match d.get? k with
  | some (.str s) => some s
  | _ => none

/-- `d.get(k)` when it is an object. -/
def obj? (d : Dict) (k : String) : Option Dict :=
  match d.get? k with
  | some (.obj o) => some o
  | _ => none

/-- `d.get(k)` when it is an integer (and not a boolean). -/
def num? (d : Dict) (k : String) : Option Int :=
  match d.get? k with
  | some (.num n) => some n
  | _ => none

/-- A non-empty string under `k`. -/
def nonempty? (d : Dict) (k : String) : Option String :=
  match d.str? k with
  | some s => if s = "" then none else some s
  | none => none

/-- `d.pop(k, None)`, for its effect. -/
def pop (d : Dict) (k : String) : Dict := d.filter (fun kv => kv.1 ≠ k)

/-- `{**d, k: v}`: a key that is present keeps its position. -/
def set (d : Dict) (k : String) (v : Json) : Dict :=
  if (d.lookup k).isSome then d.map (fun kv => if kv.1 = k then (k, v) else kv)
  else d ++ [(k, v)]

/-- `sort_keys` on one level. -/
def sortKeys {α : Type} (d : List (String × α)) : List (String × α) :=
  d.insertionSort (fun a b => a.1 ≤ b.1)

end Dict

/-! ## Strings -/

def endswith (s t : String) : Prop := t.toList.isSuffixOf s.toList = true

def startswith (s t : String) : Prop := t.toList.isPrefixOf s.toList = true

instance (s t : String) : Decidable (endswith s t) := inferInstanceAs (Decidable (_ = true))

instance (s t : String) : Decidable (startswith s t) := inferInstanceAs (Decidable (_ = true))

/-- `k in s`, for substrings. -/
def contains (s k : String) : Prop := k.toList <:+: s.toList

end MindRoom
