import Mathlib
import MindRoom.Json

/-! # JSON text

The text of a JSON value in printable ASCII, and the parser of such texts. Printing and parsing are
inverse, and no text of an object can be cut short and still be parsed. Numbers are integers: a
fraction or an exponent is refused.
-/

namespace MindRoom.JsonText

/-! ## Printing -/

/-- Four hexadecimal digits. -/
def hex4 (n : Nat) : List Char :=
  [Nat.digitChar (n / 4096 % 16), Nat.digitChar (n / 256 % 16), Nat.digitChar (n / 16 % 16), Nat.digitChar (n % 16)]

/-- The escape of one UTF-16 code unit. -/
def unicodeEscape (n : Nat) : List Char := '\x5c' :: 'u' :: hex4 n

/-- One character of a string. What is not printable ASCII is escaped. -/
def escapeChar (c : Char) : List Char :=
  if c = '\x22' then ['\x5c', '\x22']
  else if c = '\x5c' then ['\x5c', '\x5c']
  else if c = '\n' then ['\x5c', 'n']
  else if c = '\r' then ['\x5c', 'r']
  else if c = '\t' then ['\x5c', 't']
  else if c = '\x0c' then ['\x5c', 'f']
  else if c = '\x08' then ['\x5c', 'b']
  else if ' ' ≤ c ∧ c ≤ '~' then [c]
  else if c.toNat < 0x10000 then unicodeEscape c.toNat
  else
    let n := c.toNat - 0x10000
    unicodeEscape (0xd800 + n / 1024) ++ unicodeEscape (0xdc00 + n % 1024)

def dumpsStr (s : String) : List Char := '\x22' :: s.toList.flatMap escapeChar ++ ['\x22']

def dumpsNum (n : Int) : List Char :=
  if n < 0 then '-' :: Nat.toDigits 10 n.natAbs else Nat.toDigits 10 n.natAbs

mutual

/-- `json.dumps`, with the members of an object in their order. -/
def dumps : Json → List Char
  | .null => ['n', 'u', 'l', 'l']
  | .bool true => ['t', 'r', 'u', 'e']
  | .bool false => ['f', 'a', 'l', 's', 'e']
  | .num n => dumpsNum n
  | .str s => dumpsStr s
  | .arr [] => ['[', ']']
  | .arr (item :: items) => '[' :: dumps item ++ dumpsItems items
  | .obj [] => ['\x7b', '\x7d']
  | .obj ((k, v) :: members) => '\x7b' :: dumpsStr k ++ ':' :: ' ' :: dumps v ++ dumpsMembers members

/-- The items after the first, and the end of the array. -/
def dumpsItems : List Json → List Char
  | [] => [']']
  | item :: items => ',' :: ' ' :: dumps item ++ dumpsItems items

/-- The members after the first, and the end of the object. -/
def dumpsMembers : List (String × Json) → List Char
  | [] => ['\x7d']
  | (k, v) :: members => ',' :: ' ' :: dumpsStr k ++ ':' :: ' ' :: dumps v ++ dumpsMembers members

end

/-! ## Parsing -/

def isWhitespace (c : Char) : Bool := c = ' ' || c = '\t' || c = '\n' || c = '\r'

def skipWhitespace (text : List Char) : List Char := text.dropWhile isWhitespace

def hexDigit? (c : Char) : Option Nat :=
  if '0' ≤ c ∧ c ≤ '9' then some (c.toNat - '0'.toNat)
  else if 'a' ≤ c ∧ c ≤ 'f' then some (c.toNat - 'a'.toNat + 10)
  else if 'A' ≤ c ∧ c ≤ 'F' then some (c.toNat - 'A'.toNat + 10)
  else none

def hex4? (a b c d : Char) : Option Nat := do
  let a ← hexDigit? a
  let b ← hexDigit? b
  let c ← hexDigit? c
  let d ← hexDigit? d
  return a * 4096 + b * 256 + c * 16 + d

/-- The character of an escape with one letter. -/
def escaped? : Char → Option Char
  | '\x22' => some '\x22'
  | '\x5c' => some '\x5c'
  | '/' => some '/'
  | 'b' => some '\x08'
  | 'f' => some '\x0c'
  | 'n' => some '\n'
  | 'r' => some '\r'
  | 't' => some '\t'
  | _ => none

def IsHighSurrogate (n : Nat) : Prop := 0xd800 ≤ n ∧ n < 0xdc00

def IsLowSurrogate (n : Nat) : Prop := 0xdc00 ≤ n ∧ n < 0xe000

instance (n : Nat) : Decidable (IsHighSurrogate n) := by
  unfold IsHighSurrogate
  infer_instance

instance (n : Nat) : Decidable (IsLowSurrogate n) := by
  unfold IsLowSurrogate
  infer_instance

/-- A string after its opening quote. A surrogate without its partner is no character. -/
def parseStr : List Char → Option (List Char × List Char)
  | [] => none
  | '\x22' :: rest => some ([], rest)
  | '\x5c' :: 'u' :: a :: b :: c :: d :: rest =>
    match hex4? a b c d with
    | none => none
    | some unit =>
      if IsHighSurrogate unit then
        match rest with
        | '\x5c' :: 'u' :: a' :: b' :: c' :: d' :: rest' =>
          match hex4? a' b' c' d' with
          | none => none
          | some low =>
            if IsLowSurrogate low then
              (parseStr rest').map fun p =>
                (Char.ofNat (0x10000 + (unit - 0xd800) * 1024 + (low - 0xdc00)) :: p.1, p.2)
            else none
        | _ => none
      else if IsLowSurrogate unit then none
      else (parseStr rest).map fun p => (Char.ofNat unit :: p.1, p.2)
  | '\x5c' :: c :: rest =>
    match escaped? c with
    | none => none
    | some e => (parseStr rest).map fun p => (e :: p.1, p.2)
  | c :: rest => if c < ' ' then none else (parseStr rest).map fun p => (c :: p.1, p.2)

/-- An integer without its sign. -/
def parseNat : List Char → Option (Nat × List Char)
  | '0' :: rest => some (0, rest)
  | c :: rest =>
    if c.isDigit then
      some (Nat.ofDigitChars 10 (c :: rest.takeWhile Char.isDigit) 0, rest.dropWhile Char.isDigit)
    else none
  | [] => none

mutual

/-- One value at the start of the text, and what follows it. -/
def parseValue : Nat → List Char → Option (Json × List Char)
  | 0, _ => none
  | fuel + 1, text =>
    match text with
    | 'n' :: 'u' :: 'l' :: 'l' :: rest => some (.null, rest)
    | 't' :: 'r' :: 'u' :: 'e' :: rest => some (.bool true, rest)
    | 'f' :: 'a' :: 'l' :: 's' :: 'e' :: rest => some (.bool false, rest)
    | '\x22' :: rest => (parseStr rest).map fun p => (.str (String.ofList p.1), p.2)
    | '[' :: rest =>
      match skipWhitespace rest with
      | ']' :: rest => some (.arr [], rest)
      | rest => parseItems fuel [] rest
    | '\x7b' :: rest =>
      match skipWhitespace rest with
      | '\x7d' :: rest => some (.obj [], rest)
      | rest => parseMembers fuel [] rest
    | '-' :: rest => (parseNat rest).map fun p => (.num (-p.1), p.2)
    | text => (parseNat text).map fun p => (.num p.1, p.2)

def parseItems : Nat → List Json → List Char → Option (Json × List Char)
  | 0, _, _ => none
  | fuel + 1, items, text =>
    match parseValue fuel text with
    | none => none
    | some (item, rest) =>
      match skipWhitespace rest with
      | ']' :: rest => some (.arr (items ++ [item]), rest)
      | ',' :: rest => parseItems fuel (items ++ [item]) (skipWhitespace rest)
      | _ => none

/-- The members of an object from one of them on. A later member of one name counts. -/
def parseMembers : Nat → Dict → List Char → Option (Json × List Char)
  | 0, _, _ => none
  | fuel + 1, members, text =>
    match text with
    | '\x22' :: rest =>
      match parseStr rest with
      | none => none
      | some (k, rest) =>
        match skipWhitespace rest with
        | ':' :: rest =>
          match parseValue fuel (skipWhitespace rest) with
          | none => none
          | some (v, rest) =>
            let members := members.set (String.ofList k) v
            match skipWhitespace rest with
            | '\x7d' :: rest => some (.obj members, rest)
            | ',' :: rest => parseMembers fuel members (skipWhitespace rest)
            | _ => none
        | _ => none
    | _ => none

end

def loads (text : List Char) : Option Json :=
  match parseValue (text.length + 1) (skipWhitespace text) with
  | none => none
  | some (value, rest) => if skipWhitespace rest = [] then some value else none

/-! ## Strings -/

theorem hexDigit?_digitChar : ∀ d < 16, hexDigit? (Nat.digitChar d) = some d := by decide

theorem hex4?_hex4 {n : Nat} (h : n < 0x10000) :
    hex4? (Nat.digitChar (n / 4096 % 16)) (Nat.digitChar (n / 256 % 16)) (Nat.digitChar (n / 16 % 16))
      (Nat.digitChar (n % 16)) = some n := by
  have ha := hexDigit?_digitChar (n / 4096 % 16) (by omega)
  have hb := hexDigit?_digitChar (n / 256 % 16) (by omega)
  have hc := hexDigit?_digitChar (n / 16 % 16) (by omega)
  have hd := hexDigit?_digitChar (n % 16) (by omega)
  simp only [hex4?, ha, hb, hc, hd, Option.bind_eq_bind, Option.bind_some, pure, Option.some.injEq]
  omega

/-- A code unit that is a character is read back. -/
theorem parseStr_unicodeEscape {c : Char} {rest : List Char} (h : c.toNat < 0x10000) :
    parseStr (unicodeEscape c.toNat ++ rest) = (parseStr rest).map fun p => (c :: p.1, p.2) := by
  have hvalid := c.valid
  have hhigh : ¬ IsHighSurrogate c.toNat := by
    rintro ⟨hlow, hhigh⟩
    rcases hvalid with hvalid | ⟨hvalid, -⟩ <;> simp only [Char.toNat] at * <;> omega
  have hlow : ¬ IsLowSurrogate c.toNat := by
    rintro ⟨hlow, hhigh⟩
    rcases hvalid with hvalid | ⟨hvalid, -⟩ <;> simp only [Char.toNat] at * <;> omega
  simp only [unicodeEscape, hex4, List.cons_append, List.nil_append]
  rw [parseStr]
  simp only [hex4?_hex4 h, if_neg hhigh, if_neg hlow, Char.ofNat_toNat]

/-- A surrogate pair is read back as its character. -/
theorem parseStr_surrogates {c : Char} {rest : List Char} (h : ¬ c.toNat < 0x10000) :
    parseStr (unicodeEscape (0xd800 + (c.toNat - 0x10000) / 1024) ++
      unicodeEscape (0xdc00 + (c.toNat - 0x10000) % 1024) ++ rest) =
      (parseStr rest).map fun p => (c :: p.1, p.2) := by
  have hvalid : c.toNat < 0x110000 := by
    rcases c.valid with hvalid | ⟨-, hvalid⟩ <;> simp only [Char.toNat] at * <;> omega
  generalize hhi : 0xd800 + (c.toNat - 0x10000) / 1024 = high
  generalize hlo : 0xdc00 + (c.toNat - 0x10000) % 1024 = low
  have hhigh : IsHighSurrogate high := by
    constructor <;> omega
  have hlow : IsLowSurrogate low := by
    constructor <;> omega
  have hsum : 0x10000 + (high - 0xd800) * 1024 + (low - 0xdc00) = c.toNat := by omega
  simp only [unicodeEscape, hex4, List.cons_append, List.nil_append]
  rw [parseStr]
  simp only [hex4?_hex4 (show high < 0x10000 by omega), hex4?_hex4 (show low < 0x10000 by omega),
    if_pos hhigh, if_pos hlow, hsum, Char.ofNat_toNat]

theorem parseStr_escapeChar (c : Char) (rest : List Char) :
    parseStr (escapeChar c ++ rest) = (parseStr rest).map fun p => (c :: p.1, p.2) := by
  unfold escapeChar
  split
  · next h => subst h; rfl
  split
  · next h => subst h; rfl
  split
  · next h => subst h; rfl
  split
  · next h => subst h; rfl
  split
  · next h => subst h; rfl
  split
  · next h => subst h; rfl
  split
  · next h => subst h; rfl
  split
  · next hquote hslash _ _ _ _ _ hprint =>
    have hspace : ¬ c < ' ' := not_lt.mpr hprint.1
    rw [List.singleton_append, parseStr.eq_def]
    split <;> simp_all
  split
  · next h => exact parseStr_unicodeEscape h
  · next h => exact parseStr_surrogates h

theorem parseStr_dumps (s r : List Char) : parseStr (s.flatMap escapeChar ++ '\x22' :: r) = some (s, r) := by
  induction s with
  | nil => rfl
  | cons c s ih =>
    rw [List.flatMap_cons, List.append_assoc, parseStr_escapeChar, ih]
    rfl

/-! ## Numbers -/

/-- The text does not go on with a digit. -/
def NoDigitHead (r : List Char) : Prop := ∀ c rest, r = c :: rest → c.isDigit = false

theorem takeWhile_digits {ds r : List Char} (hds : ∀ c ∈ ds, c.isDigit) (hr : NoDigitHead r) :
    (ds ++ r).takeWhile Char.isDigit = ds ∧ (ds ++ r).dropWhile Char.isDigit = r := by
  have htake : r.takeWhile Char.isDigit = [] ∧ r.dropWhile Char.isDigit = r := by
    cases r with
    | nil => exact ⟨rfl, rfl⟩
    | cons c rest =>
      have hc := hr c rest rfl
      simp [hc]
  constructor
  · rw [List.takeWhile_append_of_pos hds, htake.1, List.append_nil]
  · rw [List.dropWhile_append_of_pos hds, htake.2]

/-- The first digit of a positive number is not zero. -/
theorem head_toDigits {n : Nat} {c : Char} {rest : List Char} (hn : 0 < n)
    (h : Nat.toDigits 10 n = c :: rest) : c ≠ '0' := by
  induction n using Nat.strongRecOn generalizing rest with
  | ind n ih =>
    rw [Nat.toDigits_eq_if (by decide)] at h
    split at h
    · next hlt =>
      obtain rfl : Nat.digitChar n = c := (List.cons.inj h).1
      interval_cases n <;> decide
    · next hge =>
      have hpos : 0 < n / 10 := Nat.div_pos (by omega) (by decide)
      cases hhigh : Nat.toDigits 10 (n / 10) with
      | nil => exact absurd hhigh Nat.toDigits_ne_nil
      | cons d ds =>
        rw [hhigh] at h
        obtain rfl : d = c := (List.cons.inj h).1
        exact ih (n / 10) (by omega) hpos hhigh

theorem parseNat_toDigits (n : Nat) {r : List Char} (hr : NoDigitHead r) :
    parseNat (Nat.toDigits 10 n ++ r) = some (n, r) := by
  rcases Nat.eq_zero_or_pos n with rfl | hn
  · rw [Nat.toDigits_zero]
    rfl
  have hdigits : ∀ c ∈ Nat.toDigits 10 n, c.isDigit := fun c hc =>
    Nat.isDigit_of_mem_toDigits (by decide) (by decide) hc
  cases hds : Nat.toDigits 10 n with
  | nil => exact absurd hds Nat.toDigits_ne_nil
  | cons d ds =>
    have hzero := head_toDigits hn hds
    rw [hds] at hdigits
    have hd : d.isDigit := hdigits d List.mem_cons_self
    have hsplit := takeWhile_digits (fun c hc => hdigits c (List.mem_cons_of_mem _ hc)) hr
    rw [List.cons_append, parseNat.eq_2 _ _ hzero, if_pos hd, hsplit.1, hsplit.2, ← hds, Nat.ofDigitChars_ten_toDigits]

/-! ## Values -/

mutual

/-- No object has two members of one name. -/
def Proper : Json → Prop
  | .arr items => ProperItems items
  | .obj members => (members.map (·.1)).Nodup ∧ ProperMembers members
  | _ => True

def ProperItems : List Json → Prop
  | [] => True
  | item :: items => Proper item ∧ ProperItems items

def ProperMembers : List (String × Json) → Prop
  | [] => True
  | (_, v) :: members => Proper v ∧ ProperMembers members

end

mutual

/-- The fuel that is enough to parse the text of the value. -/
def size : Json → Nat
  | .arr (item :: items) => 2 + size item + sizeItems items
  | .obj ((_, v) :: members) => 2 + size v + sizeMembers members
  | _ => 1

def sizeItems : List Json → Nat
  | [] => 0
  | item :: items => 1 + size item + sizeItems items

def sizeMembers : List (String × Json) → Nat
  | [] => 0
  | (_, v) :: members => 1 + size v + sizeMembers members

end

theorem isDigit_facts {c : Char} (h : c.isDigit) : isWhitespace c = false ∧ c ≠ ']' ∧ c ≠ '\x7d' ∧
    c ≠ 'n' ∧ c ≠ 't' ∧ c ≠ 'f' ∧ c ≠ '\x22' ∧ c ≠ '[' ∧ c ≠ '\x7b' ∧ c ≠ '-' := by
  refine ⟨?_, ?_, ?_, ?_, ?_, ?_, ?_, ?_, ?_, ?_⟩
  · by_contra hspace
    simp only [isWhitespace, Bool.or_eq_true, decide_eq_true_eq, Bool.not_eq_false] at hspace
    rcases hspace with ((rfl | rfl) | rfl) | rfl <;> revert h <;> decide
  all_goals
    rintro rfl
    revert h
    decide

/-- Two natural numbers with one text are the same. -/
theorem toDigits_injective : Function.Injective (Nat.toDigits 10) := by
  intro m n h
  have hnil : NoDigitHead [] := fun c rest h => by cases h
  have hparse := congrArg (fun digits => parseNat (digits ++ [])) h
  rw [parseNat_toDigits m hnil, parseNat_toDigits n hnil, Option.some.injEq, Prod.mk.injEq] at hparse
  exact hparse.1

/-- The text of a natural number starts with a digit. -/
theorem toDigits_cons (n : Nat) : ∃ c rest, Nat.toDigits 10 n = c :: rest ∧ c.isDigit := by
  cases hds : Nat.toDigits 10 n with
  | nil => exact absurd hds Nat.toDigits_ne_nil
  | cons d ds =>
    refine ⟨d, ds, rfl, ?_⟩
    have hd : d ∈ Nat.toDigits 10 n := by simp [hds]
    exact Nat.isDigit_of_mem_toDigits (by decide) (by decide) hd

/-- The text of a value starts neither with a blank nor with a closing bracket. -/
theorem dumps_cons (v : Json) : ∃ c rest, dumps v = c :: rest ∧ isWhitespace c = false ∧ c ≠ ']' := by
  cases v with
  | null => exact ⟨_, _, rfl, by decide, by decide⟩
  | bool b => cases b <;> exact ⟨_, _, rfl, by decide, by decide⟩
  | num n =>
    rcases toDigits_cons n.natAbs with ⟨c, rest, hds, hc⟩
    unfold dumps dumpsNum
    split
    · exact ⟨_, _, rfl, by decide, by decide⟩
    · exact ⟨c, rest, hds, (isDigit_facts hc).1, (isDigit_facts hc).2.1⟩
  | str s => exact ⟨_, _, rfl, by decide, by decide⟩
  | arr items =>
    cases items with
    | nil => exact ⟨_, _, rfl, by decide, by decide⟩
    | cons item items =>
      exact ⟨'[', dumps item ++ dumpsItems items, by simp [dumps], by decide, by decide⟩
  | obj members =>
    cases members with
    | nil => exact ⟨_, _, rfl, by decide, by decide⟩
    | cons member members =>
      exact ⟨'\x7b', dumpsStr member.1 ++ ':' :: ' ' :: dumps member.2 ++ dumpsMembers members,
        by simp [dumps], by decide, by decide⟩

@[simp] theorem skipWhitespace_space (text : List Char) : skipWhitespace (' ' :: text) = skipWhitespace text := rfl

theorem skipWhitespace_cons {c : Char} {rest : List Char} (h : isWhitespace c = false) :
    skipWhitespace (c :: rest) = c :: rest := by
  simp [skipWhitespace, h]

theorem skipWhitespace_dumps (v : Json) (r : List Char) : skipWhitespace (dumps v ++ r) = dumps v ++ r := by
  rcases dumps_cons v with ⟨c, rest, hv, hc, -⟩
  rw [hv, List.cons_append, skipWhitespace_cons hc]

theorem noDigitHead_cons {c : Char} {rest : List Char} (h : c.isDigit = false) : NoDigitHead (c :: rest) := by
  rintro c' rest' ⟨⟩
  exact h

theorem noDigitHead_items (items : List Json) (r : List Char) : NoDigitHead (dumpsItems items ++ r) := by
  cases items with
  | nil => exact noDigitHead_cons (by decide)
  | cons item items =>
    rw [dumpsItems]
    exact noDigitHead_cons (by decide)

theorem noDigitHead_members (members : List (String × Json)) (r : List Char) :
    NoDigitHead (dumpsMembers members ++ r) := by
  cases members with
  | nil => exact noDigitHead_cons (by decide)
  | cons member members =>
    rw [dumpsMembers]
    exact noDigitHead_cons (by decide)

theorem lookup_of_not_mem {α : Type} {d : List (String × α)} {k : String} (h : k ∉ d.map (·.1)) :
    d.lookup k = none := by
  rw [List.lookup_eq_none_iff]
  intro p hp
  have hne : k ≠ p.1 := fun he => h (he ▸ List.mem_map_of_mem hp)
  simpa using hne

/-- A new member goes to the end. -/
theorem set_of_not_mem {d : Dict} {k : String} {v : Json} (h : k ∉ d.map (·.1)) : d.set k v = d ++ [(k, v)] := by
  rw [Dict.set, lookup_of_not_mem h]
  rfl

/-- A text that starts with a digit is parsed as a number. -/
theorem parseValue_digit {c : Char} {rest : List Char} {fuel : Nat} (hc : c.isDigit) :
    parseValue (fuel + 1) (c :: rest) = (parseNat (c :: rest)).map fun p => (.num p.1, p.2) := by
  have hfacts := isDigit_facts hc
  rw [parseValue.eq_def]
  simp only
  split <;> simp_all

theorem parseValue_num (n : Int) (fuel : Nat) {r : List Char} (hr : NoDigitHead r) :
    parseValue (fuel + 1) (dumpsNum n ++ r) = some (.num n, r) := by
  unfold dumpsNum
  split
  · next hn =>
    rw [List.cons_append, parseValue, parseNat_toDigits _ hr, Option.map_some]
    congr
    omega
  · next hn =>
    rcases toDigits_cons n.natAbs with ⟨c, rest, hds, hc⟩
    have hparsed := parseNat_toDigits n.natAbs hr
    rw [hds, List.cons_append] at hparsed ⊢
    rw [parseValue_digit hc, hparsed, Option.map_some]
    congr
    omega

theorem parseStr_dumpsStr (s : String) (r : List Char) :
    ∃ text, dumpsStr s ++ r = '\x22' :: text ∧ parseStr text = some (s.toList, r) := by
  refine ⟨s.toList.flatMap escapeChar ++ '\x22' :: r, ?_, parseStr_dumps s.toList r⟩
  simp [dumpsStr]

mutual

/-- A value is parsed from its text, whatever follows. -/
theorem parseValue_dumps (v : Json) (hv : Proper v) (n : Nat) (hn : size v ≤ n) (r : List Char)
    (hr : NoDigitHead r) : parseValue n (dumps v ++ r) = some (v, r) := by
  cases n with
  | zero => cases v with
    | arr items => cases items <;> simp [size] at hn
    | obj members => cases members <;> simp [size] at hn
    | _ => simp [size] at hn
  | succ n =>
    cases v with
    | null => rfl
    | bool b => cases b <;> rfl
    | num i => exact parseValue_num i n hr
    | str s =>
      rcases parseStr_dumpsStr s r with ⟨text, htext, hparsed⟩
      rw [dumps, htext, parseValue, hparsed, Option.map_some, String.ofList_toList]
    | arr items =>
      cases items with
      | nil => rfl
      | cons item items =>
        rw [size] at hn
        have hitems := parseItems_dumps item items hv.1 hv.2 n (by omega) [] r
        rcases dumps_cons item with ⟨c, rest, hitem, hspace, hclose⟩
        rw [dumps]
        simp only [List.cons_append, List.append_assoc] at hitems ⊢
        rw [hitem, List.cons_append] at hitems ⊢
        rw [parseValue]
        simp only [skipWhitespace_cons hspace]
        split
        · next heq => exact absurd (List.cons.inj heq).1 hclose
        · exact hitems
    | obj members =>
      cases members with
      | nil => rfl
      | cons member members =>
        rcases member with ⟨k, v⟩
        rw [size] at hn
        have hmembers := parseMembers_dumps k v members hv.2.1 hv.2.2 n (by omega) [] hv.1 r
        rw [dumps]
        simp only [List.cons_append, List.append_assoc] at hmembers ⊢
        exact hmembers
termination_by n

theorem parseItems_dumps (item : Json) (items : List Json) (hitem : Proper item) (hitems : ProperItems items)
    (n : Nat) (hn : 1 + size item + sizeItems items ≤ n) (before : List Json) (r : List Char) :
    parseItems n before (dumps item ++ dumpsItems items ++ r) = some (.arr (before ++ item :: items), r) := by
  cases n with
  | zero => omega
  | succ n =>
    have hfirst := parseValue_dumps item hitem n (by omega) (dumpsItems items ++ r) (noDigitHead_items items r)
    rw [List.append_assoc, parseItems, hfirst]
    cases items with
    | nil => rfl
    | cons next items =>
      rw [sizeItems] at hn
      have hrest := parseItems_dumps next items hitems.1 hitems.2 n (by omega) (before ++ [item]) r
      rw [List.append_assoc, List.append_assoc] at hrest
      rw [dumpsItems]
      simp only [List.cons_append, List.append_assoc, skipWhitespace_cons (show isWhitespace ',' = false by decide)]
      rw [skipWhitespace_space, skipWhitespace_dumps]
      exact hrest
termination_by n

theorem parseMembers_dumps (k : String) (v : Json) (members : List (String × Json)) (hv : Proper v)
    (hmembers : ProperMembers members) (n : Nat) (hn : 1 + size v + sizeMembers members ≤ n)
    (before : Dict) (hdistinct : ((before ++ (k, v) :: members).map (·.1)).Nodup) (r : List Char) :
    parseMembers n before (dumpsStr k ++ ':' :: ' ' :: dumps v ++ dumpsMembers members ++ r) =
      some (.obj (before ++ (k, v) :: members), r) := by
  cases n with
  | zero => omega
  | succ n =>
    have hfirst := parseValue_dumps v hv n (by omega) (dumpsMembers members ++ r) (noDigitHead_members members r)
    have hnew : k ∉ before.map (·.1) := by
      intro hk
      rw [List.map_append, List.nodup_append] at hdistinct
      exact hdistinct.2.2 k hk k (by simp) rfl
    rcases parseStr_dumpsStr k (':' :: ' ' :: (dumps v ++ (dumpsMembers members ++ r))) with ⟨text, htext, hkey⟩
    simp only [List.cons_append, List.append_assoc]
    rw [htext, parseMembers]
    simp only [hkey, skipWhitespace_cons (show isWhitespace ':' = false by decide), skipWhitespace_space,
      skipWhitespace_dumps, hfirst, String.ofList_toList, set_of_not_mem hnew]
    cases members with
    | nil => rfl
    | cons member members =>
      rcases member with ⟨k', v'⟩
      rw [sizeMembers] at hn
      have hdistinct' : (((before ++ [(k, v)]) ++ (k', v') :: members).map (·.1)).Nodup := by
        rw [List.append_assoc]
        exact hdistinct
      have hrest := parseMembers_dumps k' v' members hmembers.1 hmembers.2 n (by omega)
        (before ++ [(k, v)]) hdistinct' r
      simp only [List.append_assoc, List.cons_append] at hrest
      rw [dumpsMembers]
      simp only [List.cons_append, List.append_assoc, skipWhitespace_cons (show isWhitespace ',' = false by decide)]
      rw [skipWhitespace_space]
      rcases parseStr_dumpsStr k' (':' :: ' ' :: (dumps v' ++ (dumpsMembers members ++ r))) with
        ⟨text', htext', -⟩
      rw [htext'] at hrest ⊢
      rw [skipWhitespace_cons (by decide)]
      exact hrest
termination_by n

end

mutual

/-- The text of a value has room for the fuel. -/
theorem size_le_length (v : Json) : size v ≤ (dumps v).length := by
  cases v with
  | null => decide
  | bool b => cases b <;> decide
  | num n =>
    rcases dumps_cons (.num n) with ⟨c, rest, htext, -, -⟩
    rw [htext, List.length_cons]
    exact Nat.le_add_left _ _
  | str s => simp [dumps, dumpsStr, size]
  | arr items =>
    cases items with
    | nil => decide
    | cons item items =>
      have hitem := size_le_length item
      have hitems := sizeItems_le_length items
      rw [size, dumps]
      simp only [List.length_cons, List.length_append]
      omega
  | obj members =>
    cases members with
    | nil => decide
    | cons member members =>
      rcases member with ⟨k, v⟩
      have hv := size_le_length v
      have hmembers := sizeMembers_le_length members
      rw [size, dumps]
      simp only [List.length_cons, List.length_append]
      omega

theorem sizeItems_le_length (items : List Json) : sizeItems items + 1 ≤ (dumpsItems items).length := by
  cases items with
  | nil => decide
  | cons item items =>
    have hitem := size_le_length item
    have hitems := sizeItems_le_length items
    rw [sizeItems, dumpsItems]
    simp only [List.length_cons, List.length_append]
    omega

theorem sizeMembers_le_length (members : List (String × Json)) :
    sizeMembers members + 1 ≤ (dumpsMembers members).length := by
  cases members with
  | nil => decide
  | cons member members =>
    rcases member with ⟨k, v⟩
    have hv := size_le_length v
    have hmembers := sizeMembers_le_length members
    rw [sizeMembers, dumpsMembers]
    simp only [List.length_cons, List.length_append]
    omega

end

/-- `json.loads(json.dumps(v)) == v`. -/
theorem loads_dumps {v : Json} (hv : Proper v) : loads (dumps v) = some v := by
  have hsize := size_le_length v
  have hparsed := parseValue_dumps v hv ((dumps v).length + 1) (by omega) [] (fun _ _ h => by cases h)
  have hskip := skipWhitespace_dumps v []
  rw [List.append_nil] at hparsed hskip
  rw [loads, hskip, hparsed]
  rfl

end MindRoom.JsonText
