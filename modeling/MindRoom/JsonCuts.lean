import MindRoom.JsonText

/-! # JSON texts that are cut short

What the parser accepts it accepts with more text after it, so the text of an object is parsed
whole or not at all. A text of the printer is printable ASCII, in which no line ends. Sorting the
members of an object changes no lookup.
-/

namespace MindRoom.JsonText

/-! ## What is parsed stays parsed -/

theorem parseStr_escaped {c e : Char} {rest : List Char} (he : escaped? c = some e) :
    parseStr ('\x5c' :: c :: rest) = (parseStr rest).map fun p => (e :: p.1, p.2) := by
  have hu : c ≠ 'u' := by
    rintro rfl
    cases he
  rw [parseStr, he]
  rintro a b c' d rest' rfl
  exact absurd rfl hu

theorem parseStr_plain {c : Char} {rest : List Char} (hquote : c ≠ '\x22') (hslash : c ≠ '\x5c')
    (hc : ¬ c < ' ') : parseStr (c :: rest) = (parseStr rest).map fun p => (c :: p.1, p.2) := by
  rw [parseStr.eq_def]
  split <;> simp_all

theorem parseStr_append {text u : List Char} : ∀ {s rest : List Char},
    parseStr text = some (s, rest) → parseStr (text ++ u) = some (s, rest ++ u) := by
  fun_induction parseStr text with
  | case1 | case3 | case4 | case6 | case7 | case8 | case10 | case12 =>
    intro s rest h
    cases h
  | case2 =>
    rintro s rest ⟨⟩
    rfl
  | case5 a b c d unit hunit hhigh a' b' c' d' rest' low hlow hlow' ih =>
    intro s rest h
    rcases Option.map_eq_some_iff.mp h with ⟨⟨s', rest''⟩, hrest, heq⟩
    cases heq
    simp only [List.cons_append]
    rw [parseStr]
    simp [hunit, hhigh, hlow, hlow', ih hrest]
  | case9 a b c d rest' unit hunit hhigh hlow ih =>
    intro s rest h
    rcases Option.map_eq_some_iff.mp h with ⟨⟨s', rest''⟩, hrest, heq⟩
    cases heq
    simp only [List.cons_append]
    rw [parseStr]
    simp [hunit, hhigh, hlow, ih hrest]
  | case11 c rest' hu e he ih =>
    intro s rest h
    rcases Option.map_eq_some_iff.mp h with ⟨⟨s', rest''⟩, hrest, heq⟩
    cases heq
    rw [List.cons_append, List.cons_append, parseStr_escaped he, ih hrest]
    rfl
  | case13 c rest' hquote hunicode hescape hc ih =>
    intro s rest h
    rcases Option.map_eq_some_iff.mp h with ⟨⟨s', rest''⟩, hrest, heq⟩
    cases heq
    have hslash : c ≠ '\x5c' := by
      rintro rfl
      cases rest' with
      | nil => cases hrest
      | cons c' rest' => exact hescape c' rest' rfl rfl
    rw [List.cons_append, parseStr_plain hquote hslash hc, ih hrest]
    rfl

theorem skipWhitespace_append {text u : List Char} (h : skipWhitespace text ≠ []) :
    skipWhitespace (text ++ u) = skipWhitespace text ++ u := by
  induction text with
  | nil => exact absurd rfl h
  | cons c rest ih =>
    by_cases hc : isWhitespace c
    · have hstep : ∀ t, skipWhitespace (c :: t) = skipWhitespace t := fun t => by simp [skipWhitespace, hc]
      rw [List.cons_append, hstep, hstep]
      rw [hstep] at h
      exact ih h
    · have hc : isWhitespace c = false := by simpa using hc
      rw [List.cons_append, skipWhitespace_cons hc, skipWhitespace_cons hc, List.cons_append]

theorem parseNat_append {text u rest : List Char} {n : Nat} (h : parseNat text = some (n, rest))
    (hrest : rest ≠ []) : parseNat (text ++ u) = some (n, rest ++ u) := by
  cases text with
  | nil => cases h
  | cons c digits =>
    by_cases hzero : c = '0'
    · subst hzero
      obtain ⟨rfl, rfl⟩ := Prod.mk.inj (Option.some.inj h)
      rfl
    · rw [parseNat.eq_2 _ _ hzero] at h
      rw [List.cons_append, parseNat.eq_2 _ _ hzero]
      split at h
      · next hc =>
        obtain ⟨rfl, rfl⟩ := Prod.mk.inj (Option.some.inj h)
        rw [if_pos hc]
        have hshort : (digits.takeWhile Char.isDigit).length ≠ digits.length := by
          intro hlength
          have hsplit := congrArg List.length (List.takeWhile_append_dropWhile (p := Char.isDigit) (l := digits))
          rw [List.length_append] at hsplit
          exact hrest (List.length_eq_zero_iff.mp (by omega))
        rw [List.takeWhile_append, if_neg hshort, List.dropWhile_append, if_neg (by simpa using hrest)]
      · cases h

/-- The value is a number. -/
def IsNum : Json → Prop
  | .num _ => True
  | _ => False

theorem parseValue_nil (n : Nat) : parseValue n [] = none := by
  cases n <;> rfl

/-- The text of the first item is not empty. -/
theorem parseItems_nil (n : Nat) (items : List Json) : parseItems n items [] = none := by
  cases n with
  | zero => rfl
  | succ n => rw [parseItems, parseValue_nil]

theorem parseMembers_nil (n : Nat) (members : Dict) : parseMembers n members [] = none := by
  cases n <;> rfl

theorem digit_of_parseNat {text : List Char} {p : Nat × List Char} (h : parseNat text = some p) :
    ∃ c rest, text = c :: rest ∧ c.isDigit := by
  cases text with
  | nil => cases h
  | cons c rest =>
    refine ⟨c, rest, rfl, ?_⟩
    by_contra hc
    have hzero : c ≠ '0' := by
      rintro rfl
      exact hc (by decide)
    rw [parseNat.eq_2 _ _ hzero, if_neg hc] at h
    cases h

mutual

/-- A value that is parsed is parsed when more text follows, unless that can prolong a number. -/
theorem parseValue_append {n m : Nat} {text u rest : List Char} {v : Json} (hnm : n ≤ m)
    (h : parseValue n text = some (v, rest)) (hv : rest ≠ [] ∨ ¬ IsNum v) :
    parseValue m (text ++ u) = some (v, rest ++ u) := by
  cases n with
  | zero => cases h
  | succ n =>
    obtain ⟨m, rfl⟩ : ∃ m', m = m' + 1 := ⟨m - 1, by omega⟩
    rw [parseValue.eq_def] at h
    dsimp only at h
    split at h
    · cases h
      rfl
    · cases h
      rfl
    · cases h
      rfl
    · rcases Option.map_eq_some_iff.mp h with ⟨⟨s, rest'⟩, hstr, heq⟩
      cases heq
      rw [List.cons_append, parseValue, parseStr_append hstr]
      rfl
    · next inner =>
      rw [List.cons_append, parseValue]
      split at h
      · next hclose =>
        cases h
        rw [skipWhitespace_append (by simp [hclose]), hclose]
        rfl
      · next hopen =>
        have hne : skipWhitespace inner ≠ [] := by
          intro hnil
          rw [hnil, parseItems_nil] at h
          cases h
        rw [skipWhitespace_append hne]
        have hitems := parseItems_append (u := u) (show n ≤ m by omega) h
        cases htext : skipWhitespace inner with
        | nil => exact absurd htext hne
        | cons c cs =>
          rw [htext, List.cons_append] at hitems
          split
          · next heq =>
            obtain rfl : c = ']' := (List.cons.inj heq).1
            exact absurd htext (hopen cs)
          · exact hitems
    · next inner =>
      rw [List.cons_append, parseValue]
      split at h
      · next hclose =>
        cases h
        rw [skipWhitespace_append (by simp [hclose]), hclose]
        rfl
      · next hopen =>
        have hne : skipWhitespace inner ≠ [] := by
          intro hnil
          rw [hnil, parseMembers_nil] at h
          cases h
        rw [skipWhitespace_append hne]
        have hmembers := parseMembers_append (u := u) (show n ≤ m by omega) h
        cases htext : skipWhitespace inner with
        | nil => exact absurd htext hne
        | cons c cs =>
          rw [htext, List.cons_append] at hmembers
          split
          · next heq =>
            obtain rfl : c = '\x7d' := (List.cons.inj heq).1
            exact absurd htext (hopen cs)
          · exact hmembers
    · rcases Option.map_eq_some_iff.mp h with ⟨⟨i, rest'⟩, hnat, heq⟩
      cases heq
      have hrest : rest' ≠ [] := hv.resolve_right fun hnum => hnum trivial
      rw [List.cons_append, parseValue, parseNat_append hnat hrest]
      rfl
    · rcases Option.map_eq_some_iff.mp h with ⟨⟨i, rest'⟩, hnat, heq⟩
      cases heq
      have hrest : rest' ≠ [] := hv.resolve_right fun hnum => hnum trivial
      rcases digit_of_parseNat hnat with ⟨c, cs, rfl, hc⟩
      have hmore := parseNat_append (u := u) hnat hrest
      rw [List.cons_append] at hmore ⊢
      rw [parseValue_digit hc, hmore]
      rfl
termination_by n

theorem parseItems_append {n m : Nat} {items : List Json} {text u rest : List Char} {v : Json} (hnm : n ≤ m)
    (h : parseItems n items text = some (v, rest)) : parseItems m items (text ++ u) = some (v, rest ++ u) := by
  cases n with
  | zero => cases h
  | succ n =>
    obtain ⟨m, rfl⟩ : ∃ m', m = m' + 1 := ⟨m - 1, by omega⟩
    rw [parseItems] at h ⊢
    cases hvalue : parseValue n text with
    | none =>
      rw [hvalue] at h
      cases h
    | some p =>
      rcases p with ⟨item, after⟩
      rw [hvalue] at h
      dsimp only at h
      have hafter : skipWhitespace after ≠ [] := by
        intro hnil
        rw [hnil] at h
        cases h
      have hne : after ≠ [] := by
        rintro rfl
        exact hafter rfl
      rw [parseValue_append (u := u) (show n ≤ m by omega) hvalue (.inl hne)]
      dsimp only
      rw [skipWhitespace_append hafter]
      split at h
      · next hclose =>
        cases h
        rw [hclose]
        rfl
      · next next_ hcomma =>
        rw [hcomma]
        have hne' : skipWhitespace next_ ≠ [] := by
          intro hnil
          rw [hnil, parseItems_nil] at h
          cases h
        have hrest := parseItems_append (u := u) (show n ≤ m by omega) h
        rw [← skipWhitespace_append hne'] at hrest
        exact hrest
      · cases h
termination_by n

theorem parseMembers_append {n m : Nat} {members : Dict} {text u rest : List Char} {v : Json} (hnm : n ≤ m)
    (h : parseMembers n members text = some (v, rest)) : parseMembers m members (text ++ u) = some (v, rest ++ u) := by
  cases n with
  | zero => cases h
  | succ n =>
    obtain ⟨m, rfl⟩ : ∃ m', m = m' + 1 := ⟨m - 1, by omega⟩
    rw [parseMembers.eq_def] at h
    dsimp only at h
    split at h
    · next inner =>
      rw [List.cons_append, parseMembers]
      cases hkey : parseStr inner with
      | none =>
        rw [hkey] at h
        cases h
      | some p =>
        rcases p with ⟨k, after⟩
        rw [hkey] at h
        rw [parseStr_append hkey]
        dsimp only at h ⊢
        split at h
        · next colon hcolon =>
          rw [skipWhitespace_append (by simp [hcolon]), hcolon]
          simp only [List.cons_append]
          cases hvalue : parseValue n (skipWhitespace colon) with
          | none =>
            rw [hvalue] at h
            cases h
          | some p =>
            rcases p with ⟨value, after'⟩
            rw [hvalue] at h
            dsimp only at h
            have hafter : skipWhitespace after' ≠ [] := by
              intro hnil
              rw [hnil] at h
              cases h
            have hne : after' ≠ [] := by
              rintro rfl
              exact hafter rfl
            have hcolon' : skipWhitespace colon ≠ [] := by
              intro hnil
              rw [hnil, parseValue_nil] at hvalue
              cases hvalue
            rw [skipWhitespace_append hcolon', parseValue_append (u := u) (show n ≤ m by omega) hvalue (.inl hne)]
            dsimp only
            rw [skipWhitespace_append hafter]
            split at h
            · next hclose =>
              cases h
              rw [hclose]
              rfl
            · next next_ hcomma =>
              rw [hcomma]
              have hne' : skipWhitespace next_ ≠ [] := by
                intro hnil
                rw [hnil, parseMembers_nil] at h
                cases h
              have hrest := parseMembers_append (u := u) (show n ≤ m by omega) h
              rw [← skipWhitespace_append hne'] at hrest
              exact hrest
            · cases h
        · cases h
    · cases h
termination_by n

end

/-! ## Texts that are cut short -/

theorem dumps_obj_head (members : List (String × Json)) : ∃ rest, dumps (.obj members) = '\x7b' :: rest := by
  cases members with
  | nil => exact ⟨_, rfl⟩
  | cons member members =>
    exact ⟨dumpsStr member.1 ++ ':' :: ' ' :: dumps member.2 ++ dumpsMembers members, by simp [dumps]⟩

theorem dumpsMembers_last (members : List (String × Json)) : ∃ init, dumpsMembers members = init ++ ['\x7d'] := by
  induction members with
  | nil => exact ⟨[], rfl⟩
  | cons member members ih =>
    rcases ih with ⟨init, hinit⟩
    exact ⟨',' :: ' ' :: dumpsStr member.1 ++ ':' :: ' ' :: dumps member.2 ++ init, by
      simp [dumpsMembers, hinit]⟩

theorem dumps_obj_last (members : List (String × Json)) : ∃ init, dumps (.obj members) = init ++ ['\x7d'] := by
  cases members with
  | nil => exact ⟨['\x7b'], rfl⟩
  | cons member members =>
    rcases dumpsMembers_last members with ⟨init, hinit⟩
    exact ⟨'\x7b' :: dumpsStr member.1 ++ ':' :: ' ' :: dumps member.2 ++ init, by simp [dumps, hinit]⟩

theorem not_isNum_of_parseMembers {n : Nat} {members : Dict} {text rest : List Char} {v : Json}
    (h : parseMembers n members text = some (v, rest)) : ¬ IsNum v := by
  induction n generalizing members text with
  | zero => cases h
  | succ n ih =>
    rw [parseMembers.eq_def] at h
    dsimp only at h
    split at h
    · split at h
      · cases h
      · split at h
        · split at h
          · cases h
          · split at h
            · cases h
              exact fun hnum => hnum
            · exact ih h
            · cases h
        · cases h
    · cases h

theorem not_isNum_of_brace {n : Nat} {text rest : List Char} {v : Json}
    (h : parseValue n ('\x7b' :: text) = some (v, rest)) : ¬ IsNum v := by
  cases n with
  | zero => cases h
  | succ n =>
    rw [parseValue] at h
    split at h
    · cases h
      exact fun hnum => hnum
    · exact not_isNum_of_parseMembers h

/-- The text of an object is parsed whole or not at all. -/
theorem loads_cut {members : List (String × Json)} (hv : Proper (.obj members)) {text cut : List Char}
    (h : text ++ cut = dumps (.obj members)) (hcut : cut ≠ []) : loads text = none := by
  rcases text with _ | ⟨c, text⟩
  · rw [loads, show skipWhitespace [] = [] from rfl, parseValue_nil]
  rcases dumps_obj_head members with ⟨whole, hwhole⟩
  obtain rfl : c = '\x7b' := by
    rw [hwhole] at h
    exact (List.cons.inj h).1
  rw [loads, skipWhitespace_cons (by decide)]
  cases hparsed : parseValue (('\x7b' :: text).length + 1) ('\x7b' :: text) with
  | none => rfl
  | some p =>
    rcases p with ⟨v, rest⟩
    have hsize := size_le_length (.obj members)
    have hlength := congrArg List.length h
    rw [List.length_append] at hlength
    have hmore := parseValue_append (u := cut) (show _ ≤ (dumps (.obj members)).length + 1 by omega)
      hparsed (.inr (not_isNum_of_brace hparsed))
    have hdumps := parseValue_dumps _ hv ((dumps (.obj members)).length + 1) (by omega) []
      (fun _ _ h => by cases h)
    rw [List.append_nil, ← h] at hdumps
    rw [h] at hmore hdumps
    rw [hdumps] at hmore
    have hnil : rest ++ cut = [] := (Prod.mk.inj (Option.some.inj hmore)).2.symm
    exact absurd (List.append_eq_nil_iff.mp hnil).2 hcut

/-! ## Printable texts -/

def IsPrintable (c : Char) : Prop := 32 ≤ c.toNat ∧ c.toNat ≤ 126

instance : DecidablePred IsPrintable := fun _ => by
  unfold IsPrintable
  infer_instance

theorem isPrintable_digitChar : ∀ d < 16, IsPrintable (Nat.digitChar d) := by decide

theorem isPrintable_of_isDigit {c : Char} (h : c.isDigit) : IsPrintable c := by
  simp only [Char.isDigit, Bool.and_eq_true, decide_eq_true_eq, ge_iff_le, UInt32.le_iff_toNat_le] at h
  have hlow : 48 ≤ c.toNat := h.1
  have hhigh : c.toNat ≤ 57 := h.2
  constructor <;> omega

theorem isPrintable_unicodeEscape (n : Nat) : ∀ c ∈ unicodeEscape n, IsPrintable c := by
  intro c hc
  simp only [unicodeEscape, hex4, List.mem_cons, List.not_mem_nil, or_false] at hc
  rcases hc with rfl | rfl | rfl | rfl | rfl | rfl
  · decide
  · decide
  all_goals exact isPrintable_digitChar _ (Nat.mod_lt _ (by decide))

theorem isPrintable_escapeChar (c : Char) : ∀ d ∈ escapeChar c, IsPrintable d := by
  unfold escapeChar
  split_ifs with _ _ _ _ _ _ _ hprint
  iterate 7 · simp [IsPrintable]
  · intro d hd
    rw [List.mem_singleton.mp hd]
    exact hprint
  · exact isPrintable_unicodeEscape _
  · intro d hd
    rcases List.mem_append.mp hd with hd | hd <;> exact isPrintable_unicodeEscape _ d hd

theorem isPrintable_dumpsStr (s : String) : ∀ c ∈ dumpsStr s, IsPrintable c := by
  intro c hc
  simp only [dumpsStr, List.cons_append, List.mem_cons, List.mem_append, List.mem_flatMap, List.not_mem_nil,
    or_false] at hc
  rcases hc with rfl | ⟨d, -, hc⟩ | rfl
  · decide
  · exact isPrintable_escapeChar d c hc
  · decide

theorem isPrintable_dumpsNum (n : Int) : ∀ c ∈ dumpsNum n, IsPrintable c := by
  have hdigits : ∀ c ∈ Nat.toDigits 10 n.natAbs, IsPrintable c := fun c hc =>
    isPrintable_of_isDigit (Nat.isDigit_of_mem_toDigits (by decide) (by decide) hc)
  unfold dumpsNum
  split
  · intro c hc
    rcases List.mem_cons.mp hc with rfl | hc
    · decide
    · exact hdigits c hc
  · exact hdigits

mutual

theorem isPrintable_dumps (v : Json) : ∀ c ∈ dumps v, IsPrintable c := by
  cases v with
  | null => simp [dumps, IsPrintable]
  | bool b => cases b <;> simp [dumps, IsPrintable]
  | num n => exact isPrintable_dumpsNum n
  | str s => exact isPrintable_dumpsStr s
  | arr items =>
    cases items with
    | nil => simp [dumps, IsPrintable]
    | cons item items =>
      intro c hc
      simp only [dumps, List.cons_append, List.mem_cons, List.mem_append] at hc
      rcases hc with rfl | hc | hc
      · decide
      · exact isPrintable_dumps item c hc
      · exact isPrintable_dumpsItems items c hc
  | obj members =>
    cases members with
    | nil => simp [dumps, IsPrintable]
    | cons member members =>
      rcases member with ⟨k, v⟩
      intro c hc
      simp only [dumps, List.cons_append, List.append_assoc, List.mem_cons, List.mem_append] at hc
      rcases hc with rfl | hc | rfl | rfl | hc | hc
      · decide
      · exact isPrintable_dumpsStr k c hc
      · decide
      · decide
      · exact isPrintable_dumps v c hc
      · exact isPrintable_dumpsMembers members c hc

theorem isPrintable_dumpsItems (items : List Json) : ∀ c ∈ dumpsItems items, IsPrintable c := by
  cases items with
  | nil => simp [dumpsItems, IsPrintable]
  | cons item items =>
    intro c hc
    simp only [dumpsItems, List.cons_append, List.mem_cons, List.mem_append] at hc
    rcases hc with rfl | rfl | hc | hc
    · decide
    · decide
    · exact isPrintable_dumps item c hc
    · exact isPrintable_dumpsItems items c hc

theorem isPrintable_dumpsMembers (members : List (String × Json)) : ∀ c ∈ dumpsMembers members, IsPrintable c := by
  cases members with
  | nil => simp [dumpsMembers, IsPrintable]
  | cons member members =>
    rcases member with ⟨k, v⟩
    intro c hc
    simp only [dumpsMembers, List.cons_append, List.append_assoc, List.mem_cons, List.mem_append] at hc
    rcases hc with rfl | rfl | hc | rfl | rfl | hc | hc
    · decide
    · decide
    · exact isPrintable_dumpsStr k c hc
    · decide
    · decide
    · exact isPrintable_dumps v c hc
    · exact isPrintable_dumpsMembers members c hc

end

/-! ## Sorted members -/

mutual

/-- `sort_keys=True`, at every level. -/
def sorted : Json → Json
  | .arr items => .arr (sortedItems items)
  | .obj members => .obj (Dict.sortKeys (sortedMembers members))
  | v => v

def sortedItems : List Json → List Json
  | [] => []
  | item :: items => sorted item :: sortedItems items

def sortedMembers : List (String × Json) → List (String × Json)
  | [] => []
  | (k, v) :: members => (k, sorted v) :: sortedMembers members

end

section

variable {α : Type} {d d' : List (String × α)} {k : String} {a : α}

/-- With distinct names, looking up is finding the member. -/
theorem lookup_eq_some (hd : (d.map (·.1)).Nodup) : d.lookup k = some a ↔ (k, a) ∈ d := by
  induction d with
  | nil => simp
  | cons member d ih => grind

theorem lookup_perm (hd : (d.map (·.1)).Nodup) (hperm : d.Perm d') : d'.lookup k = d.lookup k := by
  have hd' : (d'.map (·.1)).Nodup := (hperm.map _).nodup_iff.mp hd
  ext a
  rw [lookup_eq_some hd', lookup_eq_some hd, hperm.mem_iff]

theorem perm_sortKeys (d : List (String × α)) : (Dict.sortKeys d).Perm d :=
  List.perm_insertionSort _ d

theorem lookup_sortKeys (hd : (d.map (·.1)).Nodup) : (Dict.sortKeys d).lookup k = d.lookup k :=
  lookup_perm hd (perm_sortKeys d).symm

end

theorem sortedMembers_eq_map (members : List (String × Json)) :
    sortedMembers members = members.map fun member => (member.1, sorted member.2) := by
  induction members with
  | nil => rfl
  | cons member members ih => rw [sortedMembers, ih, List.map_cons]

theorem sortedItems_eq_map (items : List Json) : sortedItems items = items.map sorted := by
  induction items with
  | nil => rfl
  | cons item items ih => rw [sortedItems, ih, List.map_cons]

theorem properMembers_iff {members : List (String × Json)} :
    ProperMembers members ↔ ∀ member ∈ members, Proper member.2 := by
  induction members with
  | nil => simp [ProperMembers]
  | cons member members ih => simp [ProperMembers, ih]

theorem properItems_iff {items : List Json} : ProperItems items ↔ ∀ item ∈ items, Proper item := by
  induction items with
  | nil => simp [ProperItems]
  | cons item items ih => simp [ProperItems, ih]

theorem keys_sortedMembers (members : List (String × Json)) :
    (sortedMembers members).map (·.1) = members.map (·.1) := by
  rw [sortedMembers_eq_map, List.map_map]
  rfl

mutual

theorem proper_sorted (v : Json) (hv : Proper v) : Proper (sorted v) := by
  cases v with
  | arr items => exact properItems_sorted items hv
  | obj members =>
    have hperm := perm_sortKeys (sortedMembers members)
    constructor
    · rw [(hperm.map _).nodup_iff, keys_sortedMembers]
      exact hv.1
    · rw [properMembers_iff]
      intro member hmember
      exact properMembers_iff.mp (properMembers_sorted members hv.2) member (hperm.mem_iff.mp hmember)
  | _ => exact hv

theorem properItems_sorted (items : List Json) (hitems : ProperItems items) : ProperItems (sortedItems items) := by
  cases items with
  | nil => exact hitems
  | cons item items => exact ⟨proper_sorted item hitems.1, properItems_sorted items hitems.2⟩

theorem properMembers_sorted (members : List (String × Json)) (hmembers : ProperMembers members) :
    ProperMembers (sortedMembers members) := by
  cases members with
  | nil => exact hmembers
  | cons member members => exact ⟨proper_sorted member.2 hmembers.1, properMembers_sorted members hmembers.2⟩

end

/-- A sorted object is looked up as the object it was. -/
theorem get?_sorted {members : List (String × Json)} (hmembers : (members.map (·.1)).Nodup) (k : String) :
    Dict.get? (Dict.sortKeys (sortedMembers members)) k = (Dict.get? members k).map sorted := by
  rw [Dict.get?, lookup_sortKeys (by rwa [keys_sortedMembers]), sortedMembers_eq_map, Dict.get?]
  clear hmembers
  induction members with
  | nil => rfl
  | cons member members ih =>
    rw [List.map_cons, List.lookup_cons, List.lookup_cons, ih]
    cases k == member.1 <;> rfl

theorem str?_sorted {members : List (String × Json)} (hmembers : (members.map (·.1)).Nodup) (k : String) :
    Dict.str? (Dict.sortKeys (sortedMembers members)) k = Dict.str? members k := by
  unfold Dict.str?
  rw [get?_sorted hmembers]
  cases Dict.get? members k with
  | none => rfl
  | some v => cases v <;> rfl

theorem num?_sorted {members : List (String × Json)} (hmembers : (members.map (·.1)).Nodup) (k : String) :
    Dict.num? (Dict.sortKeys (sortedMembers members)) k = Dict.num? members k := by
  unfold Dict.num?
  rw [get?_sorted hmembers]
  cases Dict.get? members k with
  | none => rfl
  | some v => cases v <;> rfl

end MindRoom.JsonText
