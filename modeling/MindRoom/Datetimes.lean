import Mathlib

/-! # Datetimes and their texts

A datetime of the proleptic calendar in universal time, the instant it stands for, and its text in the
extended format. The text leaves the fraction out where it is zero, so texts are ordered as their instants
within different seconds, but not within one.
-/

namespace Datetimes

def Leap (year : Nat) : Prop := year % 4 = 0 ∧ (year % 100 ≠ 0 ∨ year % 400 = 0)

instance : DecidablePred Leap := fun _ => inferInstanceAs (Decidable (_ ∧ _))

def daysInMonth (year : Nat) : Nat → Nat
  | 2 => if Leap year then 29 else 28
  | 4 | 6 | 9 | 11 => 30
  | _ => 31

/-- A date and a time of day. -/
@[ext]
structure Datetime where
  year : Nat
  month : Nat
  day : Nat
  hour : Nat
  minute : Nat
  second : Nat
  microsecond : Nat
  validYear : 1 ≤ year ∧ year < 10 ^ 4
  validMonth : 1 ≤ month ∧ month ≤ 12
  validDay : 1 ≤ day ∧ day ≤ daysInMonth year month
  validTime : hour < 24 ∧ minute < 60 ∧ second < 60 ∧ microsecond < 10 ^ 6
deriving DecidableEq

/-! ## Instants -/

def daysBeforeYear (year : Nat) : Nat := (year - 1) * 365 + (year - 1) / 4 - (year - 1) / 100 + (year - 1) / 400

def daysBeforeMonth (year : Nat) : Nat → Nat
  | 0 => 0
  | month + 1 => daysBeforeMonth year month + if month = 0 then 0 else daysInMonth year month

/-- The number of the day, from the first one of the first year on. -/
def Datetime.ordinal (t : Datetime) : Nat := daysBeforeYear t.year + daysBeforeMonth t.year t.month + t.day

def Datetime.seconds (t : Datetime) : Nat := ((t.ordinal * 24 + t.hour) * 60 + t.minute) * 60 + t.second

def Datetime.micros (t : Datetime) : Nat := t.seconds * 10 ^ 6 + t.microsecond

variable {t u : Datetime} {year month : Nat}

theorem daysBeforeYear_succ (h : 1 ≤ year) :
    daysBeforeYear (year + 1) = daysBeforeYear year + 365 + if Leap year then 1 else 0 := by
  obtain ⟨n, rfl⟩ : ∃ n, year = n + 1 := ⟨year - 1, by omega⟩
  have hfour : (n + 1) / 4 = n / 4 + if (n + 1) % 4 = 0 then 1 else 0 := by split <;> omega
  have hhundred : (n + 1) / 100 = n / 100 + if (n + 1) % 100 = 0 then 1 else 0 := by split <;> omega
  have hfourHundred : (n + 1) / 400 = n / 400 + if (n + 1) % 400 = 0 then 1 else 0 := by split <;> omega
  have hle : n / 100 ≤ n / 4 := Nat.div_le_div_left (by omega) (by omega)
  unfold daysBeforeYear
  simp only [Nat.add_sub_cancel]
  rw [hfour, hhundred, hfourHundred]
  by_cases hleap : Leap (n + 1)
  · rw [if_pos hleap]
    rcases hleap with ⟨hdivides, hcentury | hcentury⟩
    · rw [if_pos hdivides, if_neg hcentury, if_neg (by omega)]
      omega
    · rw [if_pos hdivides, if_pos (by omega), if_pos hcentury]
      omega
  · rw [if_neg hleap]
    by_cases hdivides : (n + 1) % 4 = 0
    · have hnot : (n + 1) % 100 = 0 ∧ (n + 1) % 400 ≠ 0 := by
        unfold Leap at hleap
        omega
      rw [if_pos hdivides, if_pos hnot.1, if_neg hnot.2]
      omega
    · rw [if_neg hdivides, if_neg (by omega), if_neg (by omega)]
      omega

theorem daysInMonth_pos (year month : Nat) : 28 ≤ daysInMonth year month := by
  unfold daysInMonth
  split
  · split <;> omega
  · omega
  · omega
  · omega
  · omega
  · omega

theorem daysBeforeMonth_succ (year : Nat) (h : 1 ≤ month) :
    daysBeforeMonth year (month + 1) = daysBeforeMonth year month + daysInMonth year month := by
  rw [daysBeforeMonth, if_neg (by omega)]

theorem daysBeforeMonth_mono (year : Nat) : Monotone (daysBeforeMonth year) :=
  monotone_nat_of_le_succ fun month => by
    rw [daysBeforeMonth]
    omega

theorem daysBeforeMonth_year (year : Nat) : daysBeforeMonth year 13 = 365 + if Leap year then 1 else 0 := by
  by_cases hleap : Leap year
  · simp [daysBeforeMonth, daysInMonth, hleap]
  · simp [daysBeforeMonth, daysInMonth, hleap]

/-- The first day of a month comes right after the last one of the month before. -/
theorem daysBeforeYear_add_le (t : Datetime) : daysBeforeYear t.year + daysBeforeMonth t.year (t.month + 1) ≤
    daysBeforeYear (t.year + 1) := by
  have hmonth := daysBeforeMonth_mono t.year (show t.month + 1 ≤ 13 by have := t.validMonth.2; omega)
  rw [daysBeforeMonth_year] at hmonth
  rw [daysBeforeYear_succ t.validYear.1]
  omega

theorem daysBeforeYear_mono {year' : Nat} (h : 1 ≤ year) (hle : year ≤ year') :
    daysBeforeYear year ≤ daysBeforeYear year' := by
  induction year', hle using Nat.le_induction with
  | base => exact le_rfl
  | succ year' hle ih =>
    rw [daysBeforeYear_succ (h.trans hle)]
    omega

theorem ordinal_lt_of_year (h : t.year < u.year) : t.ordinal < u.ordinal := by
  have hday := t.validDay.2
  have hmonth := daysBeforeMonth_succ t.year t.validMonth.1
  have hyear := daysBeforeYear_add_le t
  have hmono := daysBeforeYear_mono (show 1 ≤ t.year + 1 by omega) h
  have hday' := u.validDay.1
  unfold Datetime.ordinal
  omega

theorem ordinal_lt_of_month (hyear : t.year = u.year) (h : t.month < u.month) : t.ordinal < u.ordinal := by
  have hday := t.validDay.2
  have hmonth := daysBeforeMonth_succ t.year t.validMonth.1
  have hmono := daysBeforeMonth_mono t.year h
  have hday' := u.validDay.1
  unfold Datetime.ordinal
  rw [← hyear]
  change daysBeforeMonth t.year (t.month + 1) ≤ _ at hmono
  omega

theorem ordinal_lt_of_day (hyear : t.year = u.year) (hmonth : t.month = u.month) (h : t.day < u.day) :
    t.ordinal < u.ordinal := by
  unfold Datetime.ordinal
  rw [hyear, hmonth]
  omega

/-! ## One minute before -/

/-- `t - timedelta(minutes=1)`. There is nothing before the first year. -/
def Datetime.minuteBefore (t : Datetime) : Option Datetime :=
  if hminute : 0 < t.minute then
    some { t with
      minute := t.minute - 1
      validTime := by have := t.validTime; omega }
  else if hhour : 0 < t.hour then
    some { t with
      hour := t.hour - 1
      minute := 59
      validTime := by have := t.validTime; omega }
  else if hday : 1 < t.day then
    some { t with
      day := t.day - 1
      hour := 23
      minute := 59
      validDay := by have := t.validDay; omega
      validTime := by have := t.validTime; omega }
  else if hmonth : 1 < t.month then
    some { t with
      month := t.month - 1
      day := daysInMonth t.year (t.month - 1)
      hour := 23
      minute := 59
      validMonth := by have := t.validMonth; omega
      validDay := ⟨by have := daysInMonth_pos t.year (t.month - 1); omega, le_rfl⟩
      validTime := by have := t.validTime; omega }
  else if hyear : 1 < t.year then
    some { t with
      year := t.year - 1
      month := 12
      day := 31
      hour := 23
      minute := 59
      validYear := by have := t.validYear; omega
      validMonth := by omega
      validDay := ⟨by omega, le_rfl⟩
      validTime := by have := t.validTime; omega }
  else none

/-! ## Texts -/

/-- A number with leading zeros. -/
def pad : Nat → Nat → List Char
  | 0, _ => []
  | width + 1, n => pad width (n / 10) ++ [Nat.digitChar (n % 10)]

/-- The text up to the second. -/
def Datetime.stamp (t : Datetime) : List Char :=
  pad 4 t.year ++ '-' :: (pad 2 t.month ++ '-' :: (pad 2 t.day ++ 'T' :: (pad 2 t.hour ++
    ':' :: (pad 2 t.minute ++ ':' :: pad 2 t.second))))

def Datetime.fraction (t : Datetime) : List Char :=
  if t.microsecond = 0 then [] else '.' :: pad 6 t.microsecond

/-- `t.isoformat()`, in universal time. -/
def Datetime.isoformat (t : Datetime) : List Char := t.stamp ++ t.fraction ++ ['+', '0', '0', ':', '0', '0']

theorem append_lt_append {a b x y : List Char} (h : a.length = b.length) :
    a ++ x < b ++ y ↔ a < b ∨ (a = b ∧ x < y) := by
  induction a generalizing b with
  | nil =>
    rw [List.length_nil] at h
    rw [List.length_eq_zero_iff.mp h.symm]
    simp
  | cons c a ih =>
    cases b with
    | nil => cases h
    | cons d b =>
      rw [List.cons_append, List.cons_append, List.cons_lt_cons_iff, List.cons_lt_cons_iff,
        ih (Nat.succ.inj h), List.cons.injEq]
      tauto

@[simp] theorem length_pad (width n : Nat) : (pad width n).length = width := by
  induction width generalizing n with
  | zero => rfl
  | succ width ih =>
    rw [pad, List.length_append, ih]
    rfl

theorem digitChar_lt {m n : Nat} (hm : m < 10) (hn : n < 10) : Nat.digitChar m < Nat.digitChar n ↔ m < n := by
  have hall : ∀ m < 10, ∀ n < 10, Nat.digitChar m < Nat.digitChar n ↔ m < n := by decide
  exact hall m hm n hn

theorem pad_inj {width m n : Nat} (hm : m < 10 ^ width) (hn : n < 10 ^ width) (h : pad width m = pad width n) :
    m = n := by
  induction width generalizing m n with
  | zero => omega
  | succ width ih =>
    rw [pad, pad] at h
    rcases List.append_inj h (by simp) with ⟨hrest, hlast⟩
    have hfirst := ih (by omega) (by omega) hrest
    have hdigits : ∀ m < 10, ∀ n < 10, Nat.digitChar m = Nat.digitChar n → m = n := by decide
    have hdigit := hdigits (m % 10) (by omega) (n % 10) (by omega) (List.cons.inj hlast).1
    omega

/-- Padded numbers are ordered as numbers. -/
theorem pad_lt_pad {width m n : Nat} (hm : m < 10 ^ width) (hn : n < 10 ^ width) :
    pad width m < pad width n ↔ m < n := by
  induction width generalizing m n with
  | zero =>
    simp only [pad, List.lt_irrefl, false_iff]
    omega
  | succ width ih =>
    have hdigit := digitChar_lt (show m % 10 < 10 by omega) (show n % 10 < 10 by omega)
    rw [pad, pad, append_lt_append (by simp), ih (by omega) (by omega), List.cons_lt_cons_iff, hdigit]
    simp only [List.lt_irrefl, and_false, or_false]
    constructor
    · rintro (hless | ⟨hsame, hless⟩)
      · omega
      · have heq := pad_inj (show m / 10 < 10 ^ width by omega) (show n / 10 < 10 ^ width by omega) hsame
        omega
    · intro hless
      by_cases hsame : m / 10 = n / 10
      · exact .inr ⟨by rw [hsame], by omega⟩
      · exact .inl (by omega)

/-- A field counts before what follows it. -/
theorem pad_append_lt {width m n : Nat} {x y : List Char} (hm : m < 10 ^ width) (hn : n < 10 ^ width) :
    pad width m ++ x < pad width n ++ y ↔ m < n ∨ (m = n ∧ x < y) := by
  rw [append_lt_append (by simp), pad_lt_pad hm hn]
  constructor
  · rintro (hless | ⟨hsame, hless⟩)
    · exact .inl hless
    · exact .inr ⟨pad_inj hm hn hsame, hless⟩
  · rintro (hless | ⟨rfl, hless⟩)
    · exact .inl hless
    · exact .inr ⟨rfl, hless⟩

theorem daysInMonth_le (year month : Nat) : daysInMonth year month ≤ 31 := by
  unfold daysInMonth
  split
  · split <;> omega
  · omega
  · omega
  · omega
  · omega
  · omega

theorem seconds_lt_of_ordinal (h : t.ordinal < u.ordinal) : t.seconds < u.seconds := by
  have hvalid := t.validTime
  unfold Datetime.seconds
  omega

/-- Stamps are ordered as the seconds they stand for. -/
theorem stamp_lt (h : t.seconds < u.seconds) : t.stamp < u.stamp := by
  have hday := t.validDay.2.trans (daysInMonth_le _ _)
  have hday' := u.validDay.2.trans (daysInMonth_le _ _)
  have hmonth := t.validMonth.2
  have hmonth' := u.validMonth.2
  have htime := t.validTime
  have htime' := u.validTime
  unfold Datetime.stamp
  rw [pad_append_lt t.validYear.2 u.validYear.2, List.cons_lt_cons_self, pad_append_lt (by omega) (by omega),
    List.cons_lt_cons_self, pad_append_lt (by omega) (by omega), List.cons_lt_cons_self,
    pad_append_lt (by omega) (by omega), List.cons_lt_cons_self, pad_append_lt (by omega) (by omega),
    List.cons_lt_cons_self, pad_lt_pad (by omega) (by omega)]
  rcases lt_trichotomy t.year u.year with hless | hyear | hmore
  · exact .inl hless
  · refine .inr ⟨hyear, ?_⟩
    rcases lt_trichotomy t.month u.month with hless | hmonth | hmore
    · exact .inl hless
    · refine .inr ⟨hmonth, ?_⟩
      rcases lt_trichotomy t.day u.day with hless | hday | hmore
      · exact .inl hless
      · refine .inr ⟨hday, ?_⟩
        have hordinal : t.ordinal = u.ordinal := by
          unfold Datetime.ordinal
          rw [hyear, hmonth, hday]
        unfold Datetime.seconds at h
        omega
      · exact absurd (seconds_lt_of_ordinal (ordinal_lt_of_day hyear.symm hmonth.symm hmore)) (by omega)
    · exact absurd (seconds_lt_of_ordinal (ordinal_lt_of_month hyear.symm hmore)) (by omega)
  · exact absurd (seconds_lt_of_ordinal (ordinal_lt_of_year hmore)) (by omega)

theorem length_stamp (t : Datetime) : t.stamp.length = 19 := by
  unfold Datetime.stamp
  simp only [List.length_append, List.length_cons, length_pad]

theorem stamp_eq (h : t.seconds = u.seconds) : t.stamp = u.stamp := by
  have htime := t.validTime
  have htime' := u.validTime
  have hordinal : t.ordinal = u.ordinal := by
    unfold Datetime.seconds at h
    omega
  have hyear : t.year = u.year := by
    rcases lt_trichotomy t.year u.year with hless | hyear | hmore
    · exact absurd (ordinal_lt_of_year hless) (by omega)
    · exact hyear
    · exact absurd (ordinal_lt_of_year hmore) (by omega)
  have hmonth : t.month = u.month := by
    rcases lt_trichotomy t.month u.month with hless | hmonth | hmore
    · exact absurd (ordinal_lt_of_month hyear hless) (by omega)
    · exact hmonth
    · exact absurd (ordinal_lt_of_month hyear.symm hmore) (by omega)
  have hday : t.day = u.day := by
    unfold Datetime.ordinal at hordinal
    rw [hyear, hmonth] at hordinal
    omega
  have htimes : t.hour = u.hour ∧ t.minute = u.minute ∧ t.second = u.second := by
    unfold Datetime.seconds at h
    omega
  unfold Datetime.stamp
  rw [hyear, hmonth, hday, htimes.1, htimes.2.1, htimes.2.2]

end Datetimes
