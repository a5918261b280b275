import Mathlib.Algebra.Group.Nat.Defs
import Mathlib.Data.Int.Notation
import Mathlib.Data.Nat.Notation
import Mathlib.Data.Option.Basic
import Mathlib.Tactic.Common

/-!
# Instants as texts

The proleptic Gregorian calendar of Python's `datetime`: the day number of a date and the
date of a day number, and the text of an instant in UTC, `YYYY-MM-DD HH:MM:SS.ffffff+00:00`
with the fraction left out where it is nought. An instant is its microseconds since 1970.
-/

namespace Calendar

/-! ## Dates -/

def isLeap (year : ℕ) : Bool := year % 4 = 0 && (year % 100 ≠ 0 || year % 400 = 0)

/-- `_DAYS_BEFORE_MONTH`, from January on. -/
def daysBeforeMonths : List ℕ := [0, 31, 59, 90, 120, 151, 181, 212, 243, 273, 304, 334, 365]

/-- `_days_before_month` -/
def daysBeforeMonth (leap : Bool) (month : ℕ) : ℕ :=
  daysBeforeMonths.getD (month - 1) 0 + if 2 < month ∧ leap then 1 else 0

/-- `_days_in_month` -/
def daysInMonth (leap : Bool) (month : ℕ) : ℕ :=
  daysBeforeMonth leap (month + 1) - daysBeforeMonth leap month

/-- `_days_before_year` -/
def daysBeforeYear (year : ℕ) : ℕ :=
  (year - 1) * 365 + (year - 1) / 4 - (year - 1) / 100 + (year - 1) / 400

structure Date where
  year : ℕ
  month : ℕ
  day : ℕ
  deriving DecidableEq, Repr

/-- `_check_date_fields` -/
def Date.valid (d : Date) : Bool :=
  1 ≤ d.year && d.year ≤ 9999 && 1 ≤ d.month && d.month ≤ 12 && 1 ≤ d.day
    && d.day ≤ daysInMonth (isLeap d.year) d.month

/-- `_ymd2ord`: the first of January of the year 1 is day 1. -/
def Date.ordinal (d : Date) : ℕ :=
  daysBeforeYear d.year + daysBeforeMonth (isLeap d.year) d.month + d.day

/-- The month and the day of a day of the year, counted from nought. -/
def monthOf (leap : Bool) (n : ℕ) : ℕ × ℕ :=
  -- an estimate, which may be one too large
  let month := (n + 50) / 32
  if n < daysBeforeMonth leap month then (month - 1, n - daysBeforeMonth leap (month - 1) + 1)
  else (month, n - daysBeforeMonth leap month + 1)

/-- `_ord2ymd` -/
def ofOrdinal (ordinal : ℕ) : Date :=
  let n := ordinal - 1
  let n400 := n / 146097
  let n := n % 146097
  let n100 := n / 36524
  let n := n % 36524
  let n4 := n / 1461
  let n := n % 1461
  let n1 := n / 365
  let n := n % 365
  let year := n400 * 400 + n100 * 100 + n4 * 4 + n1 + 1
  -- the last day of a leap year
  if n1 = 4 ∨ n100 = 4 then ⟨year - 1, 12, 31⟩
  else
    let leap := n1 = 3 ∧ (n4 ≠ 24 ∨ n100 = 3)
    ⟨year, (monthOf leap n).1, (monthOf leap n).2⟩

/-- A day of a year lies in its month. -/
theorem monthOf_spec (leap : Bool) {n : ℕ} (h : n < 365 + leap.toNat) :
    1 ≤ (monthOf leap n).1 ∧ (monthOf leap n).1 ≤ 12 ∧ 1 ≤ (monthOf leap n).2
      ∧ (monthOf leap n).2 ≤ daysInMonth leap (monthOf leap n).1
      ∧ daysBeforeMonth leap (monthOf leap n).1 + (monthOf leap n).2 = n + 1 := by
  have hall : ∀ leap : Bool, ∀ n < 366, n < 365 + leap.toNat →
      1 ≤ (monthOf leap n).1 ∧ (monthOf leap n).1 ≤ 12 ∧ 1 ≤ (monthOf leap n).2
        ∧ (monthOf leap n).2 ≤ daysInMonth leap (monthOf leap n).1
        ∧ daysBeforeMonth leap (monthOf leap n).1 + (monthOf leap n).2 = n + 1 := by
    decide +kernel
  have hlt : n < 366 := by
    have : leap.toNat ≤ 1 := Bool.toNat_le leap
    omega
  exact hall leap n hlt h

/-- A year by its place in the cycles of 400, 100 and 4 years. -/
theorem daysBeforeYear_cycles {a b c d : ℕ} (hb : b ≤ 3) (hc : c ≤ 24) (hd : d ≤ 3) :
    daysBeforeYear (a * 400 + b * 100 + c * 4 + d + 1)
      = 146097 * a + 36524 * b + 1461 * c + 365 * d := by
  unfold daysBeforeYear
  omega

theorem isLeap_cycles {a b c d : ℕ} (hb : b ≤ 3) (hc : c ≤ 24) (hd : d ≤ 3) :
    isLeap (a * 400 + b * 100 + c * 4 + d + 1) = decide (d = 3 ∧ (c ≠ 24 ∨ b = 3)) := by
  rw [isLeap, Bool.eq_iff_iff]
  simp only [Bool.and_eq_true, Bool.or_eq_true, decide_eq_true_eq]
  omega

/-- The 31st of December. -/
theorem ordinal_lastDay (year : ℕ) :
    (⟨year, 12, 31⟩ : Date).ordinal = daysBeforeYear year + 365 + (isLeap year).toNat := by
  have hdec : ∀ leap : Bool, daysBeforeMonth leap 12 + 31 = 365 + leap.toNat := by decide
  show daysBeforeYear year + daysBeforeMonth (isLeap year) 12 + 31 = _
  rw [Nat.add_assoc, hdec, Nat.add_assoc]

/-- The date of a day number by the cycles that have passed before it. -/
theorem ofOrdinal_cycles {n a b c d e : ℕ} (ha : (n - 1) / 146097 = a)
    (hb : (n - 1) % 146097 / 36524 = b) (hc : (n - 1) % 146097 % 36524 / 1461 = c)
    (hd : (n - 1) % 146097 % 36524 % 1461 / 365 = d)
    (he : (n - 1) % 146097 % 36524 % 1461 % 365 = e) :
    ofOrdinal n =
      if d = 4 ∨ b = 4 then ⟨a * 400 + b * 100 + c * 4 + d, 12, 31⟩
      else ⟨a * 400 + b * 100 + c * 4 + d + 1, (monthOf (d = 3 ∧ (c ≠ 24 ∨ b = 3)) e).1,
        (monthOf (d = 3 ∧ (c ≠ 24 ∨ b = 3)) e).2⟩ := by
  subst ha hb hc hd he
  rfl

/-- **A day number comes back from its date, which exists.** -/
theorem ofOrdinal_spec {n : ℕ} (hn : 1 ≤ n) (hmax : n ≤ 3652059) :
    (ofOrdinal n).ordinal = n ∧ (ofOrdinal n).valid = true := by
  obtain ⟨a, ha⟩ : ∃ a, (n - 1) / 146097 = a := ⟨_, rfl⟩
  obtain ⟨b, hb⟩ : ∃ b, (n - 1) % 146097 / 36524 = b := ⟨_, rfl⟩
  obtain ⟨c, hc⟩ : ∃ c, (n - 1) % 146097 % 36524 / 1461 = c := ⟨_, rfl⟩
  obtain ⟨d, hd⟩ : ∃ d, (n - 1) % 146097 % 36524 % 1461 / 365 = d := ⟨_, rfl⟩
  obtain ⟨e, he⟩ : ∃ e, (n - 1) % 146097 % 36524 % 1461 % 365 = e := ⟨_, rfl⟩
  have hsum : n = 146097 * a + 36524 * b + 1461 * c + 365 * d + e + 1 := by omega
  have hc' : c ≤ 24 := by omega
  have he' : e ≤ 364 := by omega
  rw [ofOrdinal_cycles ha hb hc hd he]
  by_cases hlast : d = 4 ∨ b = 4
  · -- a year that ends a cycle of 4 or of 400 years, on its 366th day
    have hcycle : (d = 4 ∧ b ≤ 3 ∧ c ≤ 23 ∨ b = 4 ∧ c = 0 ∧ d = 0) ∧ e = 0 := by omega
    obtain ⟨hcycle, rfl⟩ := hcycle
    have hleap : isLeap (a * 400 + b * 100 + c * 4 + d) = true := by
      simp only [isLeap, Bool.and_eq_true, Bool.or_eq_true, decide_eq_true_eq]
      omega
    have hdays : daysBeforeYear (a * 400 + b * 100 + c * 4 + d) + 366 = n := by
      rcases hcycle with ⟨rfl, hb', hc''⟩ | ⟨rfl, rfl, rfl⟩
      · show daysBeforeYear (a * 400 + b * 100 + c * 4 + 3 + 1) + 366 = n
        rw [daysBeforeYear_cycles hb' hc' (Nat.le_refl 3)]
        omega
      · show daysBeforeYear (a * 400 + 3 * 100 + 24 * 4 + 3 + 1) + 366 = n
        rw [daysBeforeYear_cycles (Nat.le_refl 3) (Nat.le_refl 24) (Nat.le_refl 3)]
        omega
    rw [if_pos hlast]
    constructor
    · rw [ordinal_lastDay, hleap]
      exact hdays
    · simp only [Date.valid, hleap, Bool.and_eq_true, decide_eq_true_eq]
      exact ⟨⟨⟨⟨⟨by omega, by omega⟩, by decide⟩, by decide⟩, by decide⟩, by decide⟩
  · have hb' : b ≤ 3 := by omega
    have hd' : d ≤ 3 := by omega
    have hleap := isLeap_cycles (a := a) hb' hc' hd'
    have hdays := daysBeforeYear_cycles (a := a) hb' hc' hd'
    have hyear : a * 400 + b * 100 + c * 4 + d + 1 ≤ 9999 := by omega
    have hlt : e < 365 + (decide (d = 3 ∧ (c ≠ 24 ∨ b = 3))).toNat := by omega
    obtain ⟨h₁, h₂, h₃, h₄, h₅⟩ := monthOf_spec _ hlt
    rw [if_neg hlast]
    constructor
    · rw [Date.ordinal, hleap, hdays]
      simp only
      omega
    · simp only [Date.valid, hleap, Bool.and_eq_true, decide_eq_true_eq]
      exact ⟨⟨⟨⟨⟨by omega, hyear⟩, h₁⟩, h₂⟩, h₃⟩, h₄⟩

/-! ## Instants -/

/-- Days from the first of January of the year 1 to the epoch, and one. -/
def epochOrdinal : ℤ := 719163

/-- What a `datetime` can hold: the years 1 to 9999. -/
def Representable (t : ℤ) : Prop := -62135596800000000 ≤ t ∧ t < 253402300800000000

instance (t : ℤ) : Decidable (Representable t) := inferInstanceAs (Decidable (_ ∧ _))

/-- The fields of a `datetime` in UTC. -/
structure DateTime where
  date : Date
  hour : ℕ
  minute : ℕ
  second : ℕ
  microsecond : ℕ
  deriving DecidableEq, Repr

/-- `_check_date_fields` and `_check_time_fields` -/
def DateTime.valid (d : DateTime) : Bool :=
  d.date.valid && d.hour ≤ 23 && d.minute ≤ 59 && d.second ≤ 59 && d.microsecond ≤ 999999

/-- Microseconds since the epoch. -/
def DateTime.instant (d : DateTime) : ℤ :=
  (d.date.ordinal - epochOrdinal) * 86400000000 + d.hour * 3600000000 + d.minute * 60000000
    + d.second * 1000000 + d.microsecond

def ofInstant (t : ℤ) : DateTime where
  date := ofOrdinal (t / 86400000000 + epochOrdinal).toNat
  hour := (t / 3600000000 % 24).toNat
  minute := (t / 60000000 % 60).toNat
  second := (t / 1000000 % 60).toNat
  microsecond := (t % 1000000).toNat

/-- **An instant comes back from its fields, which are those of a `datetime`.** -/
theorem ofInstant_spec {t : ℤ} (h : Representable t) :
    (ofInstant t).instant = t ∧ (ofInstant t).valid = true := by
  obtain ⟨hmin, hmax⟩ := h
  obtain ⟨hord, hvalid⟩ := ofOrdinal_spec (n := (t / 86400000000 + epochOrdinal).toNat)
    (by unfold epochOrdinal; omega) (by unfold epochOrdinal; omega)
  constructor
  · unfold DateTime.instant
    simp only [ofInstant, hord]
    unfold epochOrdinal
    omega
  · have hfields : (ofInstant t).hour ≤ 23 ∧ (ofInstant t).minute ≤ 59
        ∧ (ofInstant t).second ≤ 59 ∧ (ofInstant t).microsecond ≤ 999999 := by
      simp only [ofInstant]
      omega
    obtain ⟨hh, hmi, hs, hus⟩ := hfields
    have hdate : (ofInstant t).date.valid = true := hvalid
    simp [DateTime.valid, hdate, hh, hmi, hs, hus]

/-! ## Texts -/

/-- `f"{n:0{w}d}"` of a number of at most `w` digits. -/
def field : ℕ → ℕ → List Char
  | 0, _ => []
  | w + 1, n => field w (n / 10) ++ [(n % 10).digitChar]

/-- `str(d)`, which is `d.isoformat(sep=" ")` -/
def DateTime.text (d : DateTime) : List Char :=
  field 4 d.date.year ++ '-' :: (field 2 d.date.month ++ '-' :: (field 2 d.date.day
    ++ ' ' :: (field 2 d.hour ++ ':' :: (field 2 d.minute ++ ':' :: (field 2 d.second
      ++ ((if d.microsecond = 0 then [] else '.' :: field 6 d.microsecond) ++ "+00:00".toList))))))

/-- A number of exactly `w` digits. -/
def takeField (w : ℕ) (t : List Char) : Option (ℕ × List Char) :=
  if (t.take w).length = w ∧ (t.take w).all Char.isDigit then
    some (Nat.ofDigitChars 10 (t.take w) 0, t.drop w)
  else none

def expect (c : Char) : List Char → Option (List Char)
  | [] => none
  | d :: t => if d = c then some t else none

def takeFraction : List Char → Option (ℕ × List Char)
  | '.' :: t => takeField 6 t
  | t => some (0, t)

/--
`datetime.fromisoformat`, of the one among the formats it takes that `str` writes, with any
character between the date and the time.
-/
def fromisoformat (text : String) : Option DateTime := do
  let (year, t) ← takeField 4 text.toList
  let (month, t) ← takeField 2 (← expect '-' t)
  let (day, t) ← takeField 2 (← expect '-' t)
  let (hour, t) ← takeField 2 (t.drop 1)
  let (minute, t) ← takeField 2 (← expect ':' t)
  let (second, t) ← takeField 2 (← expect ':' t)
  let (microsecond, t) ← takeFraction t
  guard (t = "+00:00".toList)
  let d : DateTime := ⟨⟨year, month, day⟩, hour, minute, second, microsecond⟩
  guard d.valid
  return d

theorem field_length (w n : ℕ) : (field w n).length = w := by
  induction w generalizing n with
  | zero => rfl
  | succ w ih => rw [field, List.length_append, ih]; rfl

theorem field_digits (w n : ℕ) : ∀ c ∈ field w n, c.isDigit := by
  induction w generalizing n with
  | zero => simp [field]
  | succ w ih =>
      intro c hc
      rw [field, List.mem_append, List.mem_singleton] at hc
      rcases hc with hc | rfl
      · exact ih _ c hc
      · have hall : ∀ m < 10, m.digitChar.isDigit := by decide
        exact hall _ (Nat.mod_lt n (by decide))

theorem ofDigitChars_field {w n : ℕ} (h : n < 10 ^ w) :
    Nat.ofDigitChars 10 (field w n) 0 = n := by
  induction w generalizing n with
  | zero =>
      rw [Nat.pow_zero] at h
      simp only [field, Nat.ofDigitChars_nil]
      omega
  | succ w ih =>
      have hdiv : n / 10 < 10 ^ w := by
        rw [Nat.pow_succ] at h
        omega
      rw [field, Nat.ofDigitChars_append, ih hdiv,
        Nat.ofDigitChars_cons_digitChar_of_lt_ten (Nat.mod_lt n (by decide)),
        Nat.ofDigitChars_nil]
      omega

theorem takeField_field {w n : ℕ} (h : n < 10 ^ w) (t : List Char) :
    takeField w (field w n ++ t) = some (n, t) := by
  have htake : (field w n ++ t).take w = field w n := List.take_left' (field_length w n)
  have hdrop : (field w n ++ t).drop w = t := List.drop_left' (field_length w n)
  rw [takeField, htake, hdrop, if_pos ⟨field_length w n, List.all_eq_true.mpr (field_digits w n)⟩,
    ofDigitChars_field h]

theorem takeFraction_text {n : ℕ} (h : n < 10 ^ 6) :
    takeFraction ((if n = 0 then [] else '.' :: field 6 n) ++ "+00:00".toList)
      = some (n, "+00:00".toList) := by
  split
  · next hn =>
    rw [hn]
    rfl
  · rw [List.cons_append, takeFraction, takeField_field h]

/-- **`fromisoformat` reads what `str` has written.** -/
theorem fromisoformat_text {d : DateTime} (h : d.valid = true) :
    fromisoformat (String.ofList d.text) = some d := by
  have hv := h
  simp only [DateTime.valid, Date.valid, Bool.and_eq_true, decide_eq_true_eq] at hv
  obtain ⟨⟨⟨⟨⟨⟨⟨⟨⟨_, hy⟩, _⟩, hmo⟩, _⟩, hd⟩, hh⟩, hmi⟩, hs⟩, hus⟩ := hv
  have hday : d.date.day < 10 ^ 2 := by
    have hall : ∀ leap : Bool, ∀ m ≤ 12, daysInMonth leap m ≤ 31 := by decide
    have := hall (isLeap d.date.year) d.date.month hmo
    omega
  rw [fromisoformat, String.toList_ofList, DateTime.text]
  simp only [takeField_field (show d.date.year < 10 ^ 4 by omega),
    takeField_field (show d.date.month < 10 ^ 2 by omega), takeField_field hday,
    takeField_field (show d.hour < 10 ^ 2 by omega),
    takeField_field (show d.minute < 10 ^ 2 by omega),
    takeField_field (show d.second < 10 ^ 2 by omega),
    takeFraction_text (show d.microsecond < 10 ^ 6 by omega),
    expect, if_true, Option.bind_eq_bind, Option.bind_some, List.drop_succ_cons, List.drop_zero]
  have hguard : (guard (d.valid = true) : Option Unit) = some () := if_pos h
  rw [hguard]
  rfl

/-- `str` of an instant. -/
def text (t : ℤ) : String := String.ofList (ofInstant t).text

/-- The instant of a text. -/
def parse (s : String) : Option ℤ := (fromisoformat s).map DateTime.instant

/-- **The text of an instant says which instant it is.** -/
theorem parse_text {t : ℤ} (h : Representable t) : parse (text t) = some t := by
  obtain ⟨hback, hvalid⟩ := ofInstant_spec h
  rw [parse, text, fromisoformat_text hvalid, Option.map_some, hback]

end Calendar
