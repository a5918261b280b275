import Mathlib.Data.List.DropRight
import Mathlib.Data.Rat.Floor

/-!
# Numerals

What `Number(text)` of JavaScript makes of a text. The grammar of numerals is written
down as relations between a text and its value, `literal` is the function that decides
it, and the two are shown to be the same part by part: digits, exponent, decimal, sign,
radix. The value is exact; what is read is the double nearest to it, an infinite one where
it is too large, and for a text that is no numeral the double that is not a number.
-/

namespace Numeral

/-- The value of a digit, and 16 for what is no digit. -/
def digitValue (c : Char) : ℕ :=
  if '0' ≤ c ∧ c ≤ '9' then c.toNat - '0'.toNat
  else if 'a' ≤ c ∧ c ≤ 'f' then c.toNat - 'a'.toNat + 10
  else if 'A' ≤ c ∧ c ≤ 'F' then c.toNat - 'A'.toNat + 10
  else 16

def isDigit (radix : ℕ) (c : Char) : Bool := digitValue c < radix

def natOf (radix : ℕ) (ds : List Char) : ℕ := ds.foldl (fun n c => n * radix + digitValue c) 0

/-- The radix that the letter after a leading zero announces. -/
def radixOf (letter : Char) : Option ℕ :=
  if letter = 'x' ∨ letter = 'X' then some 16
  else if letter = 'o' ∨ letter = 'O' then some 8
  else if letter = 'b' ∨ letter = 'B' then some 2
  else none

/-- An exact value, or one of the two infinities. -/
inductive Value where
  | infinity (negative : Bool)
  | exact (q : ℚ)
  deriving DecidableEq

def Value.neg : Value → Value
  | .infinity negative => .infinity !negative
  | .exact q => .exact (-q)

/-- `n` times ten to the `e`. -/
def scaled (n : ℕ) (e : ℤ) : ℚ := n * ((10 : ℕ) : ℚ) ^ e

/-! ## The grammar -/

/-- `DecimalDigits`, and the digits of another radix. -/
structure Digits (radix : ℕ) (ds : List Char) : Prop where
  digits : ∀ c ∈ ds, isDigit radix c = true
  nonempty : ds ≠ []

/-- `SignedInteger` -/
inductive SignedDigits : List Char → ℤ → Prop where
  | unsigned {ds : List Char} : Digits 10 ds → SignedDigits ds (natOf 10 ds)
  | plus {ds : List Char} : Digits 10 ds → SignedDigits ('+' :: ds) (natOf 10 ds)
  | minus {ds : List Char} : Digits 10 ds → SignedDigits ('-' :: ds) (-natOf 10 ds)

/-- `ExponentPart`, or nothing. -/
inductive Exponent : List Char → ℤ → Prop where
  | absent : Exponent [] 0
  | present {mark : Char} {t : List Char} {e : ℤ} : mark = 'e' ∨ mark = 'E' → SignedDigits t e →
      Exponent (mark :: t) e

/-- `StrUnsignedDecimalLiteral`, but for `Infinity`. -/
inductive Decimal : List Char → ℚ → Prop where
  | whole {i tail : List Char} {e : ℤ} : Digits 10 i → Exponent tail e →
      Decimal (i ++ tail) (scaled (natOf 10 i) e)
  | fraction {i f tail : List Char} {e : ℤ} : Digits 10 (i ++ f) → Exponent tail e →
      Decimal (i ++ '.' :: (f ++ tail)) (scaled (natOf 10 (i ++ f)) (e - f.length))

/-- `StrUnsignedDecimalLiteral` -/
inductive Unsigned : List Char → Value → Prop where
  | infinity : Unsigned "Infinity".toList (.infinity false)
  | decimal {t : List Char} {q : ℚ} : Decimal t q → Unsigned t (.exact q)

/-- `StrNumericLiteral` -/
inductive Literal : List Char → Value → Prop where
  | unsigned {t : List Char} {v : Value} : Unsigned t v → Literal t v
  | plus {t : List Char} {v : Value} : Unsigned t v → Literal ('+' :: t) v
  | minus {t : List Char} {v : Value} : Unsigned t v → Literal ('-' :: t) v.neg
  | radix {letter : Char} {r : ℕ} {ds : List Char} : radixOf letter = some r → Digits r ds →
      Literal ('0' :: letter :: ds) (.exact (natOf r ds))

/-! ## Reading a numeral -/

def digits (radix : ℕ) (ds : List Char) : Option ℕ :=
  if ds ≠ [] ∧ ds.all (isDigit radix) then some (natOf radix ds) else none

def signedDigits : List Char → Option ℤ
  | '+' :: ds => (digits 10 ds).map fun n : ℕ => (n : ℤ)
  | '-' :: ds => (digits 10 ds).map fun n : ℕ => -(n : ℤ)
  | ds => (digits 10 ds).map fun n : ℕ => (n : ℤ)

def exponent : List Char → Option ℤ
  | [] => some 0
  | mark :: t => if mark = 'e' ∨ mark = 'E' then signedDigits t else none

/-- The part after the whole digits `i`. -/
def afterWhole (i : List Char) : List Char → Option ℚ
  | '.' :: t =>
      let f := t.takeWhile (isDigit 10)
      if i ++ f = [] then none
      else (exponent (t.dropWhile (isDigit 10))).map fun e =>
        scaled (natOf 10 (i ++ f)) (e - f.length)
  | t => if i = [] then none else (exponent t).map fun e => scaled (natOf 10 i) e

def decimal (t : List Char) : Option ℚ :=
  afterWhole (t.takeWhile (isDigit 10)) (t.dropWhile (isDigit 10))

def unsigned (t : List Char) : Option Value :=
  if t = "Infinity".toList then some (.infinity false) else (decimal t).map .exact

def literal : List Char → Option Value
  | '+' :: t => unsigned t
  | '-' :: t => (unsigned t).map Value.neg
  | '0' :: letter :: ds =>
      match radixOf letter with
      | some r => (digits r ds).map fun n : ℕ => .exact n
      | none => unsigned ('0' :: letter :: ds)
  | t => unsigned t

/-! ## The two are the same -/

theorem digits_iff {radix : ℕ} {ds : List Char} {n : ℕ} :
    digits radix ds = some n ↔ Digits radix ds ∧ n = natOf radix ds := by
  rw [digits]
  split
  · next h =>
    rw [Option.some.injEq, eq_comm]
    exact (and_iff_right ⟨List.all_eq_true.mp h.2, h.1⟩).symm
  · next h =>
    refine iff_of_false (by simp) fun hd => h ⟨hd.1.nonempty, ?_⟩
    exact List.all_eq_true.mpr hd.1.digits

theorem signedDigits_sound {t : List Char} {e : ℤ} (h : signedDigits t = some e) :
    SignedDigits t e := by
  have hsome : ∀ {ds f}, (digits 10 ds).map f = some e → Digits 10 ds ∧ f (natOf 10 ds) = e := by
    intro ds f h
    obtain ⟨n, hn, rfl⟩ := Option.map_eq_some_iff.mp h
    obtain ⟨hd, rfl⟩ := digits_iff.mp hn
    exact ⟨hd, rfl⟩
  unfold signedDigits at h
  split at h
  · obtain ⟨hd, rfl⟩ := hsome h
    exact .plus hd
  · obtain ⟨hd, rfl⟩ := hsome h
    exact .minus hd
  · obtain ⟨hd, rfl⟩ := hsome h
    exact .unsigned hd

/-- No sign is a digit. -/
theorem Digits.head {c : Char} {ds : List Char} (hd : Digits 10 (c :: ds)) : isDigit 10 c = true :=
  hd.digits c (List.mem_cons_self ..)

theorem signedDigits_complete {t : List Char} {e : ℤ} (h : SignedDigits t e) :
    signedDigits t = some e := by
  cases h with
  | plus hd => rw [signedDigits, digits_iff.mpr ⟨hd, rfl⟩]; rfl
  | minus hd => rw [signedDigits, digits_iff.mpr ⟨hd, rfl⟩]; rfl
  | unsigned hd =>
      unfold signedDigits
      split
      · exact absurd hd.head (by decide)
      · exact absurd hd.head (by decide)
      · rw [digits_iff.mpr ⟨hd, rfl⟩]
        rfl

theorem exponent_iff {t : List Char} {e : ℤ} : exponent t = some e ↔ Exponent t e := by
  constructor
  · intro h
    cases t with
    | nil =>
        cases h
        exact .absent
    | cons mark t =>
        rw [exponent] at h
        split at h
        · next hmark => exact .present hmark (signedDigits_sound h)
        · cases h
  · intro h
    cases h with
    | absent => rfl
    | present hmark hs => rw [exponent, if_pos hmark, signedDigits_complete hs]

/-- What follows the digits does not begin with one. -/
theorem Exponent.head {t : List Char} {e : ℤ} (h : Exponent t e) :
    ∀ c t', t = c :: t' → isDigit 10 c = false := by
  intro c t' ht
  cases h with
  | absent => cases ht
  | present hmark _ =>
      obtain ⟨rfl, -⟩ := List.cons.inj ht
      rcases hmark with rfl | rfl
      · decide
      · decide

/-- Digits are read up to the first character that is none. -/
theorem takeWhile_digits {radix : ℕ} {ds t : List Char} (hd : ∀ c ∈ ds, isDigit radix c = true)
    (ht : ∀ c t', t = c :: t' → isDigit radix c = false) :
    (ds ++ t).takeWhile (isDigit radix) = ds ∧ (ds ++ t).dropWhile (isDigit radix) = t := by
  rw [List.takeWhile_append_of_pos hd, List.dropWhile_append_of_pos hd]
  cases t with
  | nil => simp
  | cons c t => simp [ht c t rfl]

theorem mem_takeWhile_digits {radix : ℕ} {t : List Char} :
    ∀ c ∈ t.takeWhile (isDigit radix), isDigit radix c = true :=
  fun _ hc => List.mem_takeWhile_imp hc

theorem afterWhole_sound {i t : List Char} {q : ℚ} (hi : ∀ c ∈ i, isDigit 10 c = true)
    (h : afterWhole i t = some q) : Decimal (i ++ t) q := by
  unfold afterWhole at h
  split at h
  · next t =>
    dsimp only at h
    split at h
    · cases h
    · next hne =>
      obtain ⟨e, he, rfl⟩ := Option.map_eq_some_iff.mp h
      have hd : Digits 10 (i ++ t.takeWhile (isDigit 10)) := by
        refine ⟨fun c hc => ?_, hne⟩
        rcases List.mem_append.mp hc with hc | hc
        · exact hi c hc
        · exact mem_takeWhile_digits c hc
      have hdec := Decimal.fraction hd (exponent_iff.mp he)
      rw [List.takeWhile_append_dropWhile] at hdec
      exact hdec
  · split at h
    · cases h
    · next hne =>
      obtain ⟨e, he, rfl⟩ := Option.map_eq_some_iff.mp h
      exact .whole ⟨hi, hne⟩ (exponent_iff.mp he)

theorem decimal_iff {t : List Char} {q : ℚ} : decimal t = some q ↔ Decimal t q := by
  constructor
  · intro h
    have hdec := afterWhole_sound mem_takeWhile_digits h
    rw [List.takeWhile_append_dropWhile] at hdec
    exact hdec
  · intro h
    cases h with
    | @whole i tail e hd he =>
        obtain ⟨hwhole, hrest⟩ := takeWhile_digits hd.digits he.head
        rw [decimal, hwhole, hrest]
        unfold afterWhole
        split
        · cases he with
          | present hmark _ => exact absurd hmark (by decide)
        · rw [if_neg hd.nonempty, exponent_iff.mpr he]
          rfl
    | @fraction i f tail e hd he =>
        obtain ⟨hwhole, hrest⟩ := takeWhile_digits (t := '.' :: (f ++ tail))
          (fun c hc => hd.digits c (List.mem_append_left _ hc)) fun c t ht => by
            obtain ⟨rfl, -⟩ := List.cons.inj ht
            decide
        obtain ⟨hfrac, hexp⟩ := takeWhile_digits
          (fun c hc => hd.digits c (List.mem_append_right _ hc)) he.head
        rw [decimal, hwhole, hrest, afterWhole, hfrac, hexp, if_neg hd.nonempty,
          exponent_iff.mpr he]
        rfl

theorem unsigned_iff {t : List Char} {v : Value} : unsigned t = some v ↔ Unsigned t v := by
  constructor
  · intro h
    unfold unsigned at h
    split at h
    · next ht =>
      cases h
      exact ht ▸ .infinity
    · obtain ⟨q, hq, rfl⟩ := Option.map_eq_some_iff.mp h
      exact .decimal (decimal_iff.mp hq)
  · intro h
    cases h with
    | infinity => rfl
    | @decimal t q hd =>
        have hq := decimal_iff.mpr hd
        have hne : t ≠ "Infinity".toList := by
          intro ht
          rw [ht] at hq
          cases hq
        rw [unsigned, if_neg hne, hq]
        rfl

/-- What announces a radix does not go on as an unsigned decimal. -/
theorem unsigned_radix {letter : Char} {r : ℕ} (ds : List Char) (hr : radixOf letter = some r) :
    unsigned ('0' :: letter :: ds) = none := by
  have hletter : letter ∈ ['x', 'X', 'o', 'O', 'b', 'B'] := by
    by_contra hnot
    simp only [List.mem_cons, List.not_mem_nil, or_false, not_or] at hnot
    simp [radixOf, hnot] at hr
  simp only [List.mem_cons, List.not_mem_nil, or_false] at hletter
  rcases hletter with rfl | rfl | rfl | rfl | rfl | rfl <;> rfl

theorem literal_iff {t : List Char} {v : Value} : literal t = some v ↔ Literal t v := by
  constructor
  · intro h
    unfold literal at h
    split at h
    · exact .plus (unsigned_iff.mp h)
    · obtain ⟨w, hw, rfl⟩ := Option.map_eq_some_iff.mp h
      exact .minus (unsigned_iff.mp hw)
    · split at h
      · next hr =>
        obtain ⟨n, hn, rfl⟩ := Option.map_eq_some_iff.mp h
        obtain ⟨hd, rfl⟩ := digits_iff.mp hn
        exact .radix hr hd
      · exact .unsigned (unsigned_iff.mp h)
    · exact .unsigned (unsigned_iff.mp h)
  · intro h
    cases h with
    | plus hu => exact unsigned_iff.mpr hu
    | minus hu => rw [literal, unsigned_iff.mpr hu]; rfl
    | radix hr hd =>
        simp only [literal, hr]
        rw [digits_iff.mpr ⟨hd, rfl⟩]
        rfl
    | unsigned hu =>
        have hv := unsigned_iff.mpr hu
        unfold literal
        split
        · cases hv
        · cases hv
        · split
          · next hr =>
            rw [unsigned_radix _ hr] at hv
            cases hv
          · exact hv
        · exact hv

/-! ## Texts and doubles -/

/-- `WhiteSpace` and `LineTerminator`, by their code points. -/
def isSpace (c : Char) : Bool :=
  c.toNat ∈ [0x9, 0xA, 0xB, 0xC, 0xD, 0x20, 0xA0, 0x1680, 0x2028, 0x2029, 0x202F, 0x205F, 0x3000,
    0xFEFF] || (0x2000 ≤ c.toNat && c.toNat ≤ 0x200A)

/-- `text.trim()` -/
def trim (text : String) : List Char := (text.toList.dropWhile isSpace).rdropWhile isSpace

/-- A double; zero has no sign here. -/
inductive Double where
  | nan
  | infinity (negative : Bool)
  | finite (q : ℚ)
  deriving DecidableEq

/-- `2 ^ e` -/
def pow2 (e : ℤ) : ℚ := ((2 : ℕ) : ℚ) ^ e

/-- The `e` with `2 ^ e ≤ |q| < 2 ^ (e + 1)`. -/
def binade (q : ℚ) : ℤ :=
  let e : ℤ := (Nat.log2 q.num.natAbs : ℤ) - Nat.log2 q.den
  if pow2 e ≤ |q| then e else e - 1

/-- The distance of the doubles around `q`. -/
def ulp (q : ℚ) : ℚ := pow2 (max (binade q - 52) (-1074))

/-- The nearest integer, a tie going to the even neighbour. -/
def roundEven (q : ℚ) : ℤ :=
  let rest := q - ⌊q⌋
  if rest + rest < 1 ∨ rest + rest = 1 ∧ ⌊q⌋ % 2 = 0 then ⌊q⌋ else ⌊q⌋ + 1

/-- From here on the nearest double is infinite. -/
def overflow : ℕ := 2 ^ 1024 - 2 ^ 970

def Value.toDouble : Value → Double
  | .infinity negative => .infinity negative
  | .exact q =>
      if (overflow : ℚ) ≤ q then .infinity false
      else if q ≤ -(overflow : ℚ) then .infinity true
      else .finite (roundEven (q / ulp q) * ulp q)

/-- `Number(text)` -/
def number (text : String) : Double :=
  if trim text = [] then .finite 0
  else
    match literal (trim text) with
    | some v => v.toDouble
    | none => .nan

/-- The text is a numeral, and this is the number it denotes. -/
inductive Denotes (text : String) : Double → Prop where
  | blank : trim text = [] → Denotes text (.finite 0)
  | literal {v : Value} : Literal (trim text) v → Denotes text v.toDouble

theorem Value.toDouble_ne_nan (v : Value) : v.toDouble ≠ .nan := by
  cases v with
  | infinity negative => exact fun h => by cases h
  | exact q =>
      rw [toDouble]
      split
      · exact fun h => by cases h
      · split <;> exact fun h => by cases h

/-- **`Number` reads what a text denotes**, and is not a number where it denotes nothing. -/
theorem denotes_iff {text : String} {d : Double} : Denotes text d ↔ number text = d ∧ d ≠ .nan := by
  constructor
  · intro h
    cases h with
    | blank hb => exact ⟨by rw [number, if_pos hb], fun h => by cases h⟩
    | literal hl =>
        have hlit := literal_iff.mpr hl
        have hne : trim text ≠ [] := by
          intro hb
          rw [hb] at hlit
          cases hlit
        exact ⟨by rw [number, if_neg hne, hlit], Value.toDouble_ne_nan _⟩
  · intro h
    obtain ⟨rfl, hne⟩ := h
    unfold number at hne ⊢
    split
    · next hb => exact .blank hb
    · next hb =>
      rw [if_neg hb] at hne
      cases hlit : Numeral.literal (trim text) with
      | some v => exact .literal (literal_iff.mp hlit)
      | none =>
          rw [hlit] at hne
          exact (hne rfl).elim

example : number " 5e-2 " = .finite (3602879701896397 / 72057594037927936) := by decide +kernel

end Numeral
