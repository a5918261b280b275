import HyperTrace.Text.Json

/-!
# Reading back what was written

`loads` inverts `dumps`: a value whose objects have each key once, and whose floats are
written as numerals that read back as themselves, comes out of its own text, the objects
that went through `default` as the strings they became.
-/

namespace JsonText

variable {F D : Type}

/-! ## Strings -/

theorem hexValue_hexDigit {n : ℕ} (h : n < 16) : hexValue (hexDigit n) = some n := by
  have hall : ∀ m < 16, hexValue (hexDigit m) = some m := by decide
  exact hall n h

/-- The units of a character. -/
def unitsOf (c : Char) : List ℕ :=
  if c.toNat < 0x10000 then [c.toNat]
  else [0xd800 + (c.toNat - 0x10000) / 0x400, 0xdc00 + (c.toNat - 0x10000) % 0x400]

theorem scanUnits_unit {n : ℕ} (h : n < 0x10000) (t : List Char) :
    scanUnits (unitEscape n ++ t) = (scanUnits t).map fun p => (n :: p.1, p.2) := by
  have h₁ := hexValue_hexDigit (Nat.mod_lt (n / 4096) (by decide : 0 < 16))
  have h₂ := hexValue_hexDigit (Nat.mod_lt (n / 256) (by decide : 0 < 16))
  have h₃ := hexValue_hexDigit (Nat.mod_lt (n / 16) (by decide : 0 < 16))
  have h₄ := hexValue_hexDigit (Nat.mod_lt n (by decide : 0 < 16))
  have hn : n / 4096 % 16 * 4096 + n / 256 % 16 * 256 + n / 16 % 16 * 16 + n % 16 = n := by omega
  simp only [unitEscape, List.cons_append, List.nil_append]
  rw [scanUnits]
  simp only [h₁, h₂, h₃, h₄, Option.bind_eq_bind, Option.bind_some, hn]
  cases scanUnits t <;> rfl

theorem scanUnits_letter {p : Char × ℕ} (h : p ∈ letterEscapes) (t : List Char) :
    scanUnits ('\\' :: p.1 :: t) = (scanUnits t).map fun q => (p.2 :: q.1, q.2) := by
  have hne : p.1 ≠ 'u' := by revert p; decide
  have hread : letterEscape p.1 = some p.2 := by revert p; decide
  rw [scanUnits]
  · simp only [hread, Option.bind_eq_bind, Option.bind_some]
    cases scanUnits t <;> rfl
  · intro a b c d r hu _
    exact hne hu

theorem scanUnits_plain {c : Char} (hq : c ≠ '"') (hb : c ≠ '\\') (hc : 32 ≤ c.toNat)
    (t : List Char) :
    scanUnits (c :: t) = (scanUnits t).map fun p => (c.toNat :: p.1, p.2) := by
  rw [scanUnits]
  · have hguard : (guard (32 ≤ c.toNat) : Option Unit) = some () := if_pos hc
    rw [hguard]
    cases scanUnits t <;> rfl
  all_goals simp [hq, hb]

/-- An escaped character is scanned as its units. -/
theorem scanUnits_escaped (c : Char) (t : List Char) :
    scanUnits (escaped c ++ t) = (scanUnits t).map fun p => (unitsOf c ++ p.1, p.2) := by
  unfold escaped
  split
  · rename_i p hp
    have hmem := List.mem_of_find?_eq_some hp
    have hval : p.2 = c.toNat := by simpa using List.find?_some hp
    have hsmall : p.2 < 0x10000 := by
      have hall : ∀ q ∈ letterEscapes, q.2 < 0x10000 := by decide
      exact hall p hmem
    rw [List.cons_append, List.cons_append, List.nil_append, scanUnits_letter hmem, unitsOf,
      if_pos (hval ▸ hsmall), hval]
    rfl
  · rename_i hnone
    have hne : ∀ n, (∃ l, (l, n) ∈ letterEscapes) → c.toNat ≠ n := by
      rintro n ⟨l, hl⟩ hcn
      have := List.find?_eq_none.mp hnone _ hl
      simp [hcn] at this
    split
    · rename_i hprint
      simp only [isPrintable, Bool.and_eq_true, decide_eq_true_eq] at hprint
      have hq : c ≠ '"' := by
        rintro rfl
        exact hne 34 ⟨'"', by decide⟩ rfl
      have hb : c ≠ '\\' := by
        rintro rfl
        exact hne 92 ⟨'\\', by decide⟩ rfl
      rw [List.cons_append, List.nil_append, scanUnits_plain hq hb hprint.1, unitsOf,
        if_pos (by omega)]
      rfl
    · split
      · rename_i hbasic
        rw [scanUnits_unit hbasic, unitsOf, if_pos hbasic]
        rfl
      · rename_i hastral
        have hmax : c.toNat < 0x110000 := by
          have := c.valid
          unfold UInt32.isValidChar Nat.isValidChar at this
          show c.val.toNat < _
          omega
        rw [List.append_assoc, scanUnits_unit (by omega), scanUnits_unit (by omega), unitsOf,
          if_neg hastral, Option.map_map]
        rfl

/-- The units of a character make it again. -/
theorem joinUnits_unitsOf (c : Char) (us : List ℕ) :
    joinUnits (unitsOf c ++ us) = (joinUnits us).map (c :: ·) := by
  have hvalid : c.toNat.isValidChar := c.valid
  have hof : Char.ofNat c.toNat = c := Char.ofNat_toNat c
  unfold unitsOf
  split
  · cases us with
    | nil => simp [joinUnits, hvalid, hof]
    | cons m us =>
        have hsurr : ¬(0xd800 ≤ c.toNat ∧ c.toNat < 0xdc00 ∧ 0xdc00 ≤ m ∧ m < 0xe000) := by
          unfold Nat.isValidChar at hvalid
          omega
        rw [List.cons_append, List.nil_append, joinUnits, if_neg hsurr, if_pos hvalid, hof]
  · rename_i hastral
    have hmax : c.toNat < 0x110000 := by
      unfold Nat.isValidChar at hvalid
      omega
    have hback : 0x10000 + (0xd800 + (c.toNat - 0x10000) / 0x400 - 0xd800) * 0x400
        + (0xdc00 + (c.toNat - 0x10000) % 0x400 - 0xdc00) = c.toNat := by omega
    rw [List.cons_append, List.cons_append, List.nil_append, joinUnits, if_pos (by omega), hback,
      hof]

theorem scanUnits_string (cs t : List Char) :
    scanUnits (cs.flatMap escaped ++ '"' :: t) = some (cs.flatMap unitsOf, t) := by
  induction cs with
  | nil => simp [scanUnits]
  | cons c cs ih =>
      rw [List.flatMap_cons, List.append_assoc, scanUnits_escaped, ih]
      rfl

theorem joinUnits_string (cs : List Char) : joinUnits (cs.flatMap unitsOf) = some cs := by
  induction cs with
  | nil => rfl
  | cons c cs ih =>
      rw [List.flatMap_cons, joinUnits_unitsOf, ih]
      rfl

/-- **A quoted string reads back.** -/
theorem readString_quoted (s : String) (t : List Char) :
    keyword ['"'] (quoted s ++ t) = some (s.toList.flatMap escaped ++ '"' :: t)
      ∧ readString (s.toList.flatMap escaped ++ '"' :: t) = some (s, t) := by
  constructor
  · simp [quoted, keyword]
  · simp [readString, scanUnits_string, joinUnits_string]

/-! ## Numbers -/

/-- A number ends where the text does, or before a comma or a closing bracket. -/
def Ends (t : List Char) : Prop := ∀ c ∈ t.head?, c = ',' ∨ c = ']' ∨ c = '}'

theorem Ends.nil : Ends [] := by
  intro c hc
  cases hc

theorem Ends.cons {c : Char} (h : c = ',' ∨ c = ']' ∨ c = '}') (t : List Char) : Ends (c :: t) := by
  intro d hd
  cases hd
  exact h

/-- Nothing that digits, or digits with a fraction, could go on with. -/
structure Stops (t : List Char) : Prop where
  digit : ∀ c ∈ t.head?, c.isDigit = false
  point : ∀ c ∈ t.head?, c ≠ '.'

theorem Ends.stops {t : List Char} (h : Ends t) : Stops t where
  digit c hc := by rcases h c hc with rfl | rfl | rfl <;> rfl
  point c hc := by rcases h c hc with rfl | rfl | rfl <;> decide

/-- Digits are taken up to what is none. -/
theorem digitsOf_append {ds t : List Char} (hds : ∀ c ∈ ds, c.isDigit)
    (ht : ∀ c ∈ t.head?, c.isDigit = false) :
    digitsOf (ds ++ t) = ds ∧ (ds ++ t).dropWhile Char.isDigit = t := by
  have htake : t.takeWhile Char.isDigit = [] := by
    cases t with
    | nil => rfl
    | cons c t => simp [ht c rfl]
  have hdrop : t.dropWhile Char.isDigit = t := by
    cases t with
    | nil => rfl
    | cons c t => simp [ht c rfl]
  exact ⟨by rw [digitsOf, List.takeWhile_append_of_pos hds, htake, List.append_nil],
    by rw [List.dropWhile_append_of_pos hds, hdrop]⟩

/-- `0`, or digits that begin with none. -/
inductive Whole : List Char → Prop where
  | zero : Whole ['0']
  | digits {d : Char} {ds : List Char} : d ≠ '0' → d.isDigit → (∀ c ∈ ds, c.isDigit) →
      Whole (d :: ds)

inductive Signed : List Char → Prop where
  | plain {ds : List Char} : Whole ds → Signed ds
  | minus {ds : List Char} : Whole ds → Signed ('-' :: ds)

inductive Fraction : List Char → Prop where
  | absent : Fraction []
  | present {ds : List Char} : ds ≠ [] → (∀ c ∈ ds, c.isDigit) → Fraction ('.' :: ds)

inductive Exponent : List Char → Prop where
  | absent : Exponent []
  | present {mark : Char} {sign ds : List Char} : mark = 'e' ∨ mark = 'E' →
      sign = [] ∨ sign = ['+'] ∨ sign = ['-'] → ds ≠ [] → (∀ c ∈ ds, c.isDigit) →
      Exponent (mark :: (sign ++ ds))

theorem Whole.read {ds t : List Char} (h : Whole ds) (ht : ∀ c ∈ t.head?, c.isDigit = false) :
    wholePart (ds ++ t) = some (ds, t) := by
  cases h with
  | zero => rfl
  | digits hne hd hds =>
      obtain ⟨htake, hdrop⟩ := digitsOf_append hds ht
      rw [List.cons_append, wholePart, if_neg hne, if_pos hd, htake, hdrop]

theorem Whole.head_ne {ds : List Char} (h : Whole ds) : ∃ d l, ds = d :: l ∧ d.isDigit := by
  cases h with
  | zero => exact ⟨'0', [], rfl, rfl⟩
  | digits _ hd _ => exact ⟨_, _, rfl, hd⟩

theorem Signed.read {i t : List Char} (h : Signed i) (ht : ∀ c ∈ t.head?, c.isDigit = false) :
    signedPart (i ++ t) = some (i, t) := by
  cases h with
  | plain hw =>
      obtain ⟨d, l, rfl, hd⟩ := hw.head_ne
      rw [List.cons_append, signedPart]
      · exact hw.read ht
      · rintro r ⟨⟩
        cases hd
  | minus hw =>
      rw [List.cons_append, signedPart, hw.read ht]
      rfl

theorem Fraction.read {f t : List Char} (h : Fraction f) (ht : Stops t) :
    fractionPart (f ++ t) = (f, t) := by
  cases h with
  | absent =>
      rw [List.nil_append]
      cases t with
      | nil => rfl
      | cons c t =>
          rw [fractionPart]
          rintro r ⟨⟩
          exact ht.point '.' rfl rfl
  | present hne hds =>
      obtain ⟨htake, hdrop⟩ := digitsOf_append hds ht.digit
      rw [List.cons_append, fractionPart, htake, hdrop, if_neg hne]

theorem Exponent.stops {e t : List Char} (h : Exponent e) (ht : Ends t) : Stops (e ++ t) := by
  cases h with
  | absent => exact ht.stops
  | present hmark _ _ _ =>
      constructor
      · rintro c ⟨⟩
        rcases hmark with rfl | rfl <;> rfl
      · rintro c ⟨⟩
        rcases hmark with rfl | rfl <;> decide

theorem Exponent.read {e t : List Char} (h : Exponent e) (ht : Ends t) :
    exponentPart (e ++ t) = (e, t) := by
  cases h with
  | absent =>
      rw [List.nil_append]
      cases t with
      | nil => rfl
      | cons c t =>
          have hc : ¬((c = 'e' ∨ c = 'E') ∧ digitsOf (exponentSign t).2 ≠ []) := by
            rintro ⟨hmark, -⟩
            rcases ht c rfl with rfl | rfl | rfl <;> exact absurd hmark (by decide)
          rw [exponentPart]
          exact if_neg hc
  | @present mark sign ds hmark hsign hne hds =>
      obtain ⟨htake, hdrop⟩ := digitsOf_append hds ht.stops.digit
      have hsplit : exponentSign (sign ++ ds ++ t) = (sign, ds ++ t) := by
        rcases hsign with rfl | rfl | rfl
        · cases ds with
          | nil => exact absurd rfl hne
          | cons d l =>
              have hd := hds d (List.mem_cons_self ..)
              rw [List.nil_append, List.cons_append, exponentSign]
              all_goals
                rintro r ⟨⟩
                cases hd
        · rfl
        · rfl
      rw [List.cons_append, exponentPart, hsplit]
      simp only [htake, hdrop]
      exact if_pos ⟨hmark, hne⟩

/-- **The parts of a number are found again.** -/
theorem readNumber_parts (T : FloatText F) {i f e t : List Char} (hi : Signed i)
    (hf : Fraction f) (he : Exponent e) (ht : Ends t) :
    readNumber T (i ++ f ++ e ++ t)
      = some (if f = [] ∧ e = [] then .int (intOf i) else .float (T.read (i ++ f ++ e)), t) := by
  have hstops := he.stops ht
  have hhead : ∀ c ∈ (f ++ (e ++ t)).head?, c.isDigit = false := by
    cases hf with
    | absent => exact hstops.digit
    | present _ _ =>
        rintro c ⟨⟩
        rfl
  rw [List.append_assoc, List.append_assoc, readNumber, hi.read hhead]
  simp only [Option.bind_eq_bind, Option.bind_some, hf.read hstops, he.read ht]
  rfl

/-- A positive number is not written with a leading nought. -/
theorem toDigits_head {n : ℕ} (hn : 0 < n) : ∃ d ds, Nat.toDigits 10 n = d :: ds ∧ d ≠ '0' := by
  induction n using Nat.strongRecOn with
  | ind n ih =>
      by_cases hlt : n < 10
      · have hall : ∀ m < 10, 0 < m → m.digitChar ≠ '0' := by decide
        exact ⟨n.digitChar, [], Nat.toDigits_of_lt_base hlt, hall n hlt hn⟩
      · obtain ⟨d, ds, hds, hd⟩ := ih (n / 10) (by omega) (by omega)
        refine ⟨d, ds ++ [(n % 10).digitChar], ?_, hd⟩
        rw [Nat.toDigits_of_base_le (by decide) (by omega), hds]
        rfl

theorem whole_toDigits (n : ℕ) : Whole (Nat.toDigits 10 n) := by
  have hdigits : ∀ c ∈ Nat.toDigits 10 n, c.isDigit := fun c hc =>
    Nat.isDigit_of_mem_toDigits (by decide) (by decide) hc
  rcases Nat.eq_zero_or_pos n with rfl | hn
  · exact .zero
  · obtain ⟨d, ds, hds, hd⟩ := toDigits_head hn
    rw [hds] at hdigits ⊢
    exact .digits hd (hdigits d (List.mem_cons_self ..)) fun c hc =>
      hdigits c (List.mem_cons_of_mem _ hc)

theorem signed_intText (n : ℤ) : Signed (intText n) := by
  unfold intText
  split
  · exact .minus (whole_toDigits _)
  · exact .plain (whole_toDigits _)

theorem intOf_intText (n : ℤ) : intOf (intText n) = n := by
  have hback : Nat.ofDigitChars 10 (Nat.toDigits 10 n.natAbs) 0 = n.natAbs :=
    Nat.ofDigitChars_toDigits (by decide) (by decide)
  unfold intText
  split
  · rw [intOf, hback]
    omega
  · obtain ⟨d, ds, hds, hd⟩ := (whole_toDigits n.natAbs).head_ne
    rw [intOf, hback]
    · omega
    · intro r hr
      rw [hds] at hr
      cases hr
      cases hd

/-- **An integer reads back.** -/
theorem readNumber_int (T : FloatText F) (n : ℤ) {t : List Char} (ht : Ends t) :
    readNumber T (intText n ++ t) = some (.int n, t) := by
  have h := readNumber_parts T (signed_intText n) .absent .absent ht
  simpa [intOf_intText] using h

/-- A float is written as a numeral with a fraction or an exponent, and read back as itself. -/
structure FloatText.Exact (T : FloatText F) (x : F) : Prop where
  numeral : ∃ i f e, T.write x = i ++ f ++ e ∧ Signed i ∧ Fraction f ∧ Exponent e
    ∧ ¬(f = [] ∧ e = [])
  back : T.read (T.write x) = x

theorem readNumber_float {T : FloatText F} {x : F} (h : T.Exact x) {t : List Char}
    (ht : Ends t) : readNumber T (T.write x ++ t) = some (.float x, t) := by
  obtain ⟨i, f, e, hw, hi, hf, he, hne⟩ := h.numeral
  have hread := readNumber_parts T hi hf he ht
  rw [if_neg hne, ← hw, h.back] at hread
  exact hread

/-- A numeral begins with a digit or a sign. -/
theorem Signed.head {i : List Char} (h : Signed i) :
    ∃ c l, i = c :: l ∧ (c.isDigit ∨ c = '-') := by
  cases h with
  | plain hw =>
      obtain ⟨d, l, rfl, hd⟩ := hw.head_ne
      exact ⟨d, l, rfl, Or.inl hd⟩
  | minus hw => exact ⟨'-', _, rfl, Or.inr rfl⟩

/-! ## Values -/

mutual

/-- What is read of a value that was written. -/
def Value.rendered (default : D → String) : Value F D → Json F
  | .null => .null
  | .bool b => .bool b
  | .int n => .int n
  | .float x => .float x
  | .str s => .str s
  | .arr xs => .arr (renderedItems default xs)
  | .obj kvs => .obj (renderedPairs default kvs)
  | .other d => .str (default d)

def renderedItems (default : D → String) : List (Value F D) → List (Json F)
  | [] => []
  | x :: xs => x.rendered default :: renderedItems default xs

def renderedPairs (default : D → String) : List (String × Value F D) → List (String × Json F)
  | [] => []
  | (key, v) :: kvs => (key, v.rendered default) :: renderedPairs default kvs

end

mutual

/-- The dictionaries of a value have each key once, and its floats read back. -/
def Value.Writable (T : FloatText F) : Value F D → Prop
  | .float x => T.Exact x
  | .arr xs => WritableItems T xs
  | .obj kvs => (kvs.map Prod.fst).Nodup ∧ WritablePairs T kvs
  | _ => True

def WritableItems (T : FloatText F) : List (Value F D) → Prop
  | [] => True
  | x :: xs => x.Writable T ∧ WritableItems T xs

def WritablePairs (T : FloatText F) : List (String × Value F D) → Prop
  | [] => True
  | (_, v) :: kvs => v.Writable T ∧ WritablePairs T kvs

end

mutual

/-- How deep the reader recurses into what was written. -/
def Value.fuel : Value F D → ℕ
  | .null | .bool _ | .int _ | .float _ | .str _ | .other _ => 1
  | .arr xs => 2 + fuelItems xs
  | .obj kvs => 2 + fuelPairs kvs

def fuelItems : List (Value F D) → ℕ
  | [] => 0
  | x :: xs => 1 + x.fuel + fuelItems xs

def fuelPairs : List (String × Value F D) → ℕ
  | [] => 0
  | (_, v) :: kvs => 1 + v.fuel + fuelPairs kvs

end

@[simp] theorem renderedPairs_keys (default : D → String) (kvs : List (String × Value F D)) :
    (renderedPairs default kvs).map Prod.fst = kvs.map Prod.fst := by
  induction kvs with
  | nil => rfl
  | cons p kvs ih =>
      obtain ⟨key, v⟩ := p
      rw [renderedPairs, List.map_cons, List.map_cons, ih]

mutual

/-- JSON itself is rendered as it is. -/
theorem rendered_json : ∀ v : Json F, v.rendered Empty.elim = v
  | .null | .bool _ | .int _ | .float _ | .str _ => rfl
  | .arr xs => congrArg Value.arr (renderedItems_json xs)
  | .obj kvs => congrArg Value.obj (renderedPairs_json kvs)
  | .other d => d.elim

theorem renderedItems_json : ∀ xs : List (Json F), renderedItems Empty.elim xs = xs
  | [] => rfl
  | x :: xs => congrArg₂ List.cons (rendered_json x) (renderedItems_json xs)

theorem renderedPairs_json : ∀ kvs : List (String × Json F), renderedPairs Empty.elim kvs = kvs
  | [] => rfl
  | (_, v) :: kvs =>
      congrArg₂ List.cons (congrArg (Prod.mk _) (rendered_json v)) (renderedPairs_json kvs)

end

theorem writablePairs_iff {T : FloatText F} {kvs : List (String × Value F D)} :
    WritablePairs T kvs ↔ ∀ p ∈ kvs, p.2.Writable T := by
  induction kvs with
  | nil => simp [WritablePairs]
  | cons p kvs ih => rw [WritablePairs, ih, List.forall_mem_cons]

/-- A text begins with none of the characters that the reader skips or stops at. -/
structure Begins (t : List Char) : Prop where
  noWs : skipWs t = t
  nonempty : t ≠ []
  bracket : ∀ c ∈ t.head?, c ≠ ']' ∧ c ≠ '}'

theorem Begins.of_head {c : Char} {l : List Char} (hws : isWs c = false)
    (hc : c ≠ ']' ∧ c ≠ '}') : Begins (c :: l) where
  noWs := by simp [skipWs, hws]
  nonempty := by simp
  bracket d hd := by
    cases hd
    exact hc

theorem Signed.begins {i : List Char} (h : Signed i) (t : List Char) : Begins (i ++ t) := by
  obtain ⟨c, l, rfl, hc⟩ := h.head
  refine .of_head ?_ ⟨?_, ?_⟩
  · by_contra hws
    simp only [isWs, Bool.or_eq_true, decide_eq_true_eq, Bool.not_eq_false] at hws
    rcases hws with ((rfl | rfl) | rfl) | rfl <;> exact absurd hc (by decide)
  · rintro rfl
    exact absurd hc (by decide)
  · rintro rfl
    exact absurd hc (by decide)

theorem begins_write {T : FloatText F} {default : D → String} {v : Value F D}
    (h : v.Writable T) (t : List Char) : Begins (write T default v ++ t) := by
  have hquoted : ∀ s, Begins (quoted s ++ t) := fun s => .of_head rfl (by decide)
  cases v with
  | null => exact .of_head rfl (by decide)
  | bool b => cases b <;> exact .of_head rfl (by decide)
  | int n => exact (signed_intText n).begins t
  | float x =>
      obtain ⟨i, f, e, hw, hi, -⟩ := h.numeral
      rw [write, hw, List.append_assoc, List.append_assoc]
      exact hi.begins _
  | str s => exact hquoted s
  | arr xs => cases xs <;> exact .of_head rfl (by decide)
  | obj kvs => cases kvs <;> exact .of_head rfl (by decide)
  | other d => exact hquoted _

/-! ## Reading a value -/

section Read

variable {T : FloatText F} {default : D → String}

/-- What begins with a digit or a sign is read as a number, if it is one. -/
theorem readValue_number {c : Char} {l t : List Char} {v : Json F} (n : ℕ)
    (hc : c.isDigit ∨ c = '-') (h : readNumber T (c :: l) = some (v, t)) :
    readValue T (n + 1) (c :: l) = some (v, t) := by
  have hne : c ≠ '"' ∧ c ≠ '{' ∧ c ≠ '[' ∧ c ≠ 'n' ∧ c ≠ 't' ∧ c ≠ 'f' := by
    refine ⟨?_, ?_, ?_, ?_, ?_, ?_⟩ <;>
      · rintro rfl
        exact absurd hc (by decide)
  obtain ⟨h₁, h₂, h₃, h₄, h₅, h₆⟩ := hne
  rw [readValue]
  simp only [if_neg h₁, if_neg h₂, if_neg h₃, if_neg h₄, if_neg h₅, if_neg h₆, h, Option.some_or]

theorem readValue_signed {i r t : List Char} {v : Json F} (n : ℕ) (hi : Signed i)
    (h : readNumber T (i ++ r) = some (v, t)) : readValue T (n + 1) (i ++ r) = some (v, t) := by
  obtain ⟨c, l, rfl, hc⟩ := hi.head
  exact readValue_number n hc h

theorem readValue_quoted (n : ℕ) (s : String) (t : List Char) :
    readValue T (n + 1) (quoted s ++ t) = some (.str s, t) := by
  obtain ⟨-, hread⟩ := readString_quoted s t
  simp only [quoted, List.cons_append, List.append_assoc, List.nil_append] at hread ⊢
  rw [readValue]
  simp [hread]

/-- The items of a list, without its brackets. -/
def itemsText (T : FloatText F) (default : D → String) : List (Value F D) → List Char
  | [] => []
  | x :: xs => write T default x ++ writeItems T default xs

def pairsText (T : FloatText F) (default : D → String) : List (String × Value F D) → List Char
  | [] => []
  | (key, v) :: kvs => quoted key ++ ": ".toList ++ write T default v ++ writePairs T default kvs

theorem writeItems_cons (x : Value F D) (xs : List (Value F D)) :
    writeItems T default (x :: xs) = ", ".toList ++ itemsText T default (x :: xs) := by
  rw [writeItems, itemsText, List.append_assoc]

theorem writePairs_cons (p : String × Value F D) (kvs : List (String × Value F D)) :
    writePairs T default (p :: kvs) = ", ".toList ++ pairsText T default (p :: kvs) := by
  obtain ⟨key, v⟩ := p
  simp only [writePairs, pairsText, List.append_assoc]

theorem Value.fuel_pos (v : Value F D) : 0 < v.fuel := by
  cases v <;> simp only [Value.fuel] <;> omega

/-- After its bracket, a list with items is read as its items. -/
theorem readValue_items {r : List Char} (h : Begins r) (n : ℕ) :
    readValue T (n + 2) ('[' :: r) = (readItems T n r).map fun p => (.arr p.1, p.2) := by
  rw [readValue]
  simp only [Char.reduceEq, if_false, if_true, h.noWs]
  rw [readArray]
  rintro t rfl
  exact (h.bracket ']' rfl).1 rfl

theorem readItems_last {n : ℕ} {r t : List Char} {v : Json F}
    (hv : readValue T n r = some (v, ']' :: t)) : readItems T (n + 1) r = some ([v], t) := by
  rw [readItems, hv]
  rfl

theorem readItems_more {n : ℕ} {r r' t : List Char} {v : Json F} {vs : List (Json F)}
    (hv : readValue T n r = some (v, ", ".toList ++ r')) (hr : Begins r')
    (hvs : readItems T n r' = some (vs, t)) : readItems T (n + 1) r = some (v :: vs, t) := by
  have hskip : skipWs (' ' :: r') = r' := hr.noWs
  rw [readItems, hv]
  show (readItems T n (skipWs (' ' :: r'))).bind _ = _
  rw [hskip, hvs]
  rfl

theorem readValue_pairs {r : List Char} (h : Begins r) (n : ℕ) :
    readValue T (n + 2) ('{' :: r)
      = (readPairs T n r).map fun p => (.obj (Dict.ofItems p.1), p.2) := by
  rw [readValue]
  simp only [Char.reduceEq, if_false, if_true, h.noWs]
  rw [readObject]
  rintro t rfl
  exact (h.bracket '}' rfl).2 rfl

/-- A key is read with the colon after it. -/
theorem readPairs_key (n : ℕ) (key : String) {r : List Char} (hr : Begins r) :
    readPairs T (n + 1) (quoted key ++ ": ".toList ++ r) = (do
      let (v, t) ← readValue T n r
      match skipWs t with
      | '}' :: t => return ([(key, v)], t)
      | ',' :: t =>
          let (kvs, t) ← readPairs T n (skipWs t)
          return ((key, v) :: kvs, t)
      | _ => none) := by
  obtain ⟨hquote, hkey⟩ := readString_quoted key (':' :: ' ' :: r)
  have htext : quoted key ++ ": ".toList ++ r = quoted key ++ (':' :: ' ' :: r) := by simp
  have hskip : skipWs (' ' :: r) = r := hr.noWs
  rw [htext, readPairs, hquote]
  simp only [Option.bind_eq_bind, Option.bind_some, hkey]
  exact congrArg (fun r => (readValue T n r).bind _) hskip

theorem readPairs_last {n : ℕ} (key : String) {r t : List Char} {v : Json F} (hr : Begins r)
    (hv : readValue T n r = some (v, '}' :: t)) :
    readPairs T (n + 1) (quoted key ++ ": ".toList ++ r) = some ([(key, v)], t) := by
  rw [readPairs_key n key hr, hv]
  rfl

theorem readPairs_more {n : ℕ} (key : String) {r r' t : List Char} {v : Json F}
    {kvs : List (String × Json F)} (hr : Begins r)
    (hv : readValue T n r = some (v, ", ".toList ++ r')) (hr' : Begins r')
    (hkvs : readPairs T n r' = some (kvs, t)) :
    readPairs T (n + 1) (quoted key ++ ": ".toList ++ r) = some ((key, v) :: kvs, t) := by
  have hskip : skipWs (' ' :: r') = r' := hr'.noWs
  rw [readPairs_key n key hr, hv]
  show (readPairs T n (skipWs (' ' :: r'))).bind _ = _
  rw [hskip, hkvs]
  rfl

theorem begins_itemsText {x : Value F D} {xs : List (Value F D)} (h : x.Writable T)
    (t : List Char) : Begins (itemsText T default (x :: xs) ++ t) := by
  rw [itemsText, List.append_assoc]
  exact begins_write h _

theorem begins_pairsText {p : String × Value F D} {kvs : List (String × Value F D)}
    (t : List Char) : Begins (pairsText T default (p :: kvs) ++ t) :=
  .of_head rfl (by decide)

mutual

theorem readValue_write : ∀ (v : Value F D) (n : ℕ) (t : List Char), v.Writable T →
    v.fuel ≤ n → Ends t → readValue T n (write T default v ++ t) = some (v.rendered default, t)
  | v, 0, _, _, hn, _ => absurd v.fuel_pos (by omega)
  | .null, n + 1, t, _, _, _ => rfl
  | .bool true, n + 1, t, _, _, _ => rfl
  | .bool false, n + 1, t, _, _, _ => rfl
  | .int i, n + 1, t, _, _, ht => readValue_signed n (signed_intText i) (readNumber_int T i ht)
  | .float x, n + 1, t, h, _, ht => by
      obtain ⟨i, f, e, hw, hi, -⟩ := h.numeral
      have hread := readNumber_float h ht
      rw [hw, List.append_assoc, List.append_assoc] at hread
      rw [write, hw, List.append_assoc, List.append_assoc]
      exact readValue_signed n hi hread
  | .str s, n + 1, t, _, _, _ => readValue_quoted n s t
  | .other d, n + 1, t, _, _, _ => readValue_quoted n (default d) t
  | .arr [], n + 1, t, _, hn, _ => by
      obtain ⟨m, rfl⟩ : ∃ m, n = m + 1 := ⟨n - 1, by simp only [Value.fuel] at hn; omega⟩
      rfl
  | .arr (x :: xs), n + 1, t, h, hn, _ => by
      obtain ⟨m, rfl⟩ : ∃ m, n = m + 1 := ⟨n - 1, by simp only [Value.fuel] at hn; omega⟩
      have hitems := readItems_write (x :: xs) m t (by simp) h
        (by simp only [Value.fuel] at hn; omega)
      show readValue T (m + 2) ('[' :: (itemsText T default (x :: xs) ++ t)) = _
      rw [readValue_items (begins_itemsText h.1 t), hitems]
      rfl
  | .obj [], n + 1, t, _, hn, _ => by
      obtain ⟨m, rfl⟩ : ∃ m, n = m + 1 := ⟨n - 1, by simp only [Value.fuel] at hn; omega⟩
      rfl
  | .obj ((key, v) :: kvs), n + 1, t, h, hn, _ => by
      obtain ⟨m, rfl⟩ : ∃ m, n = m + 1 := ⟨n - 1, by simp only [Value.fuel] at hn; omega⟩
      have hpairs := readPairs_write ((key, v) :: kvs) m t (by simp) h.2
        (by simp only [Value.fuel] at hn; omega)
      have hkeys : ((renderedPairs default ((key, v) :: kvs)).map Prod.fst).Nodup := by
        rw [renderedPairs_keys]
        exact h.1
      show readValue T (m + 2) ('{' :: (pairsText T default ((key, v) :: kvs) ++ t)) = _
      rw [readValue_pairs (begins_pairsText t), hpairs, Option.map_some,
        Dict.ofItems_of_nodup hkeys]
      rfl

theorem readItems_write : ∀ (l : List (Value F D)) (n : ℕ) (t : List Char), l ≠ [] →
    WritableItems T l → fuelItems l ≤ n →
      readItems T n (itemsText T default l ++ t) = some (renderedItems default l, t)
  | [], _, _, hne, _, _ => absurd rfl hne
  | x :: _, 0, _, _, _, hn => by simp only [fuelItems] at hn; omega
  | [x], n + 1, t, _, h, hn => by
      have hx := readValue_write x n (']' :: t) h.1 (by simp only [fuelItems] at hn; omega)
        (.cons (by decide) _)
      rw [itemsText, List.append_assoc]
      exact readItems_last hx
  | x :: y :: xs, n + 1, t, _, h, hn => by
      have hx := readValue_write x n (", ".toList ++ (itemsText T default (y :: xs) ++ t)) h.1
        (by simp only [fuelItems] at hn; omega) (.cons (by decide) _)
      have hxs := readItems_write (y :: xs) n t (by simp) h.2
        (by simp only [fuelItems] at hn ⊢; omega)
      rw [itemsText, List.append_assoc, writeItems_cons, List.append_assoc]
      exact readItems_more hx (begins_itemsText h.2.1 t) hxs

theorem readPairs_write : ∀ (l : List (String × Value F D)) (n : ℕ) (t : List Char), l ≠ [] →
    WritablePairs T l → fuelPairs l ≤ n →
      readPairs T n (pairsText T default l ++ t) = some (renderedPairs default l, t)
  | [], _, _, hne, _, _ => absurd rfl hne
  | (_, _) :: _, 0, _, _, _, hn => by simp only [fuelPairs] at hn; omega
  | [(key, v)], n + 1, t, _, h, hn => by
      have hv := readValue_write v n ('}' :: t) h.1 (by simp only [fuelPairs] at hn; omega)
        (.cons (by decide) _)
      rw [pairsText, List.append_assoc, List.append_assoc]
      exact readPairs_last key (begins_write h.1 _) hv
  | (key, v) :: (key', v') :: kvs, n + 1, t, _, h, hn => by
      have hv := readValue_write v n (", ".toList ++ (pairsText T default ((key', v') :: kvs) ++ t))
        h.1 (by simp only [fuelPairs] at hn; omega) (.cons (by decide) _)
      have hkvs := readPairs_write ((key', v') :: kvs) n t (by simp) h.2
        (by simp only [fuelPairs] at hn ⊢; omega)
      have htext : pairsText T default ((key, v) :: (key', v') :: kvs) ++ t
          = quoted key ++ ": ".toList ++ (write T default v
            ++ (", ".toList ++ (pairsText T default ((key', v') :: kvs) ++ t))) := by
        rw [pairsText, writePairs_cons]
        simp only [List.append_assoc]
      rw [htext]
      exact readPairs_more key (begins_write h.1 _) hv (begins_pairsText t) hkvs

end

/-! ## The length of a text -/

theorem length_write_pos (default : D → String) {v : Value F D} (h : v.Writable T) :
    0 < (write T default v).length := by
  have hbegins : Begins (write T default v ++ []) := begins_write h []
  rw [List.append_nil] at hbegins
  exact List.length_pos_of_ne_nil hbegins.nonempty

mutual

theorem fuel_le (default : D → String) : ∀ v : Value F D, v.Writable T →
    v.fuel ≤ 2 * (write T default v).length
  | .arr (x :: xs), h => by
      have hx := fuel_le default x h.1
      have hxs := fuelItems_le default xs h.2
      simp only [write, Value.fuel, fuelItems, List.length_cons, List.length_append]
      omega
  | .obj ((key, v) :: kvs), h => by
      have hv := fuel_le default v h.2.1
      have hkvs := fuelPairs_le default kvs h.2.2
      simp only [write, Value.fuel, fuelPairs, List.length_cons, List.length_append]
      omega
  | .null, h | .bool _, h | .int _, h | .float _, h | .str _, h | .other _, h | .arr [], h
  | .obj [], h => by
      have hpos := length_write_pos default h
      simp only [Value.fuel, fuelItems, fuelPairs]
      omega

theorem fuelItems_le (default : D → String) : ∀ xs : List (Value F D),
    WritableItems T xs →
    fuelItems xs + 1 ≤ 2 * (writeItems T default xs).length
  | [], _ => by simp [fuelItems, writeItems]
  | x :: xs, h => by
      have hx := fuel_le default x h.1
      have hxs := fuelItems_le default xs h.2
      have hcomma : ", ".toList.length = 2 := rfl
      simp only [writeItems, fuelItems, List.length_append]
      omega

theorem fuelPairs_le (default : D → String) : ∀ kvs : List (String × Value F D),
    WritablePairs T kvs →
    fuelPairs kvs + 1 ≤ 2 * (writePairs T default kvs).length
  | [], _ => by simp [fuelPairs, writePairs]
  | (key, v) :: kvs, h => by
      have hv := fuel_le default v h.1
      have hkvs := fuelPairs_le default kvs h.2
      have hcomma : ", ".toList.length = 2 := rfl
      simp only [writePairs, fuelPairs, List.length_append]
      omega

end

/-- **`loads` reads what `dumps` has written.** -/
theorem loads_dumps (default : D → String) {v : Value F D} (h : v.Writable T) :
    loads T (dumps T default v) = some (v.rendered default) := by
  have hfuel := fuel_le default v h
  have hread : readValue T (2 * (write T default v).length + 1) (write T default v ++ [])
      = some (v.rendered default, []) := readValue_write v _ [] h (by omega) .nil
  have hbegins : Begins (write T default v ++ []) := begins_write h []
  rw [List.append_nil] at hread hbegins
  rw [loads, dumps, String.toList_ofList, String.length_ofList, hbegins.noWs, hread]
  rfl

theorem loads_dumps_json {v : Json F} (h : v.Writable T) :
    loads T (dumps T Empty.elim v) = some v :=
  (loads_dumps Empty.elim h).trans (congrArg some (rendered_json v))

/-! ## Bytes -/

/-- What is the same in UTF-8 as it is here. -/
def Ascii (t : List Char) : Prop := ∀ c ∈ t, c.toNat < 128

/-- A text that is given. -/
theorem ascii_of_all {t : List Char} (h : t.all (fun c => c.toNat < 128) = true) : Ascii t := by
  intro c hc
  exact of_decide_eq_true (List.all_eq_true.mp h c hc)

theorem Ascii.append {a b : List Char} (ha : Ascii a) (hb : Ascii b) : Ascii (a ++ b) := by
  intro c hc
  rcases List.mem_append.mp hc with hc | hc
  · exact ha c hc
  · exact hb c hc

theorem Ascii.cons {c : Char} {t : List Char} (hc : c.toNat < 128) (ht : Ascii t) :
    Ascii (c :: t) := by
  intro d hd
  rcases List.mem_cons.mp hd with rfl | hd
  · exact hc
  · exact ht d hd

theorem Ascii.nil : Ascii [] := by
  intro c hc
  cases hc

theorem Ascii.digits {ds : List Char} (h : ∀ c ∈ ds, c.isDigit) : Ascii ds := by
  intro c hc
  have hd := h c hc
  simp only [Char.isDigit, Bool.and_eq_true, decide_eq_true_eq, UInt32.le_iff_toNat_le] at hd
  have hle : c.val.toNat ≤ 57 := hd.2
  show c.val.toNat < 128
  omega

theorem ascii_hexDigit (n : ℕ) : (hexDigit (n % 16)).toNat < 128 := by
  have hall : ∀ m < 16, (hexDigit m).toNat < 128 := by decide
  exact hall _ (Nat.mod_lt n (by decide))

theorem ascii_unitEscape (n : ℕ) : Ascii (unitEscape n) :=
  .cons (by decide) (.cons (by decide) (.cons (ascii_hexDigit _) (.cons (ascii_hexDigit _)
    (.cons (ascii_hexDigit _) (.cons (ascii_hexDigit _) .nil)))))

theorem ascii_escaped (c : Char) : Ascii (escaped c) := by
  unfold escaped
  split
  · rename_i p hp
    have hall : ∀ q ∈ letterEscapes, q.1.toNat < 128 := by decide
    exact .cons (by decide) (.cons (hall p (List.mem_of_find?_eq_some hp)) .nil)
  · split
    · rename_i hprint
      simp only [isPrintable, Bool.and_eq_true, decide_eq_true_eq] at hprint
      exact .cons (by omega) .nil
    · split
      · exact ascii_unitEscape _
      · exact (ascii_unitEscape _).append (ascii_unitEscape _)

theorem ascii_quoted (s : String) : Ascii (quoted s) := by
  refine .cons (by decide) (.append ?_ (.cons (by decide) .nil))
  intro c hc
  obtain ⟨d, _, hd⟩ := List.mem_flatMap.mp hc
  exact ascii_escaped d c hd

theorem Whole.ascii {ds : List Char} (h : Whole ds) : Ascii ds := by
  cases h with
  | zero => exact .cons (by decide) .nil
  | digits _ hd hds =>
      refine Ascii.digits fun c hc => ?_
      rcases List.mem_cons.mp hc with rfl | hc
      · exact hd
      · exact hds c hc

theorem Signed.ascii {i : List Char} (h : Signed i) : Ascii i := by
  cases h with
  | plain hw => exact hw.ascii
  | minus hw => exact .cons (by decide) hw.ascii

theorem Fraction.ascii {f : List Char} (h : Fraction f) : Ascii f := by
  cases h with
  | absent => exact .nil
  | present _ hds => exact .cons (by decide) (.digits hds)

theorem Exponent.ascii {e : List Char} (h : Exponent e) : Ascii e := by
  cases h with
  | absent => exact .nil
  | present hmark hsign _ hds =>
      refine .cons ?_ (.append ?_ (.digits hds))
      · rcases hmark with rfl | rfl <;> decide
      · rcases hsign with rfl | rfl | rfl
        · exact .nil
        · exact .cons (by decide) .nil
        · exact .cons (by decide) .nil

theorem FloatText.Exact.ascii {x : F} (h : T.Exact x) : Ascii (T.write x) := by
  obtain ⟨i, f, e, hw, hi, hf, he, -⟩ := h.numeral
  rw [hw]
  exact (hi.ascii.append hf.ascii).append he.ascii

mutual

/-- **What is written is ASCII**, so encoding it makes one byte of each character. -/
theorem ascii_write (default : D → String) : ∀ v : Value F D, v.Writable T →
    Ascii (write T default v)
  | .null, _ | .bool true, _ | .bool false, _ | .arr [], _ | .obj [], _ => by
      unfold write
      exact ascii_of_all rfl
  | .int n, _ => (signed_intText n).ascii
  | .float _, h => h.ascii
  | .str s, _ => ascii_quoted s
  | .other d, _ => ascii_quoted (default d)
  | .arr (x :: xs), h =>
      .cons (by decide) (.append (ascii_write default x h.1) (ascii_writeItems default xs h.2))
  | .obj ((key, v) :: kvs), h =>
      .cons (by decide) (.append (.append (.append (ascii_quoted key) (ascii_of_all rfl))
        (ascii_write default v h.2.1)) (ascii_writePairs default kvs h.2.2))

theorem ascii_writeItems (default : D → String) : ∀ xs : List (Value F D), WritableItems T xs →
    Ascii (writeItems T default xs)
  | [], _ => .cons (by decide) .nil
  | x :: xs, h => .append (.append (ascii_of_all rfl) (ascii_write default x h.1))
      (ascii_writeItems default xs h.2)

theorem ascii_writePairs (default : D → String) : ∀ kvs : List (String × Value F D),
    WritablePairs T kvs → Ascii (writePairs T default kvs)
  | [], _ => .cons (by decide) .nil
  | (key, v) :: kvs, h =>
      .append (.append (.append (.append (ascii_of_all rfl) (ascii_quoted key))
        (ascii_of_all rfl)) (ascii_write default v h.1)) (ascii_writePairs default kvs h.2)

end

end Read

end JsonText
