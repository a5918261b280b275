import HyperTrace.Text.Json
import Mathlib.Algebra.Order.Floor.Ring
import Mathlib.Data.Rat.Floor
import Mathlib.Data.Nat.Sqrt

/-!
# Values the services compute with

The services are Python programs that exchange JSON. This module has the little
of both that the handlers depend on: numbers, `round`, the string operations of
the service id, and JSON values with Python's notions of truth, order and
membership, each raising `TypeError` exactly where Python does.

Numbers are exact. A `Scalar` is an ordered field with a floor and a square root,
so one development serves the rationals, on which everything can be evaluated,
and the reals, on which the square root is the true one.
-/

namespace HyperTrace

/-- The number type of a development: exact arithmetic, `floor` for `round`, `sqrt` for `** 0.5`. -/
class Scalar (K : Type) extends Field K, LinearOrder K, IsStrictOrderedRing K, FloorRing K where
  sqrt : K → K

/-- The rationals, with the square root of a fraction taken on both sides of the bar. -/
instance : Scalar ℚ where
  sqrt q := if q ≤ 0 then 0 else (Nat.sqrt q.num.toNat : ℚ) / (Nat.sqrt q.den : ℚ)

section Rounding

variable {K : Type} [Scalar K]

/-- The nearest integer, a tie going to the even neighbour. -/
def roundHalfEven (x : K) : ℤ :=
  if Int.fract x < 1 / 2 then ⌊x⌋
  else if 1 / 2 < Int.fract x then ⌊x⌋ + 1
  else if ⌊x⌋ % 2 = 0 then ⌊x⌋ else ⌊x⌋ + 1

/-- `round(x, 3)`. -/
def round3 (x : K) : K := (roundHalfEven (x * 1000) : K) / 1000

/-- Adding an even integer moves the rounded value by exactly that integer. -/
theorem roundHalfEven_add_even (x : K) (m : ℤ) (hm : m % 2 = 0) :
    roundHalfEven (x + m) = roundHalfEven x + m := by
  have hpar : (⌊x⌋ + m) % 2 = 0 ↔ ⌊x⌋ % 2 = 0 := by omega
  unfold roundHalfEven
  rw [Int.fract_add_intCast, Int.floor_add_intCast]
  simp only [hpar]
  split <;> [skip; split <;> [skip; split]] <;> omega

/-- Rounding does not cross an integer. -/
theorem roundHalfEven_le {x : K} {m : ℤ} (h : x ≤ m) : roundHalfEven x ≤ m := by
  have hfloor : ⌊x⌋ ≤ m := Int.cast_le.mp ((Int.floor_le x).trans h)
  rcases lt_or_eq_of_le hfloor with hlt | heq
  · unfold roundHalfEven
    split <;> [skip; split <;> [skip; split]] <;> omega
  · have hx : x = m := le_antisymm h (heq ▸ Int.floor_le x)
    rw [hx, roundHalfEven, Int.fract_intCast, if_pos (by norm_num), Int.floor_intCast]

/-- What the rounded value reaches: half a unit below an integer suffices if it is even. -/
theorem le_roundHalfEven_iff {x : K} {m : ℤ} :
    m ≤ roundHalfEven x ↔ (m : K) - 1 / 2 < x ∨ ((m : K) - 1 / 2 = x ∧ m % 2 = 0) := by
  have hx : (⌊x⌋ : K) + Int.fract x = x := Int.floor_add_fract x
  have hcast : ∀ {a b : ℤ}, a ≤ b → (a : K) ≤ b := Int.cast_le.mpr
  have hnn := Int.fract_nonneg x
  have hlt := Int.fract_lt_one x
  -- below the floor an integer is reached anyway, two above it it never is
  have hlow : m ≤ ⌊x⌋ → (m : K) - 1 / 2 < x := fun h => by linarith [hcast h]
  have hhigh : ⌊x⌋ + 2 ≤ m → x < (m : K) - 1 / 2 := by
    intro h
    have := hcast h
    push_cast at this
    linarith
  unfold roundHalfEven
  rcases lt_trichotomy m (⌊x⌋ + 1) with hm | hm | hm
  · have hle : m ≤ ⌊x⌋ := by omega
    refine iff_of_true ?_ (.inl (hlow hle))
    split <;> [skip; split <;> [skip; split]] <;> omega
  · have hmid : (m : K) = ⌊x⌋ + 1 := by rw [hm]; push_cast; rfl
    rw [hmid]
    by_cases hbelow : Int.fract x < 1 / 2
    · rw [if_pos hbelow]
      refine iff_of_false (by omega) ?_
      rintro (h | ⟨h, -⟩) <;> linarith
    rw [if_neg hbelow]
    by_cases habove : 1 / 2 < Int.fract x
    · rw [if_pos habove]
      exact iff_of_true hm.le (.inl (by linarith))
    rw [if_neg habove]
    have htie : (⌊x⌋ : K) + 1 - 1 / 2 = x := by linarith
    by_cases heven : ⌊x⌋ % 2 = 0
    · rw [if_pos heven]
      refine iff_of_false (by omega) ?_
      rintro (h | ⟨-, h⟩)
      · exact absurd h (by rw [htie]; exact lt_irrefl x)
      · omega
    · rw [if_neg heven]
      exact iff_of_true hm.le (.inr ⟨htie, by omega⟩)
  · have hge : ⌊x⌋ + 2 ≤ m := by omega
    refine iff_of_false ?_ ?_
    · split <;> [skip; split <;> [skip; split]] <;> omega
    · rintro (h | ⟨h, -⟩) <;> linarith [hhigh hge]

theorem roundHalfEven_mono {x y : K} (h : x ≤ y) : roundHalfEven x ≤ roundHalfEven y := by
  rw [le_roundHalfEven_iff]
  rcases le_roundHalfEven_iff.mp (le_refl (roundHalfEven x)) with hx | ⟨hx, heven⟩
  · exact .inl (hx.trans_le h)
  · rcases lt_or_eq_of_le (hx.trans_le h) with hlt | heq
    · exact .inl hlt
    · exact .inr ⟨heq, heven⟩

/-- Adding an even number of thousandths moves the rounded value by as many. -/
theorem round3_add (x : K) (m : ℤ) (hm : m % 2 = 0) :
    round3 (x + m / 1000) = round3 x + m / 1000 := by
  have hmul : (x + (m : K) / 1000) * 1000 = x * 1000 + m := by
    rw [add_mul, div_mul_cancel₀ _ (by norm_num)]
  rw [round3, hmul, roundHalfEven_add_even _ _ hm, Int.cast_add, add_div, round3]

theorem round3_le {x : K} {m : ℤ} (h : x ≤ m / 1000) : round3 x ≤ m / 1000 := by
  refine div_le_div_of_nonneg_right (Int.cast_le.mpr (roundHalfEven_le ?_)) (by norm_num)
  rwa [← le_div_iff₀ (by norm_num)]

theorem round3_mono {x y : K} (h : x ≤ y) : round3 x ≤ round3 y := by
  refine div_le_div_of_nonneg_right (Int.cast_le.mpr (roundHalfEven_mono ?_)) (by norm_num)
  exact mul_le_mul_of_nonneg_right h (by norm_num)

/-- An even number of thousandths is reached from half a thousandth below. -/
theorem le_round3_iff {x : K} {m : ℤ} (hm : m % 2 = 0) :
    (m : K) / 1000 ≤ round3 x ↔ ((m : K) - 1 / 2) / 1000 ≤ x := by
  rw [round3, div_le_div_iff_of_pos_right (by norm_num), Int.cast_le, le_roundHalfEven_iff,
    div_le_iff₀ (by norm_num), le_iff_lt_or_eq]
  simp only [hm, and_true]

end Rounding

/-! ## Strings -/

/-- `s.startswith(p)`. -/
def startswith (s p : String) : Bool := p.toList.isPrefixOf s.toList

/-- `s.partition("/")`, without the separator. -/
def partitionSlash (s : String) : String × String :=
  (String.ofList (s.toList.takeWhile (· ≠ '/')),
    String.ofList ((s.toList.dropWhile (· ≠ '/')).drop 1))

/-- The part before the slash begins with whatever the slash-free start of `s` begins with. -/
theorem startswith_of_partition {s p : String} (h : startswith (partitionSlash s).1 p = true) :
    startswith s p = true := by
  simp only [startswith, partitionSlash, List.isPrefixOf_iff_prefix, String.toList_ofList] at *
  exact h.trans (List.takeWhile_prefix _)

/-! ## JSON -/

/-- A decoded JSON value. Python tells integers from floats, so they are kept apart. -/
abbrev Json (K : Type) := JsonText.Json K

/-- The exceptions the services raise, let through, or catch. -/
inductive Err where
  /-- `KeyError` -/
  | keyError (key : String)
  /-- `TypeError` -/
  | typeError
  /-- `ValueError` -/
  | valueError
  /-- `pika.exceptions.AMQPError` or `OSError` -/
  | amqp
  /-- the database is unreachable or the transaction was aborted -/
  | db
  /-- a constraint of the schema was violated -/
  | integrity
  /-- `kubernetes.client.ApiException` -/
  | api (status : Nat)
  /-- any other exception out of a client library -/
  | other
  /-- FastAPI's `HTTPException` -/
  | http (status : Nat) (detail : String)
  deriving DecidableEq, Repr

theorem bind_ok {α β : Type} {x : Except Err α} {f : α → Except Err β} {b : β}
    (h : (x >>= f) = .ok b) : ∃ a, x = .ok a ∧ f a = .ok b := by
  cases x with
  | ok a => exact ⟨a, rfl, h⟩
  | error e => cases h

namespace Json

variable {K : Type}

/-- The pairs of a JSON object read as a Python `dict`: `d.get(key)`. -/
def get (kvs : List (String × Json K)) (key : String) : Option (Json K) := kvs.lookup key

/-- `d[key]`. -/
def item (kvs : List (String × Json K)) (key : String) : Except Err (Json K) :=
  match get kvs key with
  | some v => .ok v
  | none => .error (.keyError key)

/-- `v[key]`, of a value that must be a dict. -/
def subscript (v : Json K) (key : String) : Except Err (Json K) :=
  match v with
  | .obj kvs => item kvs key
  | _ => .error .typeError

/-- `bool(v)`. -/
def truthy [Zero K] [DecidableEq K] : Json K → Bool
  | .null => false
  | .bool b => b
  | .int n => n ≠ 0
  | .float x => x ≠ 0
  | .str s => s ≠ ""
  | .arr xs => !xs.isEmpty
  | .obj kvs => !kvs.isEmpty

/-- The number Python compares with, `bool` being an integer. -/
def number [IntCast K] : Json K → Option K
  | .bool b => some (if b then 1 else 0 : ℤ)
  | .int n => some n
  | .float x => some x
  | _ => none

/-- `x < v`. -/
def ltNumber [IntCast K] [LT K] [DecidableLT K] (x : K) (v : Json K) : Except Err Bool :=
  match v.number with
  | some y => .ok (decide (x < y))
  | none => .error .typeError

/-- Whether the value is the string `s`. -/
def isStr (s : String) : Json K → Bool
  | .str t => t = s
  | _ => false

/-- `s in v`: a member of a list, a key of an object, a substring of a string. -/
def containsStr (s : String) : Json K → Except Err Bool
  | .arr xs => .ok (xs.any (isStr s))
  | .obj kvs => .ok (kvs.any fun kv => kv.1 = s)
  | .str t => .ok (t.toList.tails.any s.toList.isPrefixOf)
  | _ => .error .typeError

/-- `s.startswith(v)`. -/
def startsWith (s : String) : Json K → Except Err Bool
  | .str p => .ok (startswith s p)
  | _ => .error .typeError

/--
A JSON text that `json.dumps` has made. `json.loads` inverts that (`JsonText.loads_dumps_json`),
so such a text is the value it encodes.
-/
structure Text (K : Type) where
  value : Json K

/-- `json.dumps` -/
def dumps (v : Json K) : Text K := ⟨v⟩

/-- `json.loads` -/
def loads (t : Text K) : Json K := t.value

@[simp] theorem loads_dumps (v : Json K) : loads (dumps v) = v := rfl

end Json

end HyperTrace
