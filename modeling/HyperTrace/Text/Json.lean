import HyperTrace.Text.Dict
import Mathlib.Data.Int.Notation
import Mathlib.Data.List.Nodup
import Mathlib.Data.Nat.Notation
import Mathlib.Data.Option.Basic
import Mathlib.Tactic.Common

/-!
# JSON texts

What Python's `json.dumps` writes for a value and what `json.loads` makes of a text. The
writer escapes everything outside printable ASCII, a character beyond the basic plane as
two escapes. The reader takes any text, with white space where the grammar allows it. How
a float is written and read is a parameter, and so is what `default` makes of an object
that has no text of its own.
-/

namespace JsonText

/-- What is written: `other` is an object that only `default` can turn into a text. -/
inductive Value (F D : Type) where
  | null
  | bool (b : Bool)
  | int (n : ℤ)
  | float (x : F)
  | str (s : String)
  | arr (xs : List (Value F D))
  | obj (kvs : List (String × Value F D))
  | other (d : D)

/-- What is read: there is nothing but JSON in it. -/
abbrev Json (F : Type) := Value F Empty

/-- `float.__repr__` and `float`. -/
structure FloatText (F : Type) where
  write : F → List Char
  read : List Char → F

variable {F D : Type}

/-! ## Writing -/

def hexDigit (n : ℕ) : Char := Char.ofNat (if n < 10 then 48 + n else 87 + n)

/-- `\uXXXX` of a sixteen-bit unit. -/
def unitEscape (n : ℕ) : List Char :=
  ['\\', 'u', hexDigit (n / 4096 % 16), hexDigit (n / 256 % 16), hexDigit (n / 16 % 16),
    hexDigit (n % 16)]

/-- The escapes of one letter, with the code points they stand for. -/
def letterEscapes : List (Char × ℕ) :=
  [('"', 34), ('\\', 92), ('n', 10), ('r', 13), ('t', 9), ('f', 12), ('b', 8)]

def isPrintable (c : Char) : Bool := 32 ≤ c.toNat && c.toNat ≤ 126

/-- `ESCAPE_ASCII` -/
def escaped (c : Char) : List Char :=
  match letterEscapes.find? fun p => p.2 = c.toNat with
  | some p => ['\\', p.1]
  | none =>
      if isPrintable c then [c]
      else if c.toNat < 0x10000 then unitEscape c.toNat
      else unitEscape (0xd800 + (c.toNat - 0x10000) / 0x400)
        ++ unitEscape (0xdc00 + (c.toNat - 0x10000) % 0x400)

def quoted (s : String) : List Char := '"' :: (s.toList.flatMap escaped ++ ['"'])

/-- `int.__repr__` -/
def intText (n : ℤ) : List Char :=
  if n < 0 then '-' :: Nat.toDigits 10 n.natAbs else Nat.toDigits 10 n.natAbs

mutual

/-- `json.dumps(v, default=default)` -/
def write (T : FloatText F) (default : D → String) : Value F D → List Char
  | .null => "null".toList
  | .bool b => if b then "true".toList else "false".toList
  | .int n => intText n
  | .float x => T.write x
  | .str s => quoted s
  | .arr [] => "[]".toList
  | .arr (x :: xs) => '[' :: (write T default x ++ writeItems T default xs)
  | .obj [] => ['{', '}']
  | .obj ((key, v) :: kvs) =>
      '{' :: (quoted key ++ ": ".toList ++ write T default v ++ writePairs T default kvs)
  | .other d => quoted (default d)

/-- The items after the first. -/
def writeItems (T : FloatText F) (default : D → String) : List (Value F D) → List Char
  | [] => "]".toList
  | x :: xs => ", ".toList ++ write T default x ++ writeItems T default xs

def writePairs (T : FloatText F) (default : D → String) : List (String × Value F D) → List Char
  | [] => ['}']
  | (key, v) :: kvs =>
      ", ".toList ++ quoted key ++ ": ".toList ++ write T default v ++ writePairs T default kvs

end

def dumps (T : FloatText F) (default : D → String) (v : Value F D) : String :=
  String.ofList (write T default v)

/-! ## Reading -/

def isWs (c : Char) : Bool := c = ' ' || c = '\t' || c = '\n' || c = '\r'

def skipWs (t : List Char) : List Char := t.dropWhile isWs

def hexValue (c : Char) : Option ℕ :=
  if '0' ≤ c ∧ c ≤ '9' then some (c.toNat - 48)
  else if 'a' ≤ c ∧ c ≤ 'f' then some (c.toNat - 87)
  else if 'A' ≤ c ∧ c ≤ 'F' then some (c.toNat - 55)
  else none

/-- The code point after a backslash: the seven letters that are written, and the slash. -/
def letterEscape (c : Char) : Option ℕ :=
  (letterEscapes.lookup c).or (if c = '/' then some 47 else none)

/-- `scanstring`: what stands up to the closing quote, an escape `\uXXXX` as its unit. -/
def scanUnits : List Char → Option (List ℕ × List Char)
  | [] => none
  | '"' :: t => some ([], t)
  | '\\' :: 'u' :: a :: b :: c :: d :: t => do
      let n := (← hexValue a) * 4096 + (← hexValue b) * 256 + (← hexValue c) * 16 + (← hexValue d)
      let (us, rest) ← scanUnits t
      return (n :: us, rest)
  | '\\' :: c :: t => do
      let n ← letterEscape c
      let (us, rest) ← scanUnits t
      return (n :: us, rest)
  | c :: t => do
      -- `strict`: no control character stands for itself
      guard (32 ≤ c.toNat)
      let (us, rest) ← scanUnits t
      return (c.toNat :: us, rest)

/--
The characters of the units, two surrogates making one. Python keeps a surrogate that stands
alone; a `String` cannot hold it, so that text is refused here.
-/
def joinUnits : List ℕ → Option (List Char)
  | [] => some []
  | [n] => if n.isValidChar then some [Char.ofNat n] else none
  | n :: m :: us =>
      if 0xd800 ≤ n ∧ n < 0xdc00 ∧ 0xdc00 ≤ m ∧ m < 0xe000 then
        (joinUnits us).map (Char.ofNat (0x10000 + (n - 0xd800) * 0x400 + (m - 0xdc00)) :: ·)
      else if n.isValidChar then (joinUnits (m :: us)).map (Char.ofNat n :: ·)
      else none

/-- A string, after its opening quote. -/
def readString (t : List Char) : Option (String × List Char) := do
  let (us, rest) ← scanUnits t
  let cs ← joinUnits us
  return (String.ofList cs, rest)

def digitsOf (t : List Char) : List Char := t.takeWhile Char.isDigit

/-- `0`, or digits that begin with none. -/
def wholePart : List Char → Option (List Char × List Char)
  | [] => none
  | c :: t =>
      if c = '0' then some (['0'], t)
      else if c.isDigit then some (c :: digitsOf t, t.dropWhile Char.isDigit)
      else none

def signedPart : List Char → Option (List Char × List Char)
  | '-' :: t => (wholePart t).map fun p => ('-' :: p.1, p.2)
  | t => wholePart t

/-- A point with digits after it, or nothing. -/
def fractionPart : List Char → List Char × List Char
  | '.' :: t =>
      if digitsOf t = [] then ([], '.' :: t)
      else ('.' :: digitsOf t, t.dropWhile Char.isDigit)
  | t => ([], t)

/-- The sign of an exponent. -/
def exponentSign : List Char → List Char × List Char
  | '+' :: t => (['+'], t)
  | '-' :: t => (['-'], t)
  | t => ([], t)

/-- `e` with digits after it, or nothing. -/
def exponentPart : List Char → List Char × List Char
  | [] => ([], [])
  | c :: t =>
      let (sign, ds) := exponentSign t
      if (c = 'e' ∨ c = 'E') ∧ digitsOf ds ≠ [] then
        (c :: (sign ++ digitsOf ds), ds.dropWhile Char.isDigit)
      else ([], c :: t)

/-- `int` of the digits of a number. -/
def intOf : List Char → ℤ
  | '-' :: ds => -(Nat.ofDigitChars 10 ds 0 : ℕ)
  | ds => (Nat.ofDigitChars 10 ds 0 : ℕ)

/-- `match_number`: a float where it has a fraction or an exponent. -/
def readNumber (T : FloatText F) (t : List Char) : Option (Json F × List Char) := do
  let (i, t) ← signedPart t
  let (f, t) := fractionPart t
  let (e, t) := exponentPart t
  return (if f = [] ∧ e = [] then .int (intOf i) else .float (T.read (i ++ f ++ e)), t)

/-- The text after a word it starts with. -/
def keyword : List Char → List Char → Option (List Char)
  | [], t => some t
  | c :: w, d :: t => if c = d then keyword w t else none
  | _ :: _, [] => none

/-- `parse_constant` -/
def readConstant (T : FloatText F) (t : List Char) : Option (Json F × List Char) :=
  ["NaN", "Infinity", "-Infinity"].findSome? fun word =>
    (keyword word.toList t).map fun t => (.float (T.read word.toList), t)

mutual

/-- `scan_once` -/
def readValue (T : FloatText F) : ℕ → List Char → Option (Json F × List Char)
  | 0, _ => none
  | n + 1, t =>
      match t with
      | [] => none
      | c :: rest =>
          if c = '"' then (readString rest).map fun p => (.str p.1, p.2)
          else if c = '{' then readObject T n (skipWs rest)
          else if c = '[' then readArray T n (skipWs rest)
          else if c = 'n' then (keyword "null".toList t).map fun t => (.null, t)
          else if c = 't' then (keyword "true".toList t).map fun t => (.bool true, t)
          else if c = 'f' then (keyword "false".toList t).map fun t => (.bool false, t)
          else (readNumber T t).or (readConstant T t)

/-- `JSONArray`, after its bracket. -/
def readArray (T : FloatText F) : ℕ → List Char → Option (Json F × List Char)
  | 0, _ => none
  | n + 1, t =>
      match t with
      | ']' :: t => some (.arr [], t)
      | t => (readItems T n t).map fun p => (.arr p.1, p.2)

def readItems (T : FloatText F) : ℕ → List Char → Option (List (Json F) × List Char)
  | 0, _ => none
  | n + 1, t => do
      let (v, t) ← readValue T n t
      match skipWs t with
      | ']' :: t => return ([v], t)
      | ',' :: t =>
          let (vs, t) ← readItems T n (skipWs t)
          return (v :: vs, t)
      | _ => none

/-- `JSONObject`, after its brace. -/
def readObject (T : FloatText F) : ℕ → List Char → Option (Json F × List Char)
  | 0, _ => none
  | n + 1, t =>
      match t with
      | '}' :: t => some (.obj [], t)
      | t => (readPairs T n t).map fun p => (.obj (Dict.ofItems p.1), p.2)

def readPairs (T : FloatText F) : ℕ → List Char → Option (List (String × Json F) × List Char)
  | 0, _ => none
  | n + 1, t => do
      let t ← keyword ['"'] t
      let (key, t) ← readString t
      let t ← keyword [':'] (skipWs t)
      let (v, t) ← readValue T n (skipWs t)
      match skipWs t with
      | '}' :: t => return ([(key, v)], t)
      | ',' :: t =>
          let (kvs, t) ← readPairs T n (skipWs t)
          return ((key, v) :: kvs, t)
      | _ => none

end

/-- `json.loads`: nothing where it raises `JSONDecodeError`. -/
def loads (T : FloatText F) (s : String) : Option (Json F) := do
  let (v, t) ← readValue T (2 * s.length + 1) (skipWs s.toList)
  guard (skipWs t = [])
  return v

end JsonText
