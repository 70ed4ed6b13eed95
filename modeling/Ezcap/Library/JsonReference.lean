import Ezcap.Library.Format
import Ezcap.Library.Json

/-! A reference implementation of the JSON interface, so that models over it can be
evaluated. Parsing recurses on fuel, one unit for each value or member. -/

namespace JsonReference

open StdString

/-! ## Parsing -/

def skipSpace (s : Bytes) : Bytes :=
  s.dropWhile fun c => c == 0x20 || c == 0x09 || c == 0x0a || c == 0x0d

def hexValue (c : UInt8) : Option ℕ :=
  if '0'.toUInt8 ≤ c ∧ c ≤ '9'.toUInt8 then some (c.toNat - '0'.toNat)
  else if 'a'.toUInt8 ≤ c ∧ c ≤ 'f'.toUInt8 then some (c.toNat - 'a'.toNat + 10)
  else if 'A'.toUInt8 ≤ c ∧ c ≤ 'F'.toUInt8 then some (c.toNat - 'A'.toNat + 10)
  else none

def hex4 (a b c d : UInt8) : Option ℕ :=
  (hexValue a).bind fun a => (hexValue b).bind fun b => (hexValue c).bind fun c =>
    (hexValue d).map fun d => a * 4096 + b * 256 + c * 16 + d

/-- The UTF-8 bytes of a code point. -/
def utf8 (n : ℕ) : Bytes :=
  if n < 0x80 then [n.toUInt8]
  else if n < 0x800 then [(0xC0 + n / 64).toUInt8, (0x80 + n % 64).toUInt8]
  else if n < 0x10000 then
    [(0xE0 + n / 4096).toUInt8, (0x80 + n / 64 % 64).toUInt8, (0x80 + n % 64).toUInt8]
  else
    [(0xF0 + n / 262144).toUInt8, (0x80 + n / 4096 % 64).toUInt8, (0x80 + n / 64 % 64).toUInt8,
      (0x80 + n % 64).toUInt8]

def escapes : List (UInt8 × UInt8) :=
  [(0x22, 0x22), (0x5c, 0x5c), ('/'.toUInt8, '/'.toUInt8), ('b'.toUInt8, 8), ('f'.toUInt8, 12),
    ('n'.toUInt8, 10), ('r'.toUInt8, 13), ('t'.toUInt8, 9)]

/-- One escape sequence after its backslash, and how many bytes it has. -/
def escape : Bytes → Option (Bytes × ℕ)
  | 0x75 :: a :: b :: c :: d :: rest =>
      (hex4 a b c d).bind fun high =>
        if high < 0xD800 ∨ 0xDFFF < high then some (utf8 high, 5)
        else
          match rest with
          | 0x5c :: 0x75 :: e :: f :: g :: h :: _ =>
              (hex4 e f g h).bind fun low =>
                if high ≤ 0xDBFF ∧ 0xDC00 ≤ low ∧ low ≤ 0xDFFF then
                  some (utf8 (0x10000 + (high - 0xD800) * 1024 + (low - 0xDC00)), 11)
                else none
          | _ => none
  | c :: _ => (escapes.find? fun e => e.1 == c).map fun e => ([e.2], 1)
  | [] => none

/-- The rest of a string after its opening quote: its contents and what follows it. `skip` bytes
belong to an escape sequence that is already decoded. -/
def string : ℕ → Bytes → Option (Bytes × Bytes)
  | _, [] => none
  | skip + 1, _ :: rest => string skip rest
  | 0, c :: rest =>
      if c = 0x22 then some ([], rest)
      else if c < 0x20 then none
      else if c = 0x5c then
        (escape rest).bind fun e => (string e.2 rest).map fun r => (e.1 ++ r.1, r.2)
      else (string 0 rest).map fun r => (c :: r.1, r.2)

def isDigit (c : UInt8) : Bool := '0'.toUInt8 ≤ c && c ≤ '9'.toUInt8

def natOf (digits : Bytes) : ℕ := digits.foldl (fun n c => n * 10 + (c.toNat - '0'.toNat)) 0

/-- The fraction and exponent of a number, if any, as a factor and the rest. -/
def scale (int : ℚ) (s : Bytes) : Option (Option ℚ × Bytes) :=
  let fraction : Option (Option ℚ × Bytes) :=
    match s with
    | 0x2e :: rest =>
        let digits := rest.takeWhile isDigit
        if digits = [] then none
        else some (some (int + natOf digits / 10 ^ digits.length), rest.dropWhile isDigit)
    | _ => some (none, s)
  fraction.bind fun (value, rest) =>
    match rest with
    | e :: rest' =>
        if e = 'e'.toUInt8 ∨ e = 'E'.toUInt8 then
          let (negative, rest') :=
            match rest' with
            | 0x2b :: r => (false, r)
            | 0x2d :: r => (true, r)
            | r => (false, r)
          let digits := rest'.takeWhile isDigit
          if digits = [] then none
          else
            let power : ℚ := 10 ^ natOf digits
            let base := value.getD int
            some (some (if negative then base / power else base * power), rest'.dropWhile isDigit)
        else some (value, rest)
    | [] => some (value, [])

def number (negative : Bool) (s : Bytes) : Option (Json × Bytes) :=
  let digits := s.takeWhile isDigit
  if digits = [] ∨ (digits.head? = some '0'.toUInt8 ∧ digits.length > 1) then none
  else
    let n := natOf digits
    (scale n (s.dropWhile isDigit)).map fun (value, rest) =>
      let doc : Json :=
        match value with
        | some q => .float (if negative then -q else q)
        | none =>
            if negative then if n ≤ 2 ^ 63 then .integer (-n) else .float (-n)
            else if n < 2 ^ 64 then .unsigned n else .float n
      (doc, rest)

/-- `object[key] = value` in key order; a later member replaces an earlier one. -/
def assign (key : Bytes) (value : Json) : List (Bytes × Json) → List (Bytes × Json)
  | [] => [(key, value)]
  | f :: fields =>
      if f.1 = key then (key, value) :: fields
      else if key < f.1 then (key, value) :: f :: fields
      else f :: assign key value fields

/-- What the parser reads next: a value, or more of an array or object begun before. -/
inductive Goal where
  | value
  | elements (done : List Json)
  | members (done : List (Bytes × Json))

def literals : List (Bytes × Json) :=
  [(cstr "true", .bool true), (cstr "false", .bool false), (cstr "null", .null)]

def read : ℕ → Goal → Bytes → Option (Json × Bytes)
  | 0, _, _ => none
  | fuel + 1, .value, s =>
      match skipSpace s with
      | [] => none
      | c :: rest =>
          if c = 0x7b then
            match skipSpace rest with
            | 0x7d :: rest => some (.object [], rest)
            | rest => read fuel (.members []) rest
          else if c = 0x5b then
            match skipSpace rest with
            | 0x5d :: rest => some (.array [], rest)
            | rest => read fuel (.elements []) rest
          else if c = 0x22 then (string 0 rest).map fun r => (.string r.1, r.2)
          else if c = 0x2d then number true rest
          else if isDigit c then number false (c :: rest)
          else
            (literals.find? fun l => l.1.isPrefixOf (c :: rest)).map fun l =>
              (l.2, (c :: rest).drop l.1.length)
  | fuel + 1, .elements done, s =>
      (read fuel .value s).bind fun r =>
        match skipSpace r.2 with
        | 0x2c :: rest => read fuel (.elements (done ++ [r.1])) rest
        | 0x5d :: rest => some (.array (done ++ [r.1]), rest)
        | _ => none
  | fuel + 1, .members done, s =>
      match skipSpace s with
      | 0x22 :: rest =>
          (string 0 rest).bind fun key =>
            match skipSpace key.2 with
            | 0x3a :: rest =>
                (read fuel .value rest).bind fun r =>
                  match skipSpace r.2 with
                  | 0x2c :: rest => read fuel (.members (assign key.1 r.1 done)) rest
                  | 0x7d :: rest => some (.object (assign key.1 r.1 done), rest)
                  | _ => none
            | _ => none
      | _ => none

@[simp] theorem read_zero (goal : Goal) (s : Bytes) : read 0 goal s = none := by
  rw [read]

/-- A whole document: one value and nothing but space after it. -/
def document (s : Bytes) : Option Json :=
  match read (s.length + 1) .value s with
  | some (doc, rest) => if skipSpace rest = [] then some doc else none
  | none => none

/-! ## Serializing -/

def quoteChar (c : UInt8) : Bytes :=
  match (escapes.filter fun e => e.1 != '/'.toUInt8).find? fun e => e.2 == c with
  | some e => [0x5c, e.1]
  | none => if c < 0x20 then cstr "\\u" ++ Format.fixed 16 4 c.toNat else [c]

def quote (s : Bytes) : Bytes := [0x22] ++ s.flatMap quoteChar ++ [0x22]

/-- A number as a decimal fraction with as few of at most 17 places as it needs. -/
def decimalText (q : ℚ) : Bytes :=
  let places := ((List.range 18).find? fun k => (q * 10 ^ k).den == 1 && k != 0).getD 17
  let n := (q * 10 ^ places).num.natAbs
  (if q < 0 then cstr "-" else []) ++ Format.decimal (n / 10 ^ places) ++ cstr "." ++
    Format.fixed 10 places n

mutual

def render : Json → Bytes
  | .null => cstr "null"
  | .bool b => if b then cstr "true" else cstr "false"
  | .integer i => Format.decimalPadded 1 i
  | .unsigned n => Format.decimal n
  | .float q => decimalText q
  | .string s => quote s
  | .array xs => [0x5b] ++ renderList xs ++ [0x5d]
  | .object fields => [0x7b] ++ renderFields fields ++ [0x7d]

def renderList : List Json → Bytes
  | [] => []
  | [x] => render x
  | x :: y :: xs => render x ++ [0x2c] ++ renderList (y :: xs)

def renderFields : List (Bytes × Json) → Bytes
  | [] => []
  | [(key, value)] => quote key ++ [0x3a] ++ render value
  | (key, value) :: f :: fields =>
      quote key ++ [0x3a] ++ render value ++ [0x2c] ++ renderFields (f :: fields)

end

theorem render_integer (i : ℤ) : render (.integer i) = Format.decimalPadded 1 i := rfl

theorem render_unsigned (n : ℕ) : render (.unsigned n) = Format.decimal n := rfl

theorem render_float (q : ℚ) : render (.float q) = decimalText q := rfl

theorem render_string (s : Bytes) : render (.string s) = quote s := rfl

theorem render_array (xs : List Json) :
    render (.array xs) = [0x5b] ++ renderList xs ++ [0x5d] := rfl

theorem render_object (fields : List (Bytes × Json)) :
    render (.object fields) = [0x7b] ++ renderFields fields ++ [0x7d] := rfl

/-- The library: text that is not UTF-8 is neither read nor written. -/
def lib : JsonLib where
  parse text := (document text).filter Json.isText
  dump doc := if doc.isText then some (render doc) else none

theorem lib_lawful : lib.Lawful where
  isText_of_parse := by
    intro text doc h
    exact (Option.filter_eq_some_iff.mp h).2
  dump_isSome := by
    intro doc
    simp only [lib]
    split <;> simp_all

end JsonReference
