/-
Values of a settings file that are written without brackets.

Strings come in four forms: in double quotes with escapes, in single quotes
without, and each of them on one line or over several.  The other scalars are
words (`ofWord?`): truth values, numbers, dates and times.
-/
import TemplateDirectives.Toml.Value

namespace TemplateDirectives
namespace Toml

/-- Control characters, which stand nowhere in a file except for the tab and the
ends of lines. -/
def isControl (c : Char) : Bool := (c.toNat < 0x20 && c != '\t') || c.toNat == 0x7F

def isSpace (c : Char) : Bool := c == ' ' || c == '\t'

/-! ## Strings -/

def hexDigit? (c : Char) : Option Nat :=
  if c.isDigit then some (c.toNat - '0'.toNat)
  else if 'a' ≤ c ∧ c ≤ 'f' then some (c.toNat - 'a'.toNat + 10)
  else if 'A' ≤ c ∧ c ≤ 'F' then some (c.toNat - 'A'.toNat + 10)
  else none

/-- The number that digits spell in a base, the first digit first. -/
def number (base : Nat) (digits : List Nat) : Nat :=
  digits.foldl (fun n d => n * base + d) 0

/-- The character with the code point that hexadecimal digits spell. -/
def codePoint? (digits : Text) : Option Char := do
  let values ← digits.mapM hexDigit?
  let n := number 16 values
  if h : n.isValidChar then some (Char.ofNatAux n h) else none

/-- The character that one letter after a backslash stands for. -/
def escape? : Char → Option Char
  | 'b' => some '\x08'
  | 't' => some '\t'
  | 'n' => some '\n'
  | 'f' => some '\x0c'
  | 'r' => some '\r'
  | 'e' => some '\x1b'
  | '"' => some '"'
  | '\\' => some '\\'
  | _ => none

def readEscape? : Text → Option (Char × Text)
  | 'x' :: a :: b :: rest => (codePoint? [a, b]).map (·, rest)
  | 'u' :: a :: b :: c :: d :: rest => (codePoint? [a, b, c, d]).map (·, rest)
  | 'U' :: a :: b :: c :: d :: e :: f :: g :: h :: rest =>
    (codePoint? [a, b, c, d, e, f, g, h]).map (·, rest)
  | c :: rest => (escape? c).map (·, rest)
  | [] => none

theorem length_of_readEscape? {t rest : Text} {c : Char} (h : readEscape? t = some (c, rest)) :
    rest.length < t.length := by
  have paired : ∀ {o : Option Char} {u : Text}, o.map (·, u) = some (c, rest) → u = rest := by
    intro o u ho
    obtain ⟨_, _, he⟩ := Option.map_eq_some_iff.mp ho
    exact (Prod.mk.inj he).2
  unfold readEscape? at h
  split at h
  next => rw [← paired h]; simp only [List.length_cons]; omega
  next => rw [← paired h]; simp only [List.length_cons]; omega
  next => rw [← paired h]; simp only [List.length_cons]; omega
  next => rw [← paired h]; simp only [List.length_cons]; omega
  next => simp at h

/-- Read the inside of a string in double quotes, with the closing quote. -/
def readBasic? : Text → Option (Text × Text)
  | [] => none
  | '"' :: rest => some ([], rest)
  | '\\' :: rest =>
    match _h : readEscape? rest with
    | none => none
    | some (c, rest) => (readBasic? rest).map fun (t, rest) => (c :: t, rest)
  | c :: rest =>
    if isControl c then none else (readBasic? rest).map fun (t, rest) => (c :: t, rest)
termination_by t => t.length
decreasing_by
  · have := length_of_readEscape? _h
    simp only [List.length_cons]
    omega
  · simp only [List.length_cons]
    omega

/-- Read the inside of a string in single quotes, with the closing quote. -/
def readLiteral? : Text → Option (Text × Text)
  | [] => none
  | '\'' :: rest => some ([], rest)
  | c :: rest =>
    if isControl c then none else (readLiteral? rest).map fun (t, rest) => (c :: t, rest)

def endsLine (t : Text) : Bool :=
  match t.dropWhile isSpace with
  | '\n' :: _ => true
  | '\r' :: '\n' :: _ => true
  | _ => false

/-- Read the inside of a string over several lines in double quotes, with the
closing quotes.  One or two quotes may stand right before those.  A backslash at
the end of a line takes away the blanks and line ends that follow, and while it
does, `trimming` is set. -/
def readBasicLines? (trimming : Bool) : Text → Option (Text × Text)
  | '"' :: '"' :: '"' :: '"' :: '"' :: rest => some (['"', '"'], rest)
  | '"' :: '"' :: '"' :: '"' :: rest => some (['"'], rest)
  | '"' :: '"' :: '"' :: rest => some ([], rest)
  | '\r' :: '\n' :: rest =>
    (readBasicLines? trimming rest).map fun (t, rest) =>
      if trimming then (t, rest) else ('\r' :: '\n' :: t, rest)
  | '\\' :: rest =>
    if endsLine rest then readBasicLines? true rest
    else
      match _h : readEscape? rest with
      | none => none
      | some (c, rest) => (readBasicLines? false rest).map fun (t, rest) => (c :: t, rest)
  | c :: rest =>
    if trimming ∧ (isSpace c ∨ c = '\n') then readBasicLines? true rest
    else if isControl c ∧ c ≠ '\n' then none
    else (readBasicLines? false rest).map fun (t, rest) => (c :: t, rest)
  | [] => none
termination_by t => t.length
decreasing_by
  · simp only [List.length_cons]
    omega
  · simp only [List.length_cons]
    omega
  · have := length_of_readEscape? _h
    simp only [List.length_cons]
    omega
  · simp only [List.length_cons]
    omega
  · simp only [List.length_cons]
    omega

/-- Read the inside of a string over several lines in single quotes, with the
closing quotes. -/
def readLiteralLines? : Text → Option (Text × Text)
  | '\'' :: '\'' :: '\'' :: '\'' :: '\'' :: rest => some (['\'', '\''], rest)
  | '\'' :: '\'' :: '\'' :: '\'' :: rest => some (['\''], rest)
  | '\'' :: '\'' :: '\'' :: rest => some ([], rest)
  | '\r' :: '\n' :: rest =>
    (readLiteralLines? rest).map fun (t, rest) => ('\r' :: '\n' :: t, rest)
  | c :: rest =>
    if isControl c ∧ c ≠ '\n' then none
    else (readLiteralLines? rest).map fun (t, rest) => (c :: t, rest)
  | [] => none

/-- A line end right behind the opening quotes does not belong to the string. -/
def dropFirstLineEnd : Text → Text
  | '\n' :: rest => rest
  | '\r' :: '\n' :: rest => rest
  | t => t

/-- Read a string of one of the four forms. -/
def readString? : Text → Option (Text × Text)
  | '"' :: '"' :: '"' :: rest => readBasicLines? false (dropFirstLineEnd rest)
  | '"' :: rest => readBasic? rest
  | '\'' :: '\'' :: '\'' :: rest => readLiteralLines? (dropFirstLineEnd rest)
  | '\'' :: rest => readLiteral? rest
  | _ => none

/-! ## Numbers -/

/-- The digits of a number whose groups single underscores separate. -/
def digits? (isDigit : Char → Bool) (t : Text) : Option Text :=
  let groups := Text.splitOn ['_'] t
  if groups.all fun g => !g.isEmpty && g.all isDigit then some groups.flatten else none

/-- The digits of a decimal number, which begins with zero only when it is
zero. -/
def decimal? (t : Text) : Option Text :=
  match digits? Char.isDigit t with
  | some ('0' :: _ :: _) => none
  | other => other

/-- Cut off the sign: whether it is negative, and what follows. -/
def splitSign : Text → Bool × Text
  | '-' :: rest => (true, rest)
  | '+' :: rest => (false, rest)
  | t => (false, t)

/-- Integers that 128 bits can hold, with a sign or without. -/
def inIntegerRange (n : Int) : Bool := -(Nat.pow 2 127 : Int) ≤ n && n < (Nat.pow 2 128 : Int)

/-- The number that hexadecimal digits, or digits of a smaller base, spell. -/
def based? (base : Nat) (t : Text) : Option Nat := do
  let digits ← digits? (fun c => (hexDigit? c).any (· < base)) t
  let values ← digits.mapM hexDigit?
  return number base values

def integer? (t : Text) : Option Int :=
  match t with
  | '0' :: 'x' :: rest => (based? 16 rest).map Int.ofNat
  | '0' :: 'o' :: rest => (based? 8 rest).map Int.ofNat
  | '0' :: 'b' :: rest => (based? 2 rest).map Int.ofNat
  | _ =>
    let (negative, rest) := splitSign t
    (decimal? rest).bind fun digits =>
      (digits.mapM hexDigit?).map fun values =>
        let n : Int := number 10 values
        if negative then -n else n

/-- Whether digits times a power of ten lie beyond what 64 bits of floating
point can hold.  The least such number is half a unit above the greatest finite
one. -/
def overflows (digits : Nat) (exponent : Int) : Bool :=
  let magnitude := (Nat.toDigits 10 digits).length + exponent
  let bound := Nat.pow 2 1024 - Nat.pow 2 970
  if digits = 0 ∨ magnitude < 300 then false
  else if 320 < magnitude then true
  else if 0 ≤ exponent then bound ≤ digits * Nat.pow 10 exponent.toNat
  else bound * Nat.pow 10 (-exponent).toNat ≤ digits

/-- Whether a word is a number with a fraction, an exponent, or both. -/
def isFloat (t : Text) : Bool :=
  let (_, unsigned) := splitSign t
  if unsigned = ['i', 'n', 'f'] ∨ unsigned = ['n', 'a', 'n'] then true
  else
    let mantissa := unsigned.takeWhile fun c => c != 'e' && c != 'E'
    let power := unsigned.drop mantissa.length
    let (whole, fraction) := (Text.cutAt? ['.'] mantissa).getD (mantissa, [])
    let exponentDigits := digits? Char.isDigit (splitSign (power.drop 1)).2
    let fractionDigits := digits? Char.isDigit fraction
    match decimal? whole with
    | none => false
    | some wholeDigits =>
      let hasFraction := mantissa.contains '.'
      if hasFraction && fractionDigits.isNone then false
      else if !power.isEmpty && exponentDigits.isNone then false
      else if !hasFraction && power.isEmpty then false
      else
        let value (t : Text) : Nat := number 10 (t.filterMap hexDigit?)
        let negative := (splitSign (power.drop 1)).1
        let exponent : Int := value (exponentDigits.getD [])
        let places := (fractionDigits.getD []).length
        !overflows (value (wholeDigits ++ fractionDigits.getD []))
          ((if negative then -exponent else exponent) - places)

/-! ## Dates and times -/

/-- The number that exactly `count` digits at the beginning spell. -/
def readFixed? (count : Nat) (t : Text) : Option (Nat × Text) :=
  let digits := t.take count
  if digits.length = count ∧ digits.all Char.isDigit then
    some (number 10 (digits.filterMap hexDigit?), t.drop count)
  else none

def daysInMonth (year month : Nat) : Nat :=
  if month = 2 then
    if year % 4 = 0 ∧ (year % 100 ≠ 0 ∨ year % 400 = 0) then 29 else 28
  else if month = 4 ∨ month = 6 ∨ month = 9 ∨ month = 11 then 30
  else 31

def readDate? (t : Text) : Option Text := do
  let (year, t) ← readFixed? 4 t
  let t ← Text.after? ['-'] t
  let (month, t) ← readFixed? 2 t
  let t ← Text.after? ['-'] t
  let (day, t) ← readFixed? 2 t
  if 1 ≤ month ∧ month ≤ 12 ∧ 1 ≤ day ∧ day ≤ daysInMonth year month then some t else none

/-- Read a time of day, where the seconds may be left out and may have a
fraction. -/
def readTime? (t : Text) : Option Text := do
  let (hour, t) ← readFixed? 2 t
  let t ← Text.after? [':'] t
  let (minute, t) ← readFixed? 2 t
  if 23 < hour ∨ 59 < minute then none
  else
    match t with
    | ':' :: rest => do
      let (second, t) ← readFixed? 2 rest
      if 60 < second then none
      else
        match t with
        | '.' :: fraction =>
          if fraction.head?.any Char.isDigit then some (fraction.dropWhile Char.isDigit) else none
        | _ => some t
    | _ => some t

def isOffset (t : Text) : Bool :=
  match t with
  | [] => true
  | ['Z'] => true
  | ['z'] => true
  | c :: rest =>
    (c == '+' || c == '-') &&
      match (do
        let (hour, t) ← readFixed? 2 rest
        let t ← Text.after? [':'] t
        let (minute, t) ← readFixed? 2 t
        return hour ≤ 23 && minute ≤ 59 && t.isEmpty : Option Bool) with
      | some ok => ok
      | none => false

def isMoment (t : Text) : Bool :=
  match readDate? t with
  | some [] => true
  | some (c :: rest) =>
    (c == 'T' || c == 't' || c == ' ') && (readTime? rest).any isOffset
  | none => (readTime? t).any List.isEmpty

/-! ## Words -/

def isWordChar (c : Char) : Bool :=
  c.isAlphanum || c == '_' || c == '+' || c == '-' || c == '.' || c == ':'

def ofWord? (t : Text) : Option Value :=
  if t = ['t', 'r', 'u', 'e'] ∨ t = ['f', 'a', 'l', 's', 'e'] then some .boolean
  else
    match integer? t with
    | some n => if inIntegerRange n then some (.integer n) else none
    | none => if isFloat t then some .float else if isMoment t then some .moment else none

/-- Read a word.  A date takes a time along that one space separates from
it. -/
def readWord? (t : Text) : Option (Value × Text) :=
  let word := t.takeWhile isWordChar
  let rest := t.drop word.length
  match readDate? word, rest with
  | some [], ' ' :: c :: more =>
    if c.isDigit then
      let time := (c :: more).takeWhile isWordChar
      (ofWord? (word ++ ' ' :: time)).map (·, (c :: more).drop time.length)
    else (ofWord? word).map (·, rest)
  | _, _ => (ofWord? word).map (·, rest)

end Toml
end TemplateDirectives
