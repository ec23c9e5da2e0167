import MpiLocalLab.Msearch.Diag

namespace MpiLocalLab.Msearch

def newline : UInt8 := 10
def hash : UInt8 := 35

/-- `isspace` in the C locale. -/
def isspace (c : UInt8) : Bool := c == 32 || (9 ≤ c && c ≤ 13)

def isdigit (c : UInt8) : Bool := 48 ≤ c && c ≤ 57

abbrev Token := List UInt8

/-- `rest` is what the stream still holds. The token is kept without its terminating NUL,
and the path, which only the texts of diagnostics show, is an argument of `Diag.text`. -/
structure Lexer where
  rest : List UInt8
  line : ℤ
  token : Token
deriving DecidableEq

def lexerInit (text : List UInt8) : Lexer := ⟨text, 1, []⟩

/-- The line after `lexer_getc` has returned `c`. -/
def countLine (line : ℤ) (c : UInt8) : ℤ := if c = newline then line + 1 else line

/-- The loops over white space and comments. The first component is the character that
they stop at, `none` at the end of the input. -/
def skipBlanks (inComment : Bool) : List UInt8 → ℤ → Option UInt8 × List UInt8 × ℤ
  | [], line => (none, [], line)
  | c :: rest, line =>
    if inComment then skipBlanks (c != newline) rest (countLine line c)
    else if isspace c then skipBlanks false rest (countLine line c)
    else if c = hash then skipBlanks true rest (countLine line c)
    else (some c, rest, countLine line c)

/-- The loop over the characters of a token, of which `c` is the next and `token` are those
before it. The first component is `none` when the token is too long, the second is the
character that the loop stops at. -/
def tokenLoop (token : Token) (c : UInt8) (rest : List UInt8) (line : ℤ) :
    Option Token × Option UInt8 × List UInt8 × ℤ :=
  if isspace c then (some token, some c, rest, line)
  else if tokenMax ≤ token.length + 1 then (none, some c, rest, line)
  else match rest with
    | [] => (some (token ++ [c]), none, [], line)
    | c' :: rest => tokenLoop (token ++ [c]) c' rest (countLine line c')

/-- `err` is `none` as long as the caller's buffer holds the empty string. -/
def lexerNext {R : Type*} (lexer : Lexer) (err : Option (Diag R)) :
    Bool × Lexer × Option (Diag R) :=
  match skipBlanks false lexer.rest lexer.line with
  | (none, rest, line) => (false, { lexer with rest := rest, line := line }, err)
  | (some c, rest, line) =>
    match tokenLoop [] c rest line with
    | (none, _, rest, line) =>
      (false, { lexer with rest := rest, line := line }, some (.tokenTooLong line))
    | (some token, delimiter, rest, line) =>
      -- the delimiter belonged to the next line
      (!token.isEmpty, ⟨rest, if delimiter = some newline then line - 1 else line, token⟩, err)

def longMin : ℤ := -2 ^ 63
def longMax : ℤ := 2 ^ 63 - 1

def digitsValue (digits : List UInt8) : ℕ := digits.foldl (fun v d => 10 * v + (d.toNat - 48)) 0

/-- What `strtol` and `strtod` return: the value, the offset of `end`, and whether they set
`errno` to `ERANGE`. -/
structure Converted (V : Type*) where
  value : V
  consumed : ℕ
  erange : Bool
deriving DecidableEq

/-- The sign of a number and how many characters it takes. -/
def signOf : List UInt8 → Bool × ℕ
  | c :: _ => if c = 45 then (true, 1) else if c = 43 then (false, 1) else (false, 0)
  | [] => (false, 0)

/-- `strtol(s, &end, 10)` with a 64-bit `long`. -/
def strtol (s : List UInt8) : Converted ℤ :=
  let blanks := (s.takeWhile isspace).length
  let (negative, sign) := signOf (s.drop blanks)
  let digits := (s.drop (blanks + sign)).takeWhile isdigit
  if digits = [] then ⟨0, 0, false⟩
  else
    let v : ℤ := if negative then -digitsValue digits else digitsValue digits
    let consumed := blanks + sign + digits.length
    if v < longMin then ⟨longMin, consumed, true⟩
    else if longMax < v then ⟨longMax, consumed, true⟩
    else ⟨v, consumed, false⟩

theorem strtol_le (s : List UInt8) : (strtol s).value ≤ longMax := by
  have hrange : (0 : ℤ) ≤ longMax ∧ longMin ≤ longMax := by decide
  unfold strtol
  dsimp only
  split_ifs
  all_goals
    dsimp only
    omega

/-- `strtod` of the C library. It does not read past the NUL that ends the string. -/
structure Strtod (R : Type*) where
  read : List UInt8 → Converted R
  consumed_le : ∀ s, (read s).consumed ≤ (cstr s).length

end MpiLocalLab.Msearch
