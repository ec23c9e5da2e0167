import MpiLocalLab.Msearch.Types

namespace MpiLocalLab.Msearch

/-- A diagnostic of the reader or of the problem functions, one constructor for each
format string. `what` is the caller's label. -/
inductive Diag (R : Type*) where
  | tokenTooLong (line : ℤ)
  | unexpectedEnd (line : ℤ) (what : String)
  | expected (line : ℤ) (what : String) (token : List UInt8)
  | countRange (line : ℤ) (what : String) (got : ℤ)
  | cannotAllocate (count : ℤ) (what : String)
  | sizeNotPositive (what : String) (id side : ℤ)
  | sizeTooLarge (what : String) (id side : ℤ)
  | cannotAllocateElements (what : String) (id : ℤ) (elems : ℕ)
  | thresholdNotPositive (threshold : R)
  | negativeCounts
  | incomplete (what : String) (id : ℤ)
  | tooManyPlacements (id n : ℤ)
deriving DecidableEq

/-- `TOKEN_MAX`, with room for the terminating NUL. -/
def tokenMax : ℕ := 64

/-- `MSEARCH_MAX_SIDE` -/
def maxSide : ℤ := 46340

/-- `MSEARCH_MAX_COUNT` -/
def maxCount : ℤ := 1000000

/-- A byte string as C reads it: up to the first NUL. -/
def cstr (bytes : List UInt8) : List UInt8 := bytes.takeWhile (· ≠ 0)

/-- `%s` -/
def fmtS (bytes : List UInt8) : String :=
  String.ofList ((cstr bytes).map fun b => Char.ofNat b.toNat)

/-- The bytes of a text in which a character stands for a byte. -/
def textBytes (text : String) : List UInt8 := text.toList.map fun c => UInt8.ofNat c.toNat

/-- The text that `msearch_set_err` formats; `fmtG` is `%g`. -/
def Diag.text {R : Type*} (path : String) (fmtG : R → String) : Diag R → String
  | .tokenTooLong line => s!"{path}:{line}: token longer than {tokenMax - 1} characters"
  | .unexpectedEnd line what => s!"{path}:{line}: unexpected end of input, expected {what}"
  | .expected line what token => s!"{path}:{line}: expected {what}, got '{fmtS token}'"
  | .countRange line what got => s!"{path}:{line}: {what} must be in [0, {maxCount}], got {got}"
  | .cannotAllocate count what => s!"cannot allocate {count} {what}"
  | .sizeNotPositive what id side => s!"{what} {id}: size must be > 0, got {side}"
  | .sizeTooLarge what id side =>
    s!"{what} {id}: size {side} exceeds the supported maximum {maxSide}"
  | .cannotAllocateElements what id elems => s!"{what} {id}: cannot allocate {elems} elements"
  | .thresholdNotPositive threshold => s!"threshold must be > 0, got {fmtG threshold}"
  | .negativeCounts => "picture/object counts must be >= 0"
  | .incomplete what id => s!"{what} {id}: incomplete"
  | .tooManyPlacements id n => s!"picture {id}: {n}x{n} has too many placements to index"

structure Failure (R : Type*) where
  status : Status
  diag : Diag R
deriving DecidableEq

end MpiLocalLab.Msearch
