import MpiLocalLab.Msearch.Lexer
import MpiLocalLab.Msearch.Problem

namespace MpiLocalLab.Msearch

inductive ReadStop where
  | failed (status : Status)
  | invalidAccess
deriving DecidableEq

/-- `allocs` counts the calls of `calloc` and `malloc`. -/
structure ReadState (R : Type) where
  lexer : Lexer
  err : Option (Diag R)
  out : Problem R
  allocs : ℕ

/-- The C library: `strtod`, and whether each allocation succeeds. -/
structure ReadEnv (R : Type) where
  strtod : Strtod R
  alloc : ℕ → Bool

abbrev ReadM (R : Type) := ExceptT ReadStop (StateM (ReadState R))

section Reader

variable {R : Type}

def setErr (diag : Diag R) : ReadM R Unit := modify fun s => { s with err := some diag }

/-- Fails with `status` after `msearch_set_err`. -/
def failWith {α : Type} (f : Failure R) : ReadM R α := do
  setErr f.diag
  throw (.failed f.status)

def allocate (env : ReadEnv R) : ReadM R Bool := do
  let s ← get
  set { s with allocs := s.allocs + 1 }
  return env.alloc s.allocs

def nextToken : ReadM R Bool := do
  let s ← get
  let (found, lexer, err) := lexerNext s.lexer s.err
  set { s with lexer := lexer, err := err }
  return found

/-- The token that `expect_int` and `expect_double` convert. -/
def expectToken (what : String) : ReadM R Token := do
  let found ← nextToken
  let s ← get
  if found then return s.lexer.token
  else if s.err.isNone then failWith ⟨.errParse, .unexpectedEnd s.lexer.line what⟩
  else throw (.failed .errParse)

/-- `end == token || *end != '\0' || errno == ERANGE` is false. -/
def Converted.complete {V : Type*} (c : Converted V) (token : Token) : Bool :=
  c.consumed ≠ 0 && token[c.consumed]?.getD 0 = 0 && !c.erange

def expectInt (what : String) : ReadM R ℤ := do
  let token ← expectToken what
  let s ← get
  let converted := strtol token
  if converted.complete token ∧ intMin ≤ converted.value ∧ converted.value ≤ intMax then
    return converted.value
  else failWith ⟨.errParse, .expected s.lexer.line what token⟩

def expectDouble (env : ReadEnv R) (what : String) : ReadM R R := do
  let token ← expectToken what
  let s ← get
  let converted := env.strtod.read (cstr token)
  if converted.complete token then return converted.value
  else failWith ⟨.errParse, .expected s.lexer.line what token⟩

def elementLabel (i elems : ℕ) (what : String) (id : ℤ) : String :=
  s!"element {i + 1} of {elems} for {what} {id}"

/-- The loop of `read_matrix` from element `i` on, with `left` of `elems` left. -/
def readElements (elems : ℕ) (what : String) (id : ℤ) : ℕ → ℕ → List ℤ → ReadM R (List ℤ)
  | 0, _, data => return data
  | left + 1, i, data => do
    let value ← expectInt (elementLabel i elems what id)
    readElements elems what id left (i + 1) (data.set i value)

def readMatrix (data : List ℤ) (side : ℤ) (what : String) (id : ℤ) : ReadM R (List ℤ) :=
  let elems := side.toNat * side.toNat
  readElements elems what id elems 0 data

def readCount (what : String) : ReadM R ℤ := do
  let count ← expectInt what
  let s ← get
  if count < 0 ∨ maxCount < count then
    failWith ⟨.errInvalid, .countRange s.lexer.line what count⟩
  else return count

/-- What the loops over the pictures and over the objects differ in. -/
structure BlockKind (R β : Type) where
  what : String
  alloc : ℤ → ℤ → Bool → Except (Failure R) Unit × β
  data : β → Option (List ℤ)
  fill : β → List ℤ → β
  entries : Problem R → Option (List β)
  setEntries : Problem R → Option (List β) → Problem R

def pictureKind : BlockKind R Picture where
  what := "picture"
  alloc := msearchPictureAlloc
  data := Picture.data
  fill picture data := { picture with data := some data }
  entries := Problem.pictures
  setEntries problem pictures := { problem with pictures := pictures }

def objectKind : BlockKind R Object where
  what := "object"
  alloc := msearchObjectAlloc
  data := Object.data
  fill object data := { object with data := some data }
  entries := Problem.objects
  setEntries problem objects := { problem with objects := objects }

section Blocks

variable {β : Type} (kind : BlockKind R β)

/-- A store into entry `i` of the array. -/
def storeEntry (i : ℕ) (entry : β) : ReadM R Unit := do
  let s ← get
  match kind.entries s.out with
  | some entries =>
    if i < entries.length then
      set { s with out := kind.setEntries s.out (some (entries.set i entry)) }
    else throw .invalidAccess
  | none => throw .invalidAccess

/-- The body of the loops over the pictures and over the objects. -/
def readBlock (env : ReadEnv R) (i : ℕ) : ReadM R Unit := do
  let id ← expectInt s!"{kind.what} id"
  let side ← expectInt s!"{kind.what} size"
  let ok ← allocate env
  let (result, entry) := kind.alloc id side ok
  storeEntry kind i entry
  match result with
  | .error f => failWith f
  | .ok () =>
    let data ← readMatrix ((kind.data entry).getD []) side kind.what id
    storeEntry kind i (kind.fill entry data)

/-- The loop from index `i` on, with `left` entries left. -/
def readBlocks (env : ReadEnv R) : ℕ → ℕ → ReadM R Unit
  | 0, _ => return ()
  | left + 1, i => do
    readBlock kind env i
    readBlocks env left (i + 1)

end Blocks

def readPictures (env : ReadEnv R) : ℕ → ℕ → ReadM R Unit := readBlocks pictureKind env

def readObjects (env : ReadEnv R) : ℕ → ℕ → ReadM R Unit := readBlocks objectKind env

def allocPictures (env : ReadEnv R) (numPictures : ℤ) : ReadM R Unit := do
  let ok ← if 0 < numPictures then allocate env else pure true
  let s ← get
  let (result, out) := msearchProblemAlloc s.out numPictures 0 ok true
  set { s with out := out }
  match result with
  | .error f => failWith f
  | .ok () => return ()

def allocObjects (env : ReadEnv R) (numObjects : ℤ) : ReadM R Unit := do
  if 0 < numObjects then
    let ok ← allocate env
    if ok then
      modify fun s => { s with
        out := { s.out with objects := some (List.replicate numObjects.toNat .zero) } }
    else failWith ⟨.errNomem, .cannotAllocate numObjects "objects"⟩
  modify fun s => { s with out := { s.out with numObjects := numObjects } }

/-- The part of `msearch_read_problem_stream` that reads what the text describes. -/
def readParts (env : ReadEnv R) : ReadM R Unit := do
  let threshold ← expectDouble env "matching threshold"
  modify fun s => { s with out := { s.out with threshold := threshold } }
  let numPictures ← readCount "picture count"
  allocPictures env numPictures
  readPictures env numPictures.toNat 0
  let numObjects ← readCount "object count"
  allocObjects env numObjects
  readObjects env numObjects.toNat 0

def validateProblem [Zero R] [LT R] [DecidableLT R] : ReadM R Unit := do
  let s ← get
  match msearchProblemValidate s.out with
  | none => throw .invalidAccess
  | some (.error f) => failWith f
  | some (.ok valid) => set { s with out := valid }

def readProblem [Zero R] [LT R] [DecidableLT R] (env : ReadEnv R) : ReadM R Unit := do
  readParts env
  -- the warning about a trailing token goes to the log
  let _ ← nextToken
  validateProblem

structure ReadResult (R : Type) where
  status : Status
  out : Problem R
  err : Option (Diag R)
deriving DecidableEq

/-- `none` is an access to memory that was not allocated. -/
def msearchReadProblemStream [Zero R] [LT R] [DecidableLT R] (env : ReadEnv R) (text : List UInt8) :
    Option (ReadResult R) :=
  match (readProblem env).run.run ⟨lexerInit text, none, msearchProblemInit, 0⟩ with
  | (.ok (), s) => some ⟨.ok, s.out, s.err⟩
  | (.error (.failed status), s) => (msearchProblemFree s.out).map fun out => ⟨status, out, s.err⟩
  | (.error .invalidAccess, _) => none

end Reader

end MpiLocalLab.Msearch
