import KeyDebounce.Toml.Failure
/-!
# Parsing over bytes

Parsers read the UTF-8 bytes of a document from a position. A failing parser leaves the position
where it stopped, which is where a failure is reported, unless a combinator resets it. Alternatives
and options retry only failures that are not fatal, and start over from where they began; `cut`
makes a failure fatal. Repetition ends when the element fails or stops consuming, and is bounded
by the bytes left.
-/

set_option autoImplicit false

namespace KeyDebounce.Toml

/-- A parser over the bytes of a document, with the position as state. -/
abbrev Parse := ReaderT ByteArray (ExceptT Failure (StateM Nat))

namespace Parse

variable {α β : Type}

def backtrack : Parse α := throw {}

def failBecause (cause : String) : Parse α := throw { cause := some cause }

def peekByte : Parse (Option UInt8) := do
  let src ← read
  let p ← get
  pure src[p]?

def remaining : Parse Nat := do
  let src ← read
  let p ← get
  pure (src.size - p)

def atEnd : Parse Bool := do pure ((← remaining) = 0)

def eof : Parse Unit := do
  unless ← atEnd do backtrack

def anyByte : Parse UInt8 := do
  match ← peekByte with
  | some b => modify (· + 1); pure b
  | none => backtrack

def byteIf (ok : UInt8 → Bool) : Parse UInt8 := do
  match ← peekByte with
  | some b => if ok b then do modify (· + 1); pure b else backtrack
  | none => backtrack

def byte (c : UInt8) : Parse Unit := do let _ ← byteIf (· = c)

def literal (s : String) : Parse Unit := do
  let src ← read
  let p ← get
  let bs := s.toUTF8
  if (src.extract p (p + bs.size)).data = bs.data then set (p + bs.size) else backtrack

def runLength (src : ByteArray) (ok : UInt8 → Bool) : Nat → Nat → Nat
  | 0, _ => 0
  | fuel + 1, p =>
    match src[p]? with
    | some b => if ok b then runLength src ok fuel (p + 1) + 1 else 0
    | none => 0

def takeWhileIn (lo hi : Nat) (ok : UInt8 → Bool) : Parse ByteArray := do
  let src ← read
  let p ← get
  let n := runLength src ok hi p
  if n < lo then backtrack
  else
    set (p + n)
    pure (src.extract p (p + n))

def takeWhile (ok : UInt8 → Bool) : Parse ByteArray := do
  takeWhileIn 0 (← remaining) ok

def takeWhile1 (ok : UInt8 → Bool) : Parse ByteArray := do
  takeWhileIn 1 (← remaining) ok

def slice (start stop : Nat) : Parse ByteArray := do
  pure ((← read).extract start stop)

def cut (p : Parse α) : Parse α :=
  tryCatch p fun e => throw { e with fatal := true }

def note (n : Note) (p : Parse α) : Parse α :=
  tryCatch p fun e => throw { e with notes := e.notes ++ [n] }

def label (what : String) (p : Parse α) : Parse α := note (.label what) p

def expecting (e : Expected) (p : Parse α) : Parse α := note (.expected e) p

def attempt (p : Parse α) : Parse (Option α) := do
  let start ← get
  tryCatch (some <$> p) fun e =>
    if e.fatal then throw e else do set start; pure none

/-- `p`, or else `q` from the same position when `p` fails without being fatal; a failure of `q`
stands as it is. -/
def orElse (p q : Parse α) : Parse α := do
  let start ← get
  tryCatch p fun e =>
    if e.fatal then throw e else do set start; q

def lookAhead (p : Parse α) : Parse α := do
  let start ← get
  tryCatch (do let a ← p; set start; pure a) fun e => do set start; throw e

def refine (p : Parse α) (f : α → Except String β) : Parse β := do
  let start ← get
  let a ← p
  match f a with
  | .ok b => pure b
  | .error cause => do set start; failBecause cause

def ensure (p : Parse α) (ok : α → Bool) : Parse α := do
  let start ← get
  let a ← p
  if ok a then pure a else do set start; backtrack

def withTaken (p : Parse α) : Parse (α × ByteArray) := do
  let start ← get
  let a ← p
  pure (a, ← slice start (← get))

def withSpan (p : Parse α) : Parse (α × Nat × Nat) := do
  let start ← get
  let a ← p
  pure (a, start, ← get)

def manyFrom (p : Parse α) : Nat → List α → Parse (List α)
  | 0, acc => pure acc.reverse
  | fuel + 1, acc => do
    let start ← get
    match ← attempt p with
    | none => pure acc.reverse
    | some a => if (← get) = start then pure (a :: acc).reverse else manyFrom p fuel (a :: acc)

def many (p : Parse α) : Parse (List α) := do manyFrom p ((← remaining) + 1) []

def many1 (p : Parse α) : Parse (List α) := do
  let a ← p
  pure (a :: (← many p))

/-- Elements after a separator, each preceded by `sep`; a separator or element that fails
without being fatal ends the list before that separator. -/
def separatedRest (p : Parse α) (sep : Parse Unit) : Nat → List α → Parse (List α)
  | 0, acc => pure acc.reverse
  | fuel + 1, acc => do
    let start ← get
    match ← attempt sep with
    | none => pure acc.reverse
    | some () =>
      if (← get) = start then pure acc.reverse
      else
        match ← attempt p with
        | none => do set start; pure acc.reverse
        | some a => separatedRest p sep fuel (a :: acc)

def separated1 (p : Parse α) (sep : Parse Unit) : Parse (List α) := do
  let a ← p
  separatedRest p sep ((← remaining) + 1) [a]

def separated0 (p : Parse α) (sep : Parse Unit) : Parse (List α) := do
  match ← attempt p with
  | none => pure []
  | some a => separatedRest p sep ((← remaining) + 1) [a]

/-- Run a parser over `src` from position 0: its result or failure, and the final position. -/
def exec (p : Parse α) (src : ByteArray) : Except Failure α × Nat :=
  Id.run (StateT.run (ExceptT.run (ReaderT.run p src)) 0)

end Parse

end KeyDebounce.Toml
