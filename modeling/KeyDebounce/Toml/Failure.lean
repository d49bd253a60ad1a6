/-!
# Parse failures and their report

A failed parse records what the parsers on the way out noted: labels naming the construct that
was being read and the tokens that would have been accepted, innermost first, and possibly a
cause. Its text is "invalid" and the first label, then the expected tokens, then the cause, one
per line. A report places that text under the offending line of the document, with the line and
column and a caret run under the offending bytes.
-/

set_option autoImplicit false

namespace KeyDebounce.Toml

inductive Expected where
  | char (c : Char)
  | text (s : String)
  | description (s : String)
  deriving DecidableEq, Repr

def Expected.render : Expected → String
  | .char '\n' => "newline"
  | .char '`' => "'`'"
  | .char c => "`" ++ c.toString ++ "`"
  | .text s => "`" ++ s ++ "`"
  | .description s => s

inductive Note where
  | label (what : String)
  | expected (e : Expected)
  deriving DecidableEq, Repr

/-- A failed parse. A fatal failure is not retried by alternatives. -/
structure Failure where
  fatal : Bool := false
  notes : List Note := []
  cause : Option String := none
  deriving DecidableEq, Repr

def Failure.message (f : Failure) : String :=
  let label := f.notes.findSome? fun
    | .label s => some s
    | .expected _ => none
  let expected := f.notes.filterMap fun
    | .expected e => some e.render
    | .label _ => none
  let parts := (label.map ("invalid " ++ ·)).toList ++
    (if expected.isEmpty then [] else ["expected " ++ ", ".intercalate expected]) ++ f.cause.toList
  "\n".intercalate parts

/-- Line (from 0) and column of byte `index`. The column counts characters up to and including
the one at `index`, less one, when those bytes are whole characters, else bytes; an index past
the end lies one column after the last byte. -/
def position (bytes : ByteArray) (index : Nat) : Nat × Nat :=
  if bytes.size = 0 then (0, index)
  else
    let safe := min index (bytes.size - 1)
    let before := (bytes.extract 0 safe).toList
    let lineStart := before.zipIdx.foldl (fun acc (b, i) => if b = 10 then i + 1 else acc) 0
    let line := ((bytes.extract 0 lineStart).toList.filter (· = 10)).length
    let column :=
      match String.fromUTF8? (bytes.extract lineStart (safe + 1)) with
      | some s => s.length - 1
      | none => safe - lineStart
    (line, column + (index - safe))

/-- A report of a failure in `src`: the message alone when there is no span, else the line and
column of the span's start, the line itself and carets under the span (at least one, at most to
one past the line's end). -/
def report (src : String) (message : String) (span : Option (Nat × Nat)) : String :=
  match span with
  | none => message ++ "\n"
  | some (start, stop) =>
    let (line, column) := position src.toUTF8 start
    let lineNum := line + 1
    let pad := "".pushn ' ' ((toString lineNum).length + 1)
    let content := (src.splitOn "\n").getD line ""
    let highlight := min (stop - start) (content.utf8ByteSize - column)
    s!"TOML parse error at line {lineNum}, column {column + 1}\n" ++
      pad ++ "|\n" ++
      s!"{lineNum} | " ++ content ++ "\n" ++
      pad ++ "|" ++ "".pushn ' ' (column + 1) ++ "".pushn '^' (max 1 highlight) ++ "\n" ++
      message ++ "\n"

end KeyDebounce.Toml
