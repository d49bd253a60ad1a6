import KeyDebounce.Toml.Syntax.Trivia
import KeyDebounce.Toml.Assembly
/-!
# Dates and times

Dates, times and date-times as in RFC 3339: a four-digit year, month and day checked against the
calendar, a time with seconds up to 60 and an optional fraction (kept to nanoseconds, truncated),
and an optional offset `Z` or `+hh:mm`. A date and a time are joined by `T` or a space.
-/

set_option autoImplicit false

namespace KeyDebounce.Toml

def daysInMonth (year month : Nat) : Nat :=
  if month = 2 then
    if year % 4 = 0 && (year % 100 ≠ 0 || year % 400 = 0) then 29 else 28
  else if month = 4 || month = 6 || month = 9 || month = 11 then 30
  else 31

namespace Parse

def number (lo hi : Nat) : Parse (Nat × Nat) := do
  let bs ← takeWhileIn lo hi isDigit
  pure (bs.toList.foldl (fun acc b => acc * 10 + (b.toNat - 48)) 0, bs.size)

def twoDigits (lo hi : Nat) : Parse Nat :=
  refine (number 2 2) fun (n, _) =>
    if lo ≤ n && n ≤ hi then .ok n else .error Conflict.outOfRange.message

def fullDate : Parse Date := do
  let (year, _) ← number 4 4
  byte (ascii '-')
  let month ← cut (twoDigits 1 12)
  cut (byte (ascii '-'))
  let dayStart ← get
  let day ← cut (twoDigits 1 31)
  if daysInMonth year month < day then
    set dayStart
    cut (failBecause Conflict.outOfRange.message)
  else pure ⟨year, month, day⟩

def secondFraction : Parse Nat := do
  byte (ascii '.')
  let bs ← takeWhileIn 1 ((← remaining) + 1) isDigit
  let kept := (bs.extract 0 9).toList
  let value := kept.foldl (fun acc b => acc * 10 + (b.toNat - 48)) 0
  pure (value * Nat.pow 10 (9 - kept.length))

def partialTime : Parse Time := do
  let hour ← twoDigits 0 23
  byte (ascii ':')
  cut (do
    let minute ← twoDigits 0 59
    byte (ascii ':')
    let second ← twoDigits 0 60
    let nanos ← attempt secondFraction
    pure ⟨hour, minute, second, nanos.getD 0⟩)

def timeOffset : Parse Offset :=
  label "time offset" (orElse
    (do let _ ← byteIf (fun b => b = ascii 'Z' || b = ascii 'z'); pure .utc)
    (do
      let sign ← byteIf fun b => b = ascii '+' || b = ascii '-'
      let (h, m) ← cut (do
        let h ← twoDigits 0 23
        byte (ascii ':')
        let m ← twoDigits 0 59
        pure (h, m))
      let minutes : Int := h * 60 + m
      pure (.minutes (if sign = ascii '-' then -minutes else minutes))))

/-- A date with an optional time and offset, or a time alone. -/
def datetime : Parse Datetime :=
  orElse
    (label "date-time" (do
      let date ← fullDate
      let rest ← attempt (do
        let _ ← byteIf fun b => b = ascii 'T' || b = ascii 't' || b = ascii ' '
        let time ← partialTime
        let offset ← attempt timeOffset
        pure (time, offset))
      match rest with
      | some (time, offset) => pure ⟨some date, some time, offset⟩
      | none => pure ⟨some date, none, none⟩))
    (label "time" (do
      let time ← partialTime
      pure ⟨none, some time, none⟩))

end Parse

end KeyDebounce.Toml
