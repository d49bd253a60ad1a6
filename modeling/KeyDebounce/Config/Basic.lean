import KeyDebounce.Timing
import KeyDebounce.Debounce.Engine
/-!
# Debounce configuration

The `[debounce]` section of a keyboard description: the algorithm, a symmetric threshold with
optional press and release overrides, the quiet window, and whether time counts scan passes.
Every threshold a key can be armed with must be at least one tick. The build takes its timing from
the default section.
-/

set_option autoImplicit false

namespace KeyDebounce

namespace Algorithm

def names : List String := ["asym_defer", "eager_list", "quiesce"]

def configName : Algorithm → String
  | .asymDefer => "asym_defer"
  | .eagerList => "eager_list"
  | .quiesce => "quiesce"

def ofConfigName? : String → Option Algorithm
  | "asym_defer" => some .asymDefer
  | "eager_list" => some .eagerList
  | "quiesce" => some .quiesce
  | _ => none

def title : Algorithm → String
  | .asymDefer => "AsymDefer"
  | .eagerList => "EagerList"
  | .quiesce => "Quiesce"

end Algorithm

/-- The `[debounce]` section. -/
structure DebounceConfig where
  algorithm : Algorithm := .asymDefer
  debounceTime : Nat := 5
  debounceDown : Option Nat := none
  debounceUp : Option Nat := none
  quiesceTime : Nat := 30
  useFrames : Bool := false
  deriving DecidableEq, Repr

inductive ConfigError where
  /-- The text could not be read; `report` says where and why. -/
  | tomlParse (report : String)
  /-- A setting is out of its range. -/
  | invalidValue (field value expected : String)
  deriving DecidableEq, Repr

def ConfigError.message : ConfigError → String
  | .tomlParse report => "Failed to parse `keyboard.toml`: " ++ report
  | .invalidValue field value expected => s!"Invalid value '{value}' for '{field}', expected {expected}"

namespace DebounceConfig

def down (c : DebounceConfig) : Nat := c.debounceDown.getD c.debounceTime

def up (c : DebounceConfig) : Nat := c.debounceUp.getD c.debounceTime

def timing (c : DebounceConfig) : Timing := ⟨c.down, c.up, c.quiesceTime⟩

/-- Refuse a zero threshold, checking the symmetric one, then press, then release. -/
def validate (c : DebounceConfig) : Except ConfigError DebounceConfig :=
  let checks := [("debounce.debounce_time", c.debounceTime), ("debounce.debounce_down", c.down),
    ("debounce.debounce_up", c.up)]
  match checks.find? (·.2 = 0) with
  | some (field, value) => .error (.invalidValue field (toString value) "a value between 1 and 255")
  | none => .ok c

end DebounceConfig

def buildConfig : DebounceConfig := {}

def buildTiming : Timing := buildConfig.timing

end KeyDebounce
