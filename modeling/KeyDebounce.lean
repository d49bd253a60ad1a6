import KeyDebounce.Row
import KeyDebounce.Timing
import KeyDebounce.Clock
import KeyDebounce.Tracker
import KeyDebounce.Scan
import KeyDebounce.Debounce.Defer
import KeyDebounce.Debounce.Chain
import KeyDebounce.Debounce.Quiesce
import KeyDebounce.Debounce.Engine
import KeyDebounce.Session
import KeyDebounce.Decimal.Read
import KeyDebounce.Decimal.Shortest
import KeyDebounce.Text.Printable
import KeyDebounce.Text.GraphemeExtend
import KeyDebounce.Text.Quoted
import KeyDebounce.Toml.Failure
import KeyDebounce.Toml.Cursor
import KeyDebounce.Toml.Document
import KeyDebounce.Toml.Assembly
import KeyDebounce.Toml.Syntax.Trivia
import KeyDebounce.Toml.Syntax.Strings
import KeyDebounce.Toml.Syntax.Key
import KeyDebounce.Toml.Syntax.Numbers
import KeyDebounce.Toml.Syntax.Datetime
import KeyDebounce.Toml.Syntax.Value
import KeyDebounce.Toml.Syntax.Document
import KeyDebounce.Config.Basic
import KeyDebounce.Config.Decode
import KeyDebounce.Proofs.Bits
import KeyDebounce.Proofs.Runs
import KeyDebounce.Proofs.Chain.Arena
import KeyDebounce.Proofs.Chain.Expire
import KeyDebounce.Proofs.Chain.Arm
import KeyDebounce.Proofs.Chain.Pass
import KeyDebounce.Proofs.Chain.Unbounded
import KeyDebounce.Proofs.Chain.Reachable
import KeyDebounce.Proofs.Rows
import KeyDebounce.Proofs.Defer.Keys
import KeyDebounce.Proofs.Quiesce.Keys
import KeyDebounce.Proofs.Spacing.Rules
import KeyDebounce.Proofs.Spacing.Commits
import KeyDebounce.Proofs.Defer.Window
import KeyDebounce.Proofs.Invariant
import KeyDebounce.Proofs.Defer.Reachable
import KeyDebounce.Proofs.Quiesce.Reachable
import KeyDebounce.Proofs.Elapsed
import KeyDebounce.Proofs.View
import KeyDebounce.Proofs.Quiesce.Schedule
import KeyDebounce.Proofs.Chain.Schedule
import KeyDebounce.Proofs.Countdown
import KeyDebounce.Proofs.Defer.Settle
import KeyDebounce.Proofs.Chain.Settle
import KeyDebounce.Proofs.Quiesce.Settle
import KeyDebounce.Proofs.Settle
import KeyDebounce.Proofs.Tracker
import KeyDebounce.Proofs.Laps
import KeyDebounce.Proofs.Lifecycle
