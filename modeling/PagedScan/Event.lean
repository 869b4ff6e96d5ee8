import PagedScan.Direction
import PagedScan.Error
import PagedScan.Settings

/-!
# What is worth a line in the log

The library writes no log. An operation that has something to say hands out
events along with its answer, and whoever runs it writes them down. How an
event reads as a line is fixed here.
-/

namespace PagedScan

/-- Something that happened. -/
inductive Event where
  | fetched (direction : Direction) (limit : Int64) (count : Nat) (valid : Bool)
  | searchBegun (index : Nat) (direction : Direction) (start : Option Bytes) (valid : Bool)
  | searchFailed (index : Nat) (error : Error)
  | faultMet (key : Bytes)
  | batchApplied (operations : Nat)
  | settingsLoaded (name : String) (settings : Settings)
  deriving DecidableEq, Repr

/-- How much an event matters. -/
inductive Level where
  | trace
  | debug
  | warn
  deriving DecidableEq, Repr

namespace Level

/-- How a log line shows the level. -/
def name : Level → String
  | trace => "TRACE"
  | debug => "DEBUG"
  | warn => "WARN"

end Level

/-! ## Values in log lines -/

namespace Direction

/-- The direction as log lines call it. -/
def describe : Direction → String
  | forward => "Forward"
  | backward => "Backward"

end Direction

namespace Bytes

/-- Bytes as a list of numbers. -/
def describe (bytes : Bytes) : String :=
  "[" ++ ", ".intercalate (bytes.map fun b => toString b.toNat) ++ "]"

/-- Bytes that may be absent. -/
def describeOption : Option Bytes → String
  | none => "None"
  | some bytes => "Some(" ++ bytes.describe ++ ")"

end Bytes

namespace FailurePolicy

/-- The policy as log lines call it. -/
def describe : FailurePolicy → String
  | proceed => "Continue"
  | abort => "Abort"

end FailurePolicy

namespace Settings

/-- The settings as log lines show them. -/
def describe (s : Settings) : String :=
  "FetchConfig \x7b page_size: " ++ toString s.pageSize.toNat ++
    ", error_policy: " ++ s.policy.describe ++ " \x7d"

end Settings

/-! ## Lines -/

namespace Event

/-- The level at which the event is reported. -/
def level : Event → Level
  | fetched .. => .trace
  | searchFailed .. => .warn
  | searchBegun .. | faultMet _ | batchApplied _ | settingsLoaded .. => .debug

/-- The event in words. -/
def message : Event → String
  | fetched direction limit count valid =>
      "bounded fetch " ++ direction.describe ++ " limit " ++ toString limit.toInt ++
        " found " ++ toString count ++ " (cursor valid: " ++ toString valid ++ ")"
  | searchBegun index direction start valid =>
      "search " ++ toString index ++ ": " ++ direction.describe ++ " from " ++
        Bytes.describeOption start ++ ", cursor valid: " ++ toString valid
  | searchFailed index error =>
      "cursor failed while running search " ++ toString index ++ ": " ++ error.message
  | faultMet key => "faulty cursor fails at " ++ key.describe
  | batchApplied operations =>
      "apply write batch of " ++ toString operations ++ " ops"
  | settingsLoaded name settings =>
      "load fetch config from " ++ name ++ ": " ++ settings.describe

/-- The line that reports the event. -/
def line (e : Event) : String :=
  e.level.name ++ " " ++ e.message

end Event

end PagedScan
