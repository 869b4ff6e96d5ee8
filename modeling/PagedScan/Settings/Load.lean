import PagedScan.Event
import PagedScan.Settings.Json

/-!
# Loading settings

Settings are loaded from bytes, from a source that hands out bytes piece by
piece, or from a file. What was loaded is checked: a page size must be positive
and may not exceed `maxPageSize`.
-/

namespace PagedScan

/-- What is left to be read from somewhere: nothing, a piece and then more, or
an error. -/
inductive Source where
  | finished
  | piece (bytes : Bytes) (rest : Source)
  | broken (text : String)
  deriving Repr, Inhabited

namespace Source

/-- Everything that is left, unless there is an error on the way. A piece
without bytes means that there are no more. -/
def readAll : Source → Except Error Bytes
  | finished => .ok []
  | broken text => .error (.io text)
  | piece bytes rest =>
      if bytes.isEmpty then .ok [] else rest.readAll.map (bytes ++ ·)

end Source

namespace Settings

/-- Refuses settings that may not be loaded. -/
def check (s : Settings) : Except BadSettings Settings :=
  if s.pageSize = 0 then .error .noRoom
  else if maxPageSize < s.pageSize.toNat then
    .error (.tooMuchRoom s.pageSize.toNat maxPageSize)
  else .ok s

/-- The settings that a text gives. -/
def parse (text : Bytes) : Except BadSettings Settings :=
  match record.reader.readText text with
  | .error p => .error (.unreadable p)
  | .ok s => s.check

/-- Loads settings from bytes. -/
def ofBytes (text : Bytes) : Except Error Settings :=
  (parse text).mapError .settings

/-- Loads settings from a source. -/
def ofSource (source : Source) : Except Error Settings :=
  match source.readAll with
  | .error e => .error e
  | .ok text => ofBytes text

/-- Loads settings from a file that goes by `name` and could be opened or not,
and reports what it loaded. -/
def ofFile (name : String) (file : Except String Source) :
    Except Error Settings × List Event :=
  match file with
  | .error text => (.error (.io text), [])
  | .ok source =>
      match ofSource source with
      | .error e => (.error e, [])
      | .ok s => (.ok s, [.settingsLoaded name s])

end Settings

end PagedScan
