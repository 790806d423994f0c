import VectorizedSort.Backend.Request
import VectorizedSort.Fault

/-! # Log records

Every event that is reported to the log is a value; its severity and its text are read off it. -/

namespace VectorizedSort

/-- How serious a record is. -/
inductive Severity where
  | error
  | warn
  | debug
  | trace
deriving DecidableEq

/-- The name under which a severity is written. -/
def Severity.name : Severity → String
  | error => "ERROR"
  | warn => "WARN"
  | debug => "DEBUG"
  | trace => "TRACE"

/-- The events that are logged. -/
inductive Record where
  /-- A slice is going to be sorted. -/
  | sorting (length : Nat) (kind : Kind) (backend : Backend)
  /-- A slice is going to be partitioned. -/
  | partitioning (length : Nat) (kind : Kind) (pivot1 pivot2 : Nat) (backend : Backend)
  /-- A request for a backend is not followed. -/
  | requestRefused (refusal : Refusal) (used : Backend)
  /-- A backend was selected for the process. -/
  | selected (backend : Backend)
  /-- A guarded call ends the process. -/
  | aborting (cause : Abort)
deriving DecidableEq

/-- The name of the environment variable that requests a backend. -/
def backendVariable : String := "LANESORT_BACKEND"

namespace Record

/-- The severity of an event. -/
def severity : Record → Severity
  | sorting .. | partitioning .. => .trace
  | requestRefused .. => .warn
  | selected _ => .debug
  | aborting _ => .error

/-- The text of an event. -/
def text : Record → String
  | sorting length kind backend => s!"sort {length} x {kind.name} on {backend.name}"
  | partitioning length kind pivot1 pivot2 backend =>
    s!"partition {length} x {kind.name} around [{pivot1}] and [{pivot2}] on {backend.name}"
  | requestRefused (.unknown error) _ => s!"ignoring {backendVariable}: {error.message}"
  | requestRefused (.unsupported requested) used =>
    s!"{backendVariable}={requested.name} is not supported on this CPU, using {used.name}"
  | selected backend => s!"lanesort backend: {backend.name}"
  | aborting cause => cause.message

/-- A record as one line: its severity, a space and its text. -/
def line (record : Record) : String := s!"{record.severity.name} {record.text}"

end Record

/-- A value with the records logged while it was computed. -/
structure Logged (β : Type) where
  value : β
  log : List Record

end VectorizedSort
