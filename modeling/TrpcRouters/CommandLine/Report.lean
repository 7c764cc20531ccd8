import TrpcRouters.Compiler.Config
import TrpcRouters.Job

/-! The lines that the command reports to its user, and which of them the user wants to see. -/

namespace TrpcRouters.CommandLine

inductive Level where
  | failure
  | warning
  | information
deriving DecidableEq, Inhabited, Repr

namespace Level

/-- The less urgent, the higher. -/
def rank : Level → Nat
  | failure => 0
  | warning => 1
  | information => 2

def text : Level → String
  | failure => "ERROR"
  | warning => " WARN"
  | information => " INFO"

def thresholds : List (String × Option Level) :=
  [("off", none), ("", some failure), ("error", some failure), ("warn", some warning),
    ("info", some information), ("debug", some information), ("trace", some information)]

def threshold (environment : Environment) : Option Level :=
  match environment.lookup "RUST_LOG" with
  | none => some information
  | some name => (thresholds.lookup name.text.toLower).getD (some information)

end Level

structure Report where
  level : Level
  text : String
deriving DecidableEq, Inhabited, Repr

namespace Report

/-- The report of an event of a run. The call of the compiler is not worth one. -/
def ofEvent? : Event → Option Report
  | .progress line => some ⟨.information, line⟩
  | .missing file => some ⟨.warning, "compiled file missing from descriptor set file=" ++ file⟩
  | .called _ => none

def line (report : Report) : String :=
  report.level.text ++ " " ++ report.text

def isShown (threshold : Option Level) (report : Report) : Bool :=
  match threshold with
  | none => false
  | some level => report.level.rank ≤ level.rank

def shown (threshold : Option Level) (reports : List Report) : String :=
  String.join ((reports.filter (isShown threshold)).map fun report => report.line ++ "\n")

end Report

end TrpcRouters.CommandLine
