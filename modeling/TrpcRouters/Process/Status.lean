/-! How a process ended, as the system reports it in one number. -/

namespace TrpcRouters

structure WaitStatus where
  raw : Nat
deriving DecidableEq, Inhabited, Repr

namespace WaitStatus

def exited (code : Nat) : WaitStatus :=
  ⟨code % 256 * 256⟩

def killed (signal : Nat) : WaitStatus :=
  ⟨signal % 128⟩

/-- Only a process that ended by itself with code zero has succeeded. -/
def succeeded (status : WaitStatus) : Bool :=
  status.raw == 0

def signal (status : WaitStatus) : Nat :=
  status.raw % 128

def coreDumped (status : WaitStatus) : Bool :=
  status.raw / 128 % 2 == 1

def signalNames : List (Nat × String) :=
  [(1, "SIGHUP"), (2, "SIGINT"), (3, "SIGQUIT"), (4, "SIGILL"), (5, "SIGTRAP"), (6, "SIGABRT"),
    (7, "SIGBUS"), (8, "SIGFPE"), (9, "SIGKILL"), (10, "SIGUSR1"), (11, "SIGSEGV"),
    (12, "SIGUSR2"), (13, "SIGPIPE"), (14, "SIGALRM"), (15, "SIGTERM"), (16, "SIGSTKFLT"),
    (17, "SIGCHLD"), (18, "SIGCONT"), (19, "SIGSTOP"), (20, "SIGTSTP"), (21, "SIGTTIN"),
    (22, "SIGTTOU"), (23, "SIGURG"), (24, "SIGXCPU"), (25, "SIGXFSZ"), (26, "SIGVTALRM"),
    (27, "SIGPROF"), (28, "SIGWINCH"), (29, "SIGIO"), (30, "SIGPWR"), (31, "SIGSYS")]

def signalText (signal : Nat) : String :=
  match signalNames.find? (fun entry => entry.1 == signal) with
  | some entry => toString signal ++ " (" ++ entry.2 ++ ")"
  | none => toString signal

/-- A number below sixteen as a digit, then the digits of larger numbers in front. -/
def hexDigits (value : Nat) : String :=
  String.ofList (Nat.toDigits 16 value)

def text (status : WaitStatus) : String :=
  if status.signal = 0 then "exit status: " ++ toString (status.raw / 256 % 256)
  else if status.raw % 256 = 127 then
    "stopped (not terminated) by signal: " ++ signalText (status.raw / 256 % 256)
  else if status.raw = 65535 then "continued (WIFCONTINUED)"
  else if status.signal = 127 then
    "unrecognised wait status: " ++ toString status.raw ++ " 0x" ++ hexDigits status.raw
  else if status.coreDumped then "signal: " ++ signalText status.signal ++ " (core dumped)"
  else "signal: " ++ signalText status.signal

end WaitStatus

end TrpcRouters
