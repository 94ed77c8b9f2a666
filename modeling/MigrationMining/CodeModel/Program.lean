import MigrationMining.FileStore

/-! Programs that are run on the files, as far as a run relies on them. -/

namespace MigrationMining

inductive Ending where
  | exited (status : Nat)
  | killed (signal : Nat)
  deriving DecidableEq

def signalName : Nat → String
  | 1 => " (SIGHUP)"
  | 2 => " (SIGINT)"
  | 3 => " (SIGQUIT)"
  | 6 => " (SIGABRT)"
  | 9 => " (SIGKILL)"
  | 10 => " (SIGUSR1)"
  | 13 => " (SIGPIPE)"
  | 14 => " (SIGALRM)"
  | 15 => " (SIGTERM)"
  | _ => ""

def Ending.text : Ending → String
  | .exited n => "exit status: " ++ toString n
  | .killed n => "signal: " ++ toString n ++ signalName n

structure Finished where
  ending : Ending
  output : ByteArray
  errors : ByteArray
  files : FileStore

/-- What a program leaves that is run with some arguments; `none` if it cannot be started. -/
abbrev Programs := FileStore → String → List String → Option Finished

end MigrationMining
