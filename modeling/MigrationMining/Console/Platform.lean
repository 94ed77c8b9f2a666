import MigrationMining.CodeModel.Program
import MigrationMining.Settings.Readers
import MigrationMining.Web.Client

/-! What the program relies on that is not its own: the libraries that settings are read with, the client that makes
requests, and the programs that can be started. -/

namespace MigrationMining.Console

structure Platform where
  readers : Settings.Readers
  connect : String → Nat → Except String Client
  programs : Programs

end MigrationMining.Console
