import MigrationMining.Console.Platform
import MigrationMining.Settings.Dotenv
import MigrationMining.Shell.Run
import MigrationMining.Toml.Reader
import MigrationMining.Web.Url

/-! A platform of its own, for runs that have no other: with readers for plain files of settings and of variables, a client
for plain URLs, and a shell with a few utilities. -/

namespace MigrationMining.Console

def Platform.plain : Platform where
  readers := ⟨Dotenv.reader, Toml.read⟩
  connect := Url.client
  programs := Shell.start?

end MigrationMining.Console
