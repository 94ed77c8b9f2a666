import MigrationMining.Web.Retry

/-! The library that makes requests, as far as fetching relies on it. -/

namespace MigrationMining

/-- The form in which a client asks for a URL, or why it refuses to. -/
structure Client where
  request : String → Except String String

def Client.plain : Client := ⟨.ok⟩

structure Fetcher where
  client : Client
  policy : RetryPolicy

end MigrationMining
