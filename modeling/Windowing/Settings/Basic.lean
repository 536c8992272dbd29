/-!
Tuning of an execution: when sorting is spread over workers, over how many, and how much memory the
buffered rows may take.
-/
namespace Windowing

structure Settings where
  minItemsPerWorker : Nat := 8192
  parallelSort : Bool := true
  /-- Size of the pool; absent, the machine decides. -/
  threads : Option Nat := none
  memoryLimit : Nat := 256 * 1024 * 1024
  deriving DecidableEq

inductive SettingsError
  | unreadable
  | noItemsPerWorker
  | noThreads
  | noMemory
  deriving DecidableEq

def SettingsError.message : SettingsError → String
  | unreadable => "failed to parse window exec config"
  | noItemsPerWorker => "min_items_per_worker must be > 0"
  | noThreads => "num_threads must be > 0 when set"
  | noMemory => "memory_limit_bytes must be > 0"

namespace Settings

/-- The first complaint in the order of the fields. -/
def check (s : Settings) : Except SettingsError Unit :=
  if s.minItemsPerWorker = 0 then .error .noItemsPerWorker
  else if s.threads = some 0 then .error .noThreads
  else if s.memoryLimit = 0 then .error .noMemory
  else .ok ()

/-- Size of the pool on a machine that offers `offered` threads. -/
def poolSize (s : Settings) (offered : Nat) : Nat := s.threads.getD offered

/-- The threads to sort with; none if sorting is not to be parallel. -/
def pool (s : Settings) (offered : Nat) : Option Nat :=
  if s.parallelSort then some (s.poolSize offered) else none

def text (s : Settings) : String :=
  s!"min_items_per_worker: {s.minItemsPerWorker}\n"
    ++ "parallel_sort: " ++ (if s.parallelSort then "true" else "false") ++ "\n"
    ++ "num_threads: " ++ (s.threads.map toString).getD "null" ++ "\n"
    ++ s!"memory_limit_bytes: {s.memoryLimit}\n"

end Settings
end Windowing
