import Metagen.Directive.Basic

/-! The surroundings of a run: files, clocks, and whoever watches it. A run is written for any monad
in which there is a host, so that it runs on real files as well as on files held in memory. -/

namespace Metagen

/-- What a run asks of its surroundings. -/
structure Host (m : Type → Type) where
  /-- The text of a file, if it can be read. -/
  read : String → m (Option String)
  /-- Write a file; the answer tells whether it was written. -/
  write : String → String → m Bool
  /-- Make a directory and those it is in; the answer tells whether it is there now. -/
  makeDirectory : String → m Bool
  /-- Show a line of the log. -/
  log : String → m Unit
  /-- A directive is about to run. -/
  before : Directive → m Unit
  /-- A directive has run; the text is what it generated, if it generates a file. -/
  after : Directive → Option String → m Unit
  /-- Date and time for the first line of a generated file. -/
  time : m String
  /-- Date and time for the manifest. -/
  timestamp : m String
  /-- Nanoseconds since some moment. -/
  clock : m Nat

/-- Write a file, and make the directories it is in. -/
def Host.output {m : Type → Type} [Monad m] (host : Host m) (path text : String) : m Bool := do
  match Path.parent? path with
  | some dir => if ← host.makeDirectory dir then host.write path text else return false
  | none => host.write path text

end Metagen
