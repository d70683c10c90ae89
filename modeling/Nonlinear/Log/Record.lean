import Nonlinear.Condition

/-! # Log records

An event in the form a log keeps: a level, a message, and named values.
-/

namespace Nonlinear.Log

/-- The levels, from the most to the least important. -/
inductive Level where
  | info
  | debug
  | trace
  deriving DecidableEq, Repr

namespace Level

def name : Level → String
  | info => "INFO"
  | debug => "DEBUG"
  | trace => "TRACE"

def rank : Level → Nat
  | info => 0
  | debug => 1
  | trace => 2

def keeps (log record : Level) : Bool := record.rank ≤ log.rank

end Level

inductive Value where
  | number (x : Float)
  | count (n : Nat)
  | word (s : String)
  | condition (c : Condition Float)

structure Record where
  level : Level
  message : String
  fields : List (String × Value)

class Loggable (ε : Type) where
  record : ε → Record

/-- The records of some events that a log of this level keeps. -/
def keep {ε : Type} [Loggable ε] (level : Level) (events : List ε) : List Record :=
  (events.map Loggable.record).filter fun r => level.keeps r.level

end Nonlinear.Log
