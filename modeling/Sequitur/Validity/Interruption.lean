/-!
# Sequitur.Validity.Interruption

Checks of validity that are given up.  A check may be canceled, and it may
be allowed a limited time only.  Time is counted in nanoseconds, and a limit
that is not positive is none.
-/

namespace Sequitur

/-- Why a check is given up. -/
inductive Interruption where
  | canceled
  /-- The time is up. -/
  | expired
deriving DecidableEq

namespace Interruption

/-- What is said of a check that is given up. -/
def message : Interruption → String
  | canceled => "context canceled"
  | expired => "context deadline exceeded"

/-- The time that every check takes at least: ten microseconds.  A check runs
beside the one who waits for it, and to start it, write the clauses down and
hand the answer over takes longer than this.  A shorter limit has passed before
there can be an answer.  Whether the answer or a longer limit comes first is
left to the clock; here the answer does. -/
def leastTime : Int := 10000

/-- What stops a check with a time limit: the limit, if no check can be as
fast as that. -/
def ofLimit? (limit : Int) : Option Interruption :=
  if 0 < limit && limit < leastTime then some .expired else none

/-- What stops a check with a time limit that may have been canceled before
it starts. -/
def of? (isCanceled : Bool) (limit : Int) : Option Interruption :=
  if isCanceled then some .canceled else ofLimit? limit

end Interruption

end Sequitur
