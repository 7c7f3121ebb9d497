import Sequitur.Validity.Refutation

/-!
# Sequitur.Validity.Learner

A search for values under which clauses hold, which learns from its
failures.

Literals are decided one after the other, and after each decision those
follow that have to hold where the clauses do.  When a clause has no literal
left, the search finds out which literals have led to this.  It adds a clause
that forbids them to come together again, and goes back to the decision
where this clause would have made a difference.

A clause is looked at only when one of its first two literals is denied.
Variables that took part in recent failures are decided first.

The search ends with values, or with the clauses that it has learned and a
way to derive each of them.  Either can be checked without knowing how it
was found, so nothing is proved about the search itself.
-/

namespace Sequitur

/-- What is known of a variable. -/
inductive Mark where
  | unknown
  | yes
  | no
deriving DecidableEq

/-- The state of a search. -/
structure Learner where
  /-- The clauses that are given and those that have been learned. -/
  clauses : Array Clause
  /-- For each literal, by its place, the clauses to look at when it is denied. -/
  watchers : Array (List Nat)
  /-- What is known of each variable. -/
  marks : Array Mark
  /-- For each variable that is known, the number of decisions before it. -/
  levels : Array Nat
  /-- For each variable that is known and was not decided, the clause it
  follows from. -/
  sources : Array Nat
  /-- How much each variable has taken part in failures, recent ones
  counting more. -/
  scores : Array Nat
  /-- What a variable counts for in the next failure. -/
  weight : Nat := 1
  /-- What each variable was last known to be. -/
  habits : Array Bool
  /-- The literals that are known to hold, the last one at the end. -/
  trail : Array Literal := #[]
  /-- The length of the trail before each decision. -/
  decisions : Array Nat := #[]
  /-- The number of literals of the trail whose consequences are known. -/
  done : Nat := 0
  /-- What has been learned, the last at the end. -/
  learned : Array Derived := #[]
  /-- The number of failures since the search went back to its start. -/
  failures : Nat := 0
  /-- The number of failures after which the search goes back to its start. -/
  patience : Nat := 100

/-- Values of variables by their numbers. -/
abbrev Values := Array Bool

/-- How a search ends. -/
inductive Finding where
  /-- The clauses hold with these values. -/
  | values (vs : Values)
  /-- The clauses cannot hold together. -/
  | refutation (ds : List Derived)
  /-- The search was given up. -/
  | nothing

namespace Learner

/-! ## Literals -/

/-- The place of a literal in a table. -/
def place (l : Literal) : Nat := 2 * l.natAbs + if l < 0 then 1 else 0

/-- What is known of a literal. -/
def mark (s : Learner) (l : Literal) : Mark :=
  match s.marks.getD l.natAbs .unknown with
  | .unknown => .unknown
  | .yes => if 0 < l then .yes else .no
  | .no => if 0 < l then .no else .yes

/-- The number of decisions. -/
def level (s : Learner) : Nat := s.decisions.size

/-- The number of decisions before a literal was known. -/
def levelOf (s : Learner) (l : Literal) : Nat := s.levels.getD l.natAbs 0

/-- Lets a literal hold because of a clause. -/
def put (l : Literal) (source : Nat) (s : Learner) : Learner :=
  { s with
    marks := s.marks.setIfInBounds l.natAbs (if 0 < l then .yes else .no)
    levels := s.levels.setIfInBounds l.natAbs s.level
    sources := s.sources.setIfInBounds l.natAbs source
    trail := s.trail.push l }

/-- Looks at a clause when a literal is denied. -/
def watch (l : Literal) (i : Nat) (s : Learner) : Learner :=
  { s with watchers := s.watchers.modify (place l) (i :: ·) }

/-! ## Consequences -/

/-- Takes the first literal that is not denied out of a list. -/
def takeOut (s : Learner) : Clause → Option (Literal × Clause)
  | [] => none
  | l :: ls =>
    if s.mark l = .no then (s.takeOut ls).map fun (k, rest) => (k, l :: rest) else some (l, ls)

/-- Looks at clauses one of whose first two literals has been denied, and
tells which clause has no literal left. -/
def look (l : Literal) : List Nat → Learner → Option Nat × Learner
  | [], s => (none, s)
  | i :: is, s =>
    match s.clauses.getD i [] with
    | a :: b :: rest =>
      let other := if a = l then b else a
      if s.mark other = .yes then look l is (s.watch l i)
      else
        match s.takeOut rest with
        | some (k, rest) =>
          let s := { s with clauses := s.clauses.setIfInBounds i (other :: k :: l :: rest) }
          look l is (s.watch k i)
        | none =>
          let s := { s with clauses := s.clauses.setIfInBounds i (other :: l :: rest) }.watch l i
          if s.mark other = .no then (some i, is.foldl (fun s j => s.watch l j) s)
          else look l is (s.put other i)
    | _ => look l is s

/-- Adds the consequences of what is known, and tells which clause has no
literal left.  The first argument bounds the number of literals. -/
def propagate : Nat → Learner → Option Nat × Learner
  | 0, s => (none, s)
  | n + 1, s =>
    match s.trail[s.done]? with
    | none => (none, s)
    | some l =>
      let is := s.watchers.getD (place (-l)) []
      let s := { s with
        done := s.done + 1
        watchers := s.watchers.setIfInBounds (place (-l)) [] }
      match look (-l) is s with
      | (some i, s) => (some i, s)
      | (none, s) => propagate n s

/-! ## Learning -/

/-- The causes of a failure, as far as they are known. -/
structure Causes where
  /-- Whether each variable took part. -/
  seen : Array Bool
  /-- The number of those known since the last decision that have not been
  replaced by their own causes. -/
  pending : Nat := 0
  /-- The literals known before the last decision. -/
  earlier : Clause := []
  /-- The clauses that were used, in the order of their use. -/
  sources : List Nat
  /-- The variables that took part. -/
  involved : List Nat := []

/-- Adds the literals of a clause to the causes. -/
def Causes.add (s : Learner) : Clause → Causes → Causes
  | [], c => c
  | l :: ls, c =>
    let n := l.natAbs
    if c.seen.getD n false then c.add s ls
    else
      let level := s.levelOf l
      Causes.add s ls
        { c with
          seen := c.seen.setIfInBounds n true
          involved := n :: c.involved
          pending := if 0 < level && level = s.level then c.pending + 1 else c.pending
          earlier := if 0 < level && level < s.level then l :: c.earlier else c.earlier }

/-- Replaces a literal by the causes it follows from. -/
def Causes.replace (s : Learner) (l : Literal) (c : Causes) : Causes :=
  let i := s.sources.getD l.natAbs 0
  { c with sources := i :: c.sources }.add s (s.clauses.getD i [])

/-- Goes back along the trail up to the literal that all causes since the
last decision have in common. -/
def Causes.common (s : Learner) : Nat → Causes → Option Literal × Causes
  | 0, c => (none, c)
  | n + 1, c =>
    match s.trail[n]? with
    | none => (none, c)
    | some l =>
      if c.seen.getD l.natAbs false then
        if c.pending ≤ 1 then (some l, c)
        else Causes.common s n ({ c with pending := c.pending - 1 }.replace s l)
      else Causes.common s n c

/-- Replaces the causes before the first decision, which hold in any case. -/
def Causes.settled (s : Learner) : Nat → Causes → Causes
  | 0, c => c
  | n + 1, c =>
    match s.trail[n]? with
    | none => c
    | some l => Causes.settled s n (if c.seen.getD l.natAbs false then c.replace s l else c)

/-- The greatest level of some literals, and the literals with one of that
level first. -/
def highestFirst (s : Learner) : Clause → Nat × Clause
  | [] => (0, [])
  | l :: ls =>
    match s.highestFirst ls with
    | (_, []) => (s.levelOf l, [l])
    | (level, k :: ks) =>
      if level < s.levelOf l then (s.levelOf l, l :: k :: ks) else (level, k :: l :: ks)

/-- The greatest score; all scores are cut down when one would exceed it. -/
def highestScore : Nat := 1000000000000000

/-- Raises the scores of variables. -/
def raise (ns : List Nat) (s : Learner) : Learner :=
  let scores := ns.foldl (fun scores n => scores.modify n (· + s.weight)) s.scores
  let weight := s.weight + s.weight / 16 + 1
  if highestScore < weight then
    { s with scores := scores.map (· / highestScore), weight := 1 }
  else { s with scores, weight }

/-- Forgets a literal. -/
def forget (l : Literal) (s : Learner) : Learner :=
  { s with
    marks := s.marks.setIfInBounds l.natAbs .unknown
    habits := s.habits.setIfInBounds l.natAbs (decide (0 < l)) }

/-- Goes back to a level. -/
def goBack (level : Nat) (s : Learner) : Learner :=
  match s.decisions[level]? with
  | none => s
  | some start =>
    let s := (s.trail.toList.drop start).foldl (fun s l => s.forget l) s
    { s with
      trail := s.trail.take start
      decisions := s.decisions.take level
      done := start }

/-- Adds a clause that has been learned. -/
def add (d : Derived) (s : Learner) : Learner :=
  { s with clauses := s.clauses.push d.clause, learned := s.learned.push d }

/-- Learns from a clause that has no literal left, and goes back.  If no
decision had a part in it, what has been learned is a refutation. -/
def learn (i : Nat) (s : Learner) : Except (List Derived) Learner :=
  let n := s.trail.size
  let start : Causes := { seen := s.marks.map fun _ => false, sources := [i] }
  let causes := start.add s (s.clauses.getD i [])
  if s.level = 0 then
    let causes := causes.settled s n
    .error (s.learned.push { clause := [], sources := causes.sources }).toList
  else
    match causes.common s n with
    | (none, _) => .error s.learned.toList
    | (some l, causes) =>
      let causes := causes.settled s (s.decisions.getD 0 0)
      let (level, earlier) := s.highestFirst causes.earlier
      let position := s.clauses.size
      let s := (s.raise causes.involved).goBack level
      let s := s.add { clause := -l :: earlier, sources := causes.sources }
      let s := match earlier with
        | [] => s
        | k :: _ => (s.watch (-l) position).watch k position
      .ok { s.put (-l) position with failures := s.failures + 1 }

/-! ## Searching -/

/-- The unknown variable with the greatest score, among those below `n`. -/
def choose? (s : Learner) : Nat → Option (Nat × Nat) → Option (Nat × Nat)
  | 0, best => best
  | n + 1, best =>
    if n ≠ 0 && s.marks.getD n .yes = .unknown then
      let score := s.scores.getD n 0
      match best with
      | none => s.choose? n (some (n, score))
      | some (_, high) => s.choose? n (if high ≤ score then some (n, score) else best)
    else s.choose? n best

/-- Decides a literal. -/
def decide (n : Nat) (s : Learner) : Learner :=
  let l : Literal := if s.habits.getD n false then n else -n
  { s with decisions := s.decisions.push s.trail.size }.put l 0

/-- Goes back to the start from time to time, with more patience each time. -/
def restart (s : Learner) : Learner :=
  if s.failures < s.patience then s
  else { s.goBack 0 with failures := 0, patience := s.patience + 50 }

/-- Searches with a bound on the number of decisions and failures. -/
def search : Nat → Learner → Finding
  | 0, _ => .nothing
  | n + 1, s =>
    match s.propagate (s.marks.size + 1) with
    | (some i, s) =>
      match s.learn i with
      | .error ds => .refutation ds
      | .ok s => search n s.restart
    | (none, s) =>
      match s.choose? s.marks.size none with
      | none => .values (s.marks.map (· = .yes))
      | some (v, _) => search n (s.decide v)

/-! ## Starting -/

/-- Takes in the given clauses from a position on, and tells which one has
no literal left. -/
def takeIn (i : Nat) : List Clause → Learner → Option Nat × Learner
  | [], s => (none, s)
  | c :: cs, s =>
    match c.eraseDups with
    | [] => (some i, s)
    | [l] =>
      match s.mark l with
      | .yes => takeIn (i + 1) cs s
      | .no => (some i, s)
      | .unknown => takeIn (i + 1) cs (s.put l i)
    | a :: b :: rest =>
      let s := { s with clauses := s.clauses.setIfInBounds i (a :: b :: rest) }
      takeIn (i + 1) cs ((s.watch a i).watch b i)

/-- The greatest number of a variable. -/
def greatest (cs : List Clause) : Nat :=
  cs.foldl (fun n c => c.foldl (fun n l => max n l.natAbs) n) 0

/-- The state before a search. -/
def start (cs : List Clause) : Learner :=
  let n := greatest cs + 1
  { clauses := cs.toArray
    watchers := Array.replicate (2 * n) []
    marks := Array.replicate n .unknown
    levels := Array.replicate n 0
    sources := Array.replicate n 0
    scores := Array.replicate n 0
    habits := Array.replicate n false }

/-- The greatest number of decisions and failures. -/
def effort : Nat := 100000000

/-- Searches for values under which clauses hold. -/
def run (cs : List Clause) : Finding :=
  match takeIn 0 cs (start cs) with
  | (some i, s) =>
    match s.learn i with
    | .error ds => .refutation ds
    | .ok _ => .nothing
  | (none, s) => s.search effort

end Learner

end Sequitur
