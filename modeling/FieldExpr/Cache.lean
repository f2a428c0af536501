import FieldExpr.Binary64.Text
import FieldExpr.Digest.Basic
import FieldExpr.Expression.Compile

/-!
# The program cache

A store of programs under their digests, which counts the requests that found a
program and those that did not. The first program stored under a digest stays,
and whoever stores an equal one gets it back.
-/

namespace FieldExpr

/-- Programs under their digests, and counters of requests, which start again at
zero when they overflow. -/
structure Cache where
  programs : List (Digest × Program) := []
  hitCounter : UInt64 := 0
  missCounter : UInt64 := 0

namespace Cache

/-- The requests that found a program, as they are counted. -/
def hits (c : Cache) : Nat :=
  c.hitCounter.toNat

/-- The requests that found none, as they are counted. -/
def misses (c : Cache) : Nat :=
  c.missCounter.toNat

/-- The number of programs. -/
def size (c : Cache) : Nat :=
  c.programs.length

/-- Whether there is no program. -/
def isEmpty (c : Cache) : Bool :=
  c.programs.isEmpty

/-- The program under a digest; this counts nothing. -/
def find? (c : Cache) (d : Digest) : Option Program :=
  c.programs.lookup d

/-- Whether there is a program under a digest. -/
def contains (c : Cache) (d : Digest) : Bool :=
  (c.find? d).isSome

/-- Store a program, unless there is one under its digest: the digest, the
program stored under it, and the cache. -/
def insert (c : Cache) (p : Program) : Digest × Program × Cache :=
  let d := p.digest
  match c.find? d with
  | some stored => (d, stored, c)
  | none => (d, p, { c with programs := (d, p) :: c.programs })

/-- Request the program under a digest. -/
def get (c : Cache) (d : Digest) : Option Program × Cache :=
  match c.find? d with
  | some p => (some p, { c with hitCounter := c.hitCounter + 1 })
  | none => (none, { c with missCounter := c.missCounter + 1 })

/-- Compile an expression and request the program under its digest; a program
that is not there is stored. -/
def getOrCompile (c : Cache) (e : Expression) : Digest × Program × Cache :=
  let p := e.compile
  match c.get p.digest with
  | (some stored, c) => (p.digest, stored, c)
  | (none, c) => c.insert p

/-- Whether a request for an expression finds its program. -/
def holds (c : Cache) (e : Expression) : Bool :=
  c.contains e.compile.digest

/-- The cache without programs and counts. -/
def clear (_ : Cache) : Cache :=
  {}

/-- The share of requests that found a program, in percent; without
requests it is zero. -/
def hitRate (c : Cache) : Binary64 :=
  let rate := do
    let total := (c.hitCounter + c.missCounter).toNat
    let share ← (← Binary64.ofNat? c.hits).div? (← Binary64.ofNat? total)
    share.mul? (← Binary64.ofNat? 100)
  rate.getD (.zero false)

/-- The counts in words. -/
def statistics (c : Cache) : String :=
  let count := fun n => String.ofList (Text.natural n)
  count c.size ++ " entries, " ++ count c.hits ++ " hits, " ++ count c.misses ++
    " misses (" ++ String.ofList c.hitRate.textOnePlace ++ "% hit rate)"

/-- What the log says when a program is stored. -/
def insertLog (p : Program) : List LogEntry :=
  [⟨.debug, "Cached program " ++ p.digest.hex⟩]

/-- What the log says when an expression is compiled and requested. -/
def getOrCompileLog (c : Cache) (e : Expression) : List LogEntry :=
  Expression.compileLog (e.compileWith 0) ++ if c.holds e then
    [] else insertLog e.compile

end Cache

end FieldExpr
