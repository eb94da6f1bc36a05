import TxnPath.Fault

/-!
# Object pools

A pool hands out objects for reuse. A returned object is finished and kept, up to a number of idle
objects; a borrower gets the one returned last, or a new one. The pool counts the objects it made,
those that are out, and the most that were ever out at once. Finishing must leave an object
uninitialized: a pool that sees an initialized one where it expects none stops with a fault.
-/

set_option autoImplicit false

namespace TxnPath

/-- Objects that can be finished for reuse. -/
class Poolable (α : Type) where
  /-- Whether the object is in use. -/
  isInitialized : α → Bool
  /-- The object as it is put away. -/
  finish : α → α

/-- A pool of objects. -/
structure Pool (α : Type) where
  /-- The name that messages use. -/
  name : String
  /-- How many idle objects are kept. -/
  maxIdle : Nat
  /-- How many objects may be out for `tryBorrow` to hand out another. -/
  limit : Option Nat
  /-- The idle objects, the one returned last first. -/
  idle : List α
  /-- How many objects are out. -/
  active : Nat
  /-- How many objects were made. -/
  created : Nat
  /-- The most objects that were ever out at once. -/
  peak : Nat
  deriving DecidableEq

/-- A bounded pool has as many objects out as it allows. -/
structure PoolExhausted where
  pool : String
  active : Nat
  limit : Nat
  deriving DecidableEq

/-- The wording of exhaustion. -/
def PoolExhausted.message (e : PoolExhausted) : String :=
  s!"pool '{e.pool}' exhausted: {e.active} objects active, limit {e.limit}"

namespace Pool

variable {α : Type}

/-- A pool that has made no object yet. -/
def new (name : String) (maxIdle : Nat) (limit : Option Nat) : Pool α :=
  ⟨name, maxIdle, limit, [], 0, 0, 0⟩

variable [Poolable α]

/-- Hands out an object; `make` makes the next new one, given how many were made before. -/
def borrow (p : Pool α) (make : Nat → α) : Except Fault (Pool α × α) :=
  let active := p.active + 1
  let p := { p with active := active, peak := max p.peak active }
  let (p, a) := match p.idle with
    | a :: rest => ({ p with idle := rest }, a)
    | [] => ({ p with created := p.created + 1 }, make p.created)
  if Poolable.isInitialized a then .error (.unfinishedObject p.name) else .ok (p, a)

/-- Hands out an object unless as many are out as the pool allows. -/
def tryBorrow (p : Pool α) (make : Nat → α) : Except Fault (Except PoolExhausted (Pool α × α)) :=
  match p.limit.filter fun limit => limit ≤ p.active with
  | some limit => .ok (.error ⟨p.name, p.active, limit⟩)
  | none => (p.borrow make).map .ok

/-- Takes an object back. -/
def release (p : Pool α) (a : α) : Except Fault (Pool α) :=
  let a := Poolable.finish a
  if Poolable.isInitialized a then .error (.unfinishable p.name)
  else
    .ok { p with
      active := p.active - 1
      idle := if p.idle.length < p.maxIdle then a :: p.idle else p.idle }

/-- Takes objects back, in order. -/
def releaseAll (p : Pool α) (as : List α) : Except Fault (Pool α) := as.foldlM release p

end Pool

/-- The counters of a pool. Where every object starts anew when it is taken into use, they are all
there is to know about a pool. -/
structure PoolStats where
  /-- How many idle objects are kept. -/
  maxIdle : Nat
  /-- How many objects are idle. -/
  idle : Nat
  /-- How many objects are out. -/
  active : Nat
  /-- How many objects were made. -/
  created : Nat
  /-- The most objects that were ever out at once. -/
  peak : Nat
  deriving DecidableEq

namespace PoolStats

/-- The counters of a pool that has made no object yet. -/
def new (maxIdle : Nat) : PoolStats := ⟨maxIdle, 0, 0, 0, 0⟩

/-- Counts an object handed out. -/
def borrow (s : PoolStats) : PoolStats :=
  { s with
    idle := s.idle - 1
    active := s.active + 1
    created := if s.idle = 0 then s.created + 1 else s.created
    peak := max s.peak (s.active + 1) }

/-- Counts an object taken back. -/
def release (s : PoolStats) : PoolStats :=
  { s with
    idle := if s.idle < s.maxIdle then s.idle + 1 else s.idle
    active := s.active - 1 }

/-- Counts objects handed out or taken back until a number of them is out. -/
def reach (s : PoolStats) (active : Nat) : PoolStats :=
  Nat.repeat release (s.active - active) (Nat.repeat borrow (active - s.active) s)

end PoolStats

namespace Pool

variable {α : Type} [Poolable α]

/-- The counters of a pool. -/
def stats (p : Pool α) : PoolStats := ⟨p.maxIdle, p.idle.length, p.active, p.created, p.peak⟩

/-- Handing out an object moves the counters as `PoolStats.borrow` says. -/
theorem stats_borrow {p q : Pool α} {make : Nat → α} {a : α} (h : p.borrow make = .ok (q, a)) :
    q.stats = p.stats.borrow := by
  unfold borrow at h
  cases hi : p.idle with
  | nil =>
    simp only [hi] at h
    split at h
    · cases h
    · cases h; simp [stats, PoolStats.borrow, hi]
  | cons b rest =>
    simp only [hi] at h
    split at h
    · cases h
    · cases h; simp [stats, PoolStats.borrow, hi]

/-- Taking an object back moves the counters as `PoolStats.release` says. -/
theorem stats_release {p q : Pool α} {a : α} (h : p.release a = .ok q) :
    q.stats = p.stats.release := by
  simp only [release] at h
  split at h
  · cases h
  · cases h
    by_cases hlt : p.idle.length < p.maxIdle <;> simp [stats, PoolStats.release, hlt]

end Pool

end TxnPath
