import Mishap.Effect
import Mishap.Metadata
import Mishap.Stack

/-!
# The store of errors

Errors are shared: one error can be the cause of several others, a part of joined errors and a
member of groups at once, and what is added to it later is seen by all of them. So errors live in
a store, in the order in which they were made, and refer to one another by their places in it.

An error refers only to errors that were there before it, except that a group can be given members
at any time. `body?_add` and `body?_setBody` say what making and changing an error do to what is at
each place.
`faultline` specification §4, modules `error` and `group`.
-/

namespace Mishap

/-- The place of an error in its store. -/
abbrev Ref := Nat

/-- An error with a message, an optional cause, a captured stack and metadata. Models
`DecoratedError` of module `error`. -/
structure Decorated where
  message : String
  cause? : Option Ref
  trace : Trace
  metadata : Dictionary Metadata
  logger? : Option Logger
  observer : Observer

/-- A collection of errors in the order in which they were added. Models `ErrorGroup` of module
`group`. -/
structure Group where
  members : List Ref
  /-- The pool that the group still has to give its buffer back to. -/
  pool? : Option Nat
  deriving DecidableEq, Repr

/-- The kinds of error. -/
inductive Body where
  /-- A plain error. -/
  | leaf (message : String)
  /-- An error of the system. -/
  | system (message : String)
  /-- A system error that shows an error but hides it: its source is the source of what it hides. -/
  | veiled (inner : Ref) (source? : Option Ref)
  /-- A message of its own over a source. -/
  | linked (message : String) (source : Ref)
  | decorated (d : Decorated)
  /-- A wrapper that holds an error by value, at its own address. -/
  | envelope (inner : Ref)
  /-- Several errors combined into one. -/
  | joined (parts : List Ref)
  | group (g : Group)

namespace Body

/-- The error that this one reports as its source. -/
def source? : Body → Option Ref
  | veiled _ source? => source?
  | linked _ source => some source
  | decorated d => d.cause?
  | envelope inner => some inner
  | leaf _ | system _ | joined _ | group _ => none

/-- The errors that this one keeps alive. -/
def holds : Body → List Ref
  | veiled inner _ => [inner]
  | linked _ source => [source]
  | decorated d => d.cause?.toList
  | envelope inner => [inner]
  | joined parts => parts
  | group g => g.members
  | leaf _ | system _ => []

/-- How much room an error takes by itself. -/
def width : Body → Nat
  | leaf _ => 24
  | system _ => 8
  | veiled _ _ => 8
  | linked _ _ => 40
  | decorated _ => 128
  | envelope _ => 0
  | joined _ => 24
  | group _ => 48

end Body

/-- An error in its store: its address is the number of its memory block, and a wrapper that holds
an error by value shares the block and the width of what it holds. -/
structure Cell where
  body : Body
  block : Nat
  width : Nat

/-- The limits of a pool of groups. Models `ErrorGroupPoolConfig` of module `group`. -/
structure PoolSettings where
  initialCapacity : Nat
  maxIdle : Nat
  deriving DecidableEq, Repr

namespace PoolSettings

/-- Room for four errors, and at most sixty-four idle buffers. -/
instance : Inhabited PoolSettings := ⟨⟨4, 64⟩⟩

/-- The settings for a capacity; one below zero counts as not given. Models `new` of module
`group`. -/
def ofCapacity (capacity : Int) : PoolSettings :=
  if capacity < 0 then default
  else { (default : PoolSettings) with initialCapacity := capacity.toNat }

/-- The exported form. -/
def toJson (s : PoolSettings) : Json :=
  .object [("initial_capacity", .nat s.initialCapacity), ("max_idle", .nat s.maxIdle)]

/-- Reads the exported form back. -/
def ofJson? (v : Json) : Option PoolSettings :=
  match v with
  | .object [("initial_capacity", .number (.int c)), ("max_idle", .number (.int m))] =>
    some ⟨c.toNat, m.toNat⟩
  | _ => none

end PoolSettings

/-- A pool of buffers for groups. Models `ErrorGroupPool` of module `group`. -/
structure Pool where
  settings : PoolSettings
  /-- The buffers that wait for reuse. -/
  free : List (List Ref)
  /-- How many handles there are on the pool; it is gone when there are none. -/
  handles : Nat
  deriving DecidableEq, Repr

namespace Pool

/-- The number of buffers that wait for reuse. -/
def idle (p : Pool) : Nat := p.free.length

/-- Takes a buffer back, emptied, if there is room for it. Models `put` of module `group`. -/
def put (p : Pool) : Pool :=
  if p.idle < p.settings.maxIdle then { p with free := [] :: p.free } else p

/-- A buffer comes back: a pool that is still there takes it. -/
def accept (p : Pool) : Pool := if 0 < p.handles then p.put else p

/-- One buffer less waits, if any does. -/
def lend (p : Pool) : Pool := { p with free := p.free.tail }

/-- One handle more. -/
def shared (p : Pool) : Pool := { p with handles := p.handles + 1 }

/-- One handle less; with the last one the buffers are gone. -/
def unshared (p : Pool) : Pool :=
  if p.handles ≤ 1 then { p with handles := 0, free := [] } else { p with handles := p.handles - 1 }

end Pool

/-- Errors, pools, and the errors that are held from outside, once for each holder. -/
structure Store where
  cells : List Cell
  pools : List Pool
  roots : List Ref

namespace Store

/-- No errors and no pools. -/
def empty : Store := ⟨[], [], []⟩

/-- The error at a place. -/
def cell? (s : Store) (r : Ref) : Option Cell := s.cells[r]?

/-- What is at a place. -/
def body? (s : Store) (r : Ref) : Option Body := (s.cell? r).map (·.body)

/-- The decorated error at a place. -/
def decorated? (s : Store) (r : Ref) : Option Decorated :=
  match s.body? r with
  | some (.decorated d) => some d
  | _ => none

/-- The group at a place. -/
def group? (s : Store) (r : Ref) : Option Group :=
  match s.body? r with
  | some (.group g) => some g
  | _ => none

/-- The parts of the joined error at a place. -/
def parts? (s : Store) (r : Ref) : Option (List Ref) :=
  match s.body? r with
  | some (.joined parts) => some parts
  | _ => none

/-- The source of the error at a place. -/
def source? (s : Store) (r : Ref) : Option Ref := (s.body? r).bind Body.source?

/-- The pool of a number. -/
def pool? (s : Store) (p : Nat) : Option Pool := s.pools[p]?

/-- Changes what is at a place. -/
def setBody (r : Ref) (b : Body) (s : Store) : Store :=
  { s with cells := s.cells.modify r fun c => { c with body := b } }

/-- Changes the decorated error at a place. -/
def setDecorated (r : Ref) (d : Decorated) (s : Store) : Store := s.setBody r (.decorated d)

/-- Changes the group at a place. -/
def setGroup (r : Ref) (g : Group) (s : Store) : Store := s.setBody r (.group g)

/-- Changes the pool of a number. -/
def modifyPool (p : Nat) (f : Pool → Pool) (s : Store) : Store :=
  { s with pools := s.pools.modify p f }

/-- The next place. -/
def next (s : Store) : Ref := s.cells.length

/-- Adds an error in a block of its own. -/
def add (b : Body) (s : Store) : Store × Ref :=
  ({ s with cells := s.cells ++ [⟨b, s.next, b.width⟩] }, s.next)

/-- Adds a wrapper in the block of what it holds by value. -/
def addEnvelope (inner : Ref) (s : Store) : Store × Ref :=
  match s.cell? inner with
  | some c => ({ s with cells := s.cells ++ [⟨.envelope inner, c.block, c.width⟩] }, s.next)
  | none => s.add (.envelope inner)

/-- Adds an error that hides another. -/
def addVeiled (inner : Ref) (s : Store) : Store × Ref := s.add (.veiled inner (s.source? inner))

/-- There is nothing at the next place or beyond. -/
theorem body?_eq_none_of_le {s : Store} {r : Ref} (h : s.next ≤ r) : s.body? r = none := by
  rw [body?, cell?, List.getElem?_eq_none h]
  rfl

/-- Where an error stands is a place of the store. -/
theorem lt_next_of_body? {s : Store} {r : Ref} {b : Body} (h : s.body? r = some b) :
    r < s.next := by
  refine Nat.lt_of_not_le fun hge => ?_
  rw [body?_eq_none_of_le hge] at h
  exact absurd h nofun

/-- The next place holds the added error; every other place is as before. -/
theorem body?_add (b : Body) (s : Store) (q : Ref) :
    (s.add b).1.body? q = if q = s.next then some b else s.body? q := by
  have hcell : (s.add b).1.cell? q =
      if q < s.cells.length then s.cells[q]? else [⟨b, s.next, b.width⟩][q - s.cells.length]? :=
    List.getElem?_append
  split
  · next h =>
    subst h
    have hlast : ¬ s.next < s.cells.length := Nat.lt_irrefl _
    rw [body?, hcell, if_neg hlast, next, Nat.sub_self]
    rfl
  · next h =>
    rw [body?, hcell]
    split
    · rfl
    · next hlt =>
      have hgt : s.cells.length < q := Nat.lt_of_le_of_ne (Nat.le_of_not_lt hlt) (Ne.symm h)
      rw [List.getElem?_eq_none (Nat.sub_pos_of_lt hgt), body?, cell?,
        List.getElem?_eq_none (Nat.le_of_lt hgt)]

/-- A change is seen at its own place alone, and only where an error is. -/
theorem body?_setBody (r : Ref) (b : Body) (s : Store) (q : Ref) :
    (s.setBody r b).body? q = if r = q then (s.body? q).map fun _ => b else s.body? q := by
  simp only [setBody, body?, cell?, List.getElem?_modify]
  by_cases h : r = q
  · simp only [h, if_true, Option.map_eq_map, Option.map_map, Function.comp_def]
  · simp only [h, if_false, Option.map_eq_map, Option.map_id']

end Store

end Mishap
