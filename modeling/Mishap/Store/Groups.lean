import Mishap.Store.Holding

/-!
# Groups and pools

A group collects errors in order. A group from a pool works in one of the pool's buffers and gives
it back when it is released or when nothing holds it any more, once; after that it is a group of
its own. A pool keeps at most `maxIdle` buffers, all of them empty.
`faultline` specification §4, module `group`.
-/

namespace Mishap.Store

/-- Makes a pool with one handle on it. Models `with_config` of module `group`. -/
def addPool (settings : PoolSettings) (s : Store) : Store × Nat :=
  ({ s with pools := s.pools ++ [⟨settings, [], 1⟩] }, s.pools.length)

/-- Takes another handle on a pool. -/
def sharePool (p : Nat) (s : Store) : Store := s.modifyPool p Pool.shared

/-- Gives up a handle on a pool; with the last one its buffers are gone. -/
def dropPool (p : Nat) (s : Store) : Store := s.modifyPool p Pool.unshared

/-- Makes a group of its own. -/
def addGroup (s : Store) : Store × Ref := s.add (.group ⟨[], none⟩)

/-- The event for a buffer that came back with errors in it. -/
def staleBuffer (count : Nat) : Event :=
  { level := .error, target := "faultline_core::group",
    message := "error group pool returned a non-empty buffer; using a standalone group",
    fields := [("stale", .number count)] }

/-- Makes a group from a pool, in a buffer that waits for reuse or in a new one. Models `get` of
module `group`. -/
def takeGroup (p : Nat) (s : Store) : Store × Ref × List Effect :=
  match (s.pool? p).map (·.free) with
  | some (buffer :: _) =>
    let s := s.modifyPool p Pool.lend
    if buffer.isEmpty then
      let (s, r) := s.add (.group ⟨buffer, some p⟩)
      (s, r, [])
    else
      let (s, r) := s.addGroup
      (s, r, [.event (staleBuffer buffer.length)])
  | _ =>
    let (s, r) := s.add (.group ⟨[], some p⟩)
    (s, r, [])

/-- Adds an error to a group. Models `add` of module `group`. -/
def append (r : Ref) (member : Ref) (s : Store) : Store :=
  match s.group? r with
  | some g => s.setGroup r { g with members := g.members ++ [member] }
  | none => s

/-- Empties a group; it keeps its buffer. Models `clear` of module `group`. -/
def clear (r : Ref) (s : Store) : Store :=
  match s.group? r with
  | some g => (s.setGroup r { g with members := [] }).settle
  | none => s

/-- Releases a group. One that belongs to a pool is emptied and gives its buffer back; any other
stays as it is. Models `release` of module `group`. -/
def release (r : Ref) (s : Store) : Store := (s.retire r).settle

/-- The members of a group. Models `errors` of module `group`. -/
def members (s : Store) (r : Ref) : List Ref := ((s.group? r).map (·.members)).getD []

/-- The number of members of a group. Models `len` of module `group`. -/
def size (s : Store) (r : Ref) : Nat := (s.members r).length

/-- A group has members. Models `has_errors` of module `group`. -/
def hasMembers (s : Store) (r : Ref) : Bool := !(s.members r).isEmpty

/-- A group has no members. -/
def hasNoMembers (s : Store) (r : Ref) : Bool := !s.hasMembers r

/-- A group as an error, if it has members. Models `error_or_none` of module `group`. -/
def asError? (s : Store) (r : Ref) : Option Ref := if s.hasMembers r then some r else none

/-- A group still belongs to a pool. Models `is_pooled` of module `group`. -/
def isPooled (s : Store) (r : Ref) : Bool := (s.group? r).any fun g => g.pool?.isSome

/-- Combines the members of a group into one error, if there are any. Models `join` of module
`group`. -/
def joinGroup (r : Ref) (s : Store) : Option (Store × Ref) :=
  match s.members r with
  | [] => none
  | ms => some (s.add (.joined ms))

end Mishap.Store
