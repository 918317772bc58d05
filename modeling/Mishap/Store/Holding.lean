import Mishap.Store.Basic

/-!
# What keeps errors alive

An error lives as long as something holds it: a holder outside the store, or a living error that
refers to it. Errors that hold each other in a circle stay. When the last holder of a pooled group
is gone, its buffer goes back to its pool.
`faultline` specification §4, module `group`.
-/

namespace Mishap.Store

/-- An error is held by a root, or by an error among the candidates. -/
def heldAmong (s : Store) (candidates : List Ref) (r : Ref) : Bool :=
  s.roots.elem r || candidates.any fun q => (s.body? q).any fun b => b.holds.elem r

/-- Takes out what nothing among the candidates holds, again and again. Each round but the last
takes one out, so their number is fuel enough. -/
def settleFrom (s : Store) : Nat → List Ref → List Ref
  | 0, candidates => candidates
  | fuel + 1, candidates =>
    let kept := candidates.filter (s.heldAmong candidates)
    if kept.length = candidates.length then candidates else settleFrom s fuel kept

/-- The living errors. -/
def living (s : Store) : List Ref := s.settleFrom s.cells.length (List.range s.cells.length)

/-- Gives the buffer of a group back to a pool, if that is still there. -/
def giveBack (p : Nat) (s : Store) : Store := s.modifyPool p Pool.accept

/-- Parts a group from its pool and its members, and gives its buffer back. Models `release` of
module `group` for a group that is pooled. -/
def retire (r : Ref) (s : Store) : Store :=
  match s.group? r with
  | some g =>
    match g.pool? with
    | some p => (s.setGroup r ⟨[], none⟩).giveBack p
    | none => s
  | none => s

/-- Retires the pooled groups that nothing holds any more. Models `drop` of module `group`. -/
def settle (s : Store) : Store :=
  let living := s.living
  (List.range s.cells.length).foldl (fun t r => if living.elem r then t else t.retire r) s

/-- Takes a hold on an error from outside. -/
def hold (r : Ref) (s : Store) : Store := { s with roots := r :: s.roots }

/-- Gives up one hold on an error. -/
def letGo (r : Ref) (s : Store) : Store := { s with roots := s.roots.erase r }.settle

end Mishap.Store
