import Mishap.Store.Basic

/-!
# Chains of errors

From an error one comes to its source, and from a joined error to each of its parts. A target is in
the chain of an error if one comes to the very same error; an error that passes a test, such as to
be of a kind, is found where one first comes to it, parts from left to right. Members of a group
that was not joined are not in its chain.

An error refers to older ones only, so that one more than its own place bounds every walk.
`faultline` specification §4, module `chain`.
-/

namespace Mishap

/-- Kinds of error that can be looked for. -/
inductive Kind where
  | decorated
  | leaf
  | system
  | linked
  /-- A wrapper that directly holds a decorated error. -/
  | envelope
  | joined
  | group
  deriving DecidableEq, Repr

namespace Store

/-- The memory block of an error. -/
def block? (s : Store) (r : Ref) : Option Nat := (s.cell? r).map (·.block)

/-- The width of an error. -/
def width? (s : Store) (r : Ref) : Option Nat := (s.cell? r).map (·.width)

/-- How many successive sources of an error live in a block. -/
def nestedFrom (s : Store) (block? : Option Nat) : Nat → Ref → Nat
  | 0, _ => 0
  | fuel + 1, r =>
    match s.source? r with
    | none => 0
    | some q => if s.block? q = block? then nestedFrom s block? fuel q + 1 else 0

/-- How many successive sources of an error live in its own block. Models `nested_at_address` of
module `chain`. -/
def nested (s : Store) (r : Ref) : Nat := s.nestedFrom (s.block? r) (r + 1) r

/-- Two places hold the same error value: they share a block and a width, and as many of their
sources are nested in the block. Models `same` of module `chain`. -/
def same (s : Store) (a b : Ref) : Bool :=
  s.block? a == s.block? b && s.width? a == s.width? b && s.nested a == s.nested b

/-- Looks for the target in a chain. Models the walk of `is` of module `chain`. -/
def isFrom (s : Store) (target : Ref) : Nat → Ref → Bool
  | 0, _ => false
  | fuel + 1, r =>
    s.same r target ||
      match s.parts? r with
      | some parts => parts.any (isFrom s target fuel)
      | none =>
        match s.source? r with
        | some q => isFrom s target fuel q
        | none => false

/-- The target is in the chain of an error. Models `is` of module `chain`. -/
def is (s : Store) (r target : Ref) : Bool := s.isFrom target (r + 1) r

/-- The answer of a decorated error that is asked for a target; no other error has this call. Models
`is` of module `error`. -/
def decoratedIs? (s : Store) (r target : Ref) : Option Bool :=
  (s.decorated? r).map fun _ => s.is r target

/-- The answer of a joined error that is asked for a target; no other error has this call. Models
`is` of module `group`. -/
def joinedIs? (s : Store) (r target : Ref) : Option Bool :=
  (s.parts? r).map fun _ => s.is r target

/-- The error at a place is of a kind. -/
def isOf (s : Store) (k : Kind) (r : Ref) : Bool :=
  match s.body? r, k with
  | some (.decorated _), .decorated => true
  | some (.leaf _), .leaf => true
  | some (.system _), .system | some (.veiled _ _), .system => true
  | some (.linked _ _), .linked => true
  | some (.envelope inner), .envelope => (s.decorated? inner).isSome
  | some (.joined _), .joined => true
  | some (.group _), .group => true
  | _, _ => false

/-- Looks in a chain for an error that passes a test. Models the walk of `find` of module
`chain`. -/
def searchFrom (s : Store) (test : Ref → Bool) : Nat → Ref → Option Ref
  | 0, _ => none
  | fuel + 1, r =>
    if test r then some r
    else
      match s.parts? r with
      | some parts => parts.findSome? (searchFrom s test fuel)
      | none =>
        match s.source? r with
        | some q => searchFrom s test fuel q
        | none => none

/-- The first error in the chain of an error that passes a test. Models `find` of module `chain`,
with a test in place of a type. -/
def search? (s : Store) (test : Ref → Bool) (r : Ref) : Option Ref := s.searchFrom test (r + 1) r

/-- The first error of a kind in the chain of an error. -/
def find? (s : Store) (k : Kind) (r : Ref) : Option Ref := s.search? (s.isOf k) r

/-- Follows the source a number of times. -/
def sourceAt? (s : Store) : Nat → Ref → Option Ref
  | 0, r => some r
  | n + 1, r => (s.source? r).bind (sourceAt? s n)

/-- An error and its sources, at most a number of them. -/
def chainFrom (s : Store) : Nat → Ref → List Ref
  | 0, _ => []
  | fuel + 1, r =>
    match s.source? r with
    | some q => r :: chainFrom s fuel q
    | none => [r]

/-- An error and its sources. -/
def chain (s : Store) (r : Ref) : List Ref := s.chainFrom (r + 1) r

end Store

end Mishap
