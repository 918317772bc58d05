import Mishap.Proofs.Store.Settling
import Mishap.Store.Errors

/-!
# Actions

What a program can do with errors, groups and pools, one call at a time. What an action makes is
held by its caller. An action is allowed where all it is given is there: living errors, open pools,
and, to let go of an error, a hold on it.
-/

namespace Mishap

namespace Decorated

/-- An edit keeps the message, the cause and the stack. -/
theorem Edit.apply_frame (e : Edit) (d : Decorated) :
    (e.apply d).1.message = d.message ∧ (e.apply d).1.cause? = d.cause? ∧
      (e.apply d).1.trace = d.trace := by
  cases e with
  | increment now =>
    simp only [apply, perform]
    split <;> exact ⟨rfl, rfl, rfl⟩
  | _ => exact ⟨rfl, rfl, rfl⟩

end Decorated

namespace Body

/-- The group that an error is. -/
def group? : Body → Option Group
  | group g => some g
  | _ => none

/-- The pool of an error is that of the group that it is. -/
theorem pool?_eq (b : Body) : b.pool? = b.group?.bind (·.pool?) := by
  cases b <;> rfl

/-- A decorated error, edited; anything else is as it was. -/
def edited (e : Decorated.Edit) : Body → Body
  | decorated d => decorated (e.apply d).1
  | b => b

/-- A group with other members; anything else is as it was. -/
def withMembers (f : List Ref → List Ref) : Body → Body
  | group g => group { g with members := f g.members }
  | b => b

/-- An edit does not touch the pool of a group. -/
@[simp] theorem pool?_edited (e : Decorated.Edit) (b : Body) : (b.edited e).pool? = b.pool? := by
  cases b <;> rfl

/-- An edited error holds what it held. -/
@[simp] theorem holds_edited (e : Decorated.Edit) (b : Body) : (b.edited e).holds = b.holds := by
  cases b with
  | decorated d => exact congrArg Option.toList (e.apply_frame d).2.1
  | _ => rfl

/-- Other members leave a group with its pool. -/
@[simp] theorem pool?_withMembers (f : List Ref → List Ref) (b : Body) :
    (b.withMembers f).pool? = b.pool? := by
  cases b <;> rfl

end Body

namespace Store

/-- Puts envelopes around a new error, one around the other. -/
def envelop : Nat → Store × Ref → Store × Ref
  | 0, made => made
  | levels + 1, made => (envelop levels made).1.addEnvelope (envelop levels made).2

/-- Hands a new error to the caller, who holds it. -/
def handOver (made : Store × Ref) : Store := made.1.hold made.2

/-- What a program can do. An error can be made inside envelopes, that hold it by value. -/
inductive Action where
  | leaf (message : String) (levels : Nat)
  | decorate (message : String) (frames : List Frame) (levels : Nat)
  | wrap (cause : Ref) (message : String) (frames : List Frame) (levels : Nat)
  | system (message : String)
  | veil (inner : Ref)
  | link (message : String) (source : Ref)
  | join (parts : List Ref)
  | edit (r : Ref) (e : Decorated.Edit)
  | report (r : Ref)
  | addPool (settings : PoolSettings)
  | sharePool (p : Nat)
  | dropPool (p : Nat)
  | addGroup
  | takeGroup (p : Nat)
  | append (r : Ref) (member? : Option Ref)
  | clear (r : Ref)
  | release (r : Ref)
  | joinGroup (r : Ref)
  | hold (r : Ref)
  | letGo (r : Ref)

namespace Action

/-- The store after an action, and what the action lets others notice. -/
def apply : Action → Store → Store × List Effect
  | leaf message levels, s => (handOver (envelop levels (s.add (.leaf message))), [])
  | decorate message frames levels, s =>
    (handOver (envelop levels (s.decorate message frames)), [])
  | wrap cause message frames levels, s =>
    (handOver (envelop levels (s.wrap cause message frames)), [])
  | system message, s => (handOver (s.add (.system message)), [])
  | veil inner, s => (handOver (s.addVeiled inner), [])
  | link message source, s => (handOver (s.add (.linked message source)), [])
  | join parts, s => (handOver (s.add (.joined parts)), [])
  | edit r e, s => s.change r e.apply
  | report r, s => (s, s.report r)
  | addPool settings, s => ((s.addPool settings).1, [])
  | sharePool p, s => (s.sharePool p, [])
  | dropPool p, s => (s.dropPool p, [])
  | addGroup, s => (handOver s.addGroup, [])
  | takeGroup p, s => (handOver ((s.takeGroup p).1, (s.takeGroup p).2.1), (s.takeGroup p).2.2)
  | append r (some member), s => (s.append r member, [])
  | append _ none, s => (s, [])
  | clear r, s => (s.clear r, [])
  | release r, s => (s.release r, [])
  | joinGroup r, s => (((s.joinGroup r).map handOver).getD s, [])
  | hold r, s => (s.hold r, [])
  | letGo r, s => (s.letGo r, [])

/-- The errors that an action is given. -/
def refs : Action → List Ref
  | wrap cause _ _ _ => [cause]
  | veil inner => [inner]
  | link _ source => [source]
  | join parts => parts
  | append r member? => r :: member?.toList
  | edit r _ | report r | clear r | release r | joinGroup r | hold r | letGo r => [r]
  | _ => []

/-- The pools that an action is given. -/
def pools : Action → List Nat
  | sharePool p | dropPool p | takeGroup p => [p]
  | _ => []

/-- The errors that an action gives up a hold on. -/
def dropped : Action → List Ref
  | letGo r => [r]
  | _ => []

end Action

/-- There is a handle on a pool. -/
def isOpen (s : Store) (p : Nat) : Bool := (s.pool? p).any fun pool => 0 < pool.handles

/-- An action is given living errors and open pools, and lets go only of what is held. -/
def Allowed (s : Store) (a : Action) : Prop :=
  (∀ r ∈ a.refs, r ∈ s.living) ∧ (∀ p ∈ a.pools, s.isOpen p = true) ∧
    (∀ r ∈ a.dropped, r ∈ s.roots)

instance (s : Store) (a : Action) : Decidable (s.Allowed a) :=
  inferInstanceAs (Decidable (_ ∧ _ ∧ _))

end Store

end Mishap
