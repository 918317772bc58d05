import Mishap.Stack

/-!
# Calls on a walk over frames

In every run of calls a walk stands between the frames that it has returned since it was last
rewound and those that remain, and the two together are the frames it was made of
(`returned_append_remaining`). What each call answers follows from what remains, and only `next`
and `rewind` move the walk (`walked_of_calls`).
-/

namespace Mishap.FrameCursor

/-- What can be asked of a walk. -/
inductive Call where
  | next
  | hasNext
  | rewind
  | remaining
  | all
  | collect
  deriving DecidableEq, Repr

/-- Calls, the newest first. -/
abbrev History := List Call

/-- The walk after a call. What a copy collects leaves the walk itself where it is. -/
def Call.apply : Call → FrameCursor → FrameCursor
  | next, c => c.next.2
  | rewind, c => c.rewind
  | hasNext, c | remaining, c | all, c | collect, c => c

/-- The walk over some frames after a run of calls. -/
def after (frames : List Frame) : History → FrameCursor
  | [] => ofFrames frames
  | k :: h => k.apply (after frames h)

/-- The frames that a run has returned since the walk began or was last rewound. -/
def returned (frames : List Frame) : History → List Frame
  | [] => []
  | .rewind :: _ => []
  | .next :: h => returned frames h ++ (after frames h).next.1.toList
  | .hasNext :: h | .remaining :: h | .all :: h | .collect :: h => returned frames h

/-! ### One call -/

/-- The next frame is the first that remains. -/
theorem next_fst (c : FrameCursor) : c.next.1 = c.remaining.head? := by
  rw [remaining, List.head?_drop, next]
  split
  · next f h => rw [h]
  · next h => rw [h]

/-- Behind it the others remain. -/
theorem remaining_next (c : FrameCursor) : c.next.2.remaining = c.remaining.tail := by
  rw [next]
  split
  · rw [remaining, remaining, List.tail_drop]
  · next h =>
    have hempty : c.remaining = [] := List.drop_eq_nil_iff.mpr (List.getElem?_eq_none_iff.mp h)
    rw [hempty, List.tail_nil]

/-- Where nothing remains there is no next frame, and the walk stays as it is. -/
theorem next_of_remaining_eq_nil {c : FrameCursor} (h : c.remaining = []) : c.next = (none, c) := by
  have hnone : c.frames[c.index]? = none :=
    List.getElem?_eq_none_iff.mpr (List.drop_eq_nil_iff.mp h)
  rw [next, hnone]

/-- A walk keeps to the frames that it was made of. -/
@[simp] theorem frames_next (c : FrameCursor) : c.next.2.frames = c.frames := by
  unfold next
  split <;> rfl

/-- The walk moves on by as many frames as it returns. -/
theorem index_next (c : FrameCursor) : c.next.2.index = c.index + c.next.1.toList.length := by
  unfold next
  split <;> rfl

private theorem hasNext_iff (c : FrameCursor) : c.hasNext = true ↔ c.remaining ≠ [] := by
  rw [hasNext, decide_eq_true_iff, remaining, Ne, List.drop_eq_nil_iff, Nat.not_le]

private theorem collect_go (fuel : Nat) (c : FrameCursor) :
    collect.go fuel c = c.remaining.take fuel := by
  induction fuel generalizing c with
  | zero => rfl
  | succ fuel ih =>
    cases hremaining : c.remaining with
    | nil =>
      rw [collect.go, next_of_remaining_eq_nil hremaining]
      rfl
    | cons f fs =>
      have hnext : c.next = (some f, c.next.2) := Prod.ext (by rw [next_fst, hremaining]; rfl) rfl
      have hrest : c.next.2.remaining = fs := by rw [remaining_next, hremaining, List.tail_cons]
      rw [collect.go, hnext, List.take_succ_cons, ← hrest]
      exact congrArg (f :: ·) (ih c.next.2)

/-- A walk collects exactly what remains of it. -/
theorem collect_eq (c : FrameCursor) : c.collect = c.remaining := by
  rw [collect, collect_go, List.take_of_length_le]
  rw [remaining, List.length_drop]
  exact Nat.sub_le _ _

/-! ### Runs -/

private theorem all_after (frames : List Frame) (h : History) : (after frames h).all = frames := by
  induction h with
  | nil => rfl
  | cons k h ih =>
    cases k with
    | next => exact (frames_next _).trans ih
    | rewind => exact ih
    | hasNext | remaining | all | collect => exact ih

/-- What was returned and what remains are together all frames. -/
theorem returned_append_remaining (frames : List Frame) (h : History) :
    returned frames h ++ (after frames h).remaining = frames := by
  induction h with
  | nil => rfl
  | cons k h ih =>
    cases k with
    | next =>
      rw [returned, after, Call.apply, remaining_next, next_fst, List.append_assoc]
      cases hremaining : (after frames h).remaining with
      | nil => rw [hremaining] at ih; exact ih
      | cons f fs => rw [hremaining] at ih; exact ih
    | rewind => exact all_after frames h
    | hasNext | remaining | all | collect => exact ih

/-- The walk stands behind the frames that were returned. -/
theorem index_after (frames : List Frame) (h : History) :
    (after frames h).index = (returned frames h).length := by
  induction h with
  | nil => rfl
  | cons k h ih =>
    cases k with
    | next => rw [returned, after, Call.apply, index_next, ih, List.length_append]
    | rewind => rfl
    | hasNext | remaining | all | collect => exact ih

/-- Rewound, a walk is as new. -/
theorem after_rewind (frames : List Frame) (h : History) :
    after frames (.rewind :: h) = ofFrames frames :=
  congrArg ofFrames (all_after frames h)

/-- From there on it returns the frames one after the other, from the first. -/
theorem returned_rewind (frames : List Frame) (h : History) (n : Nat) :
    returned frames (List.replicate n .next ++ .rewind :: h) = frames.take n := by
  induction n with
  | zero => rfl
  | succ n ih =>
    rw [List.replicate_succ, List.cons_append, returned, ih, List.take_add_one]
    congr 2
    have hindex := index_after frames (List.replicate n .next ++ .rewind :: h)
    have hall := all_after frames (List.replicate n .next ++ .rewind :: h)
    rw [ih, List.length_take] at hindex
    rw [next_fst, remaining, List.head?_drop, hindex]
    change (after frames _).all[_]? = _
    rw [hall]
    by_cases hn : n ≤ frames.length
    · rw [Nat.min_eq_left hn]
    · rw [List.getElem?_eq_none (by omega), List.getElem?_eq_none (by omega)]

/-- What a walk over frames keeps to after a run of calls. -/
structure Walked (frames : List Frame) (h : History) : Prop where
  /-- All frames are always those that the walk was made of. -/
  all : (after frames h).all = frames
  /-- They are those that were returned since the last rewinding, and behind them those that
  remain. -/
  split : returned frames h ++ (after frames h).remaining = (after frames h).all
  /-- The walk never stands behind the last frame. -/
  index_le : (after frames h).index ≤ (after frames h).frames.length
  /-- There is a next frame if and only if some remain, and it is the first of them. -/
  hasNext_iff : (after frames h).hasNext = true ↔ (after frames h).remaining ≠ []
  isSome_next_iff : (after frames h).next.1.isSome = true ↔ (after frames h).remaining ≠ []
  next : (after frames h).next.1 = (after frames h).remaining.head?
  /-- A copy collects what remains. -/
  collect : (after frames h).collect = (after frames h).remaining
  /-- Only two of the calls move the walk. -/
  unmoved : ∀ k, k ≠ .next → k ≠ .rewind → after frames (k :: h) = after frames h
  /-- At its end a walk returns nothing any more, however often it is asked, and stays as it is. -/
  finished : (after frames h).remaining = [] → ∀ n,
    after frames (List.replicate n .next ++ h) = after frames h ∧
      (after frames (List.replicate n .next ++ h)).next.1 = none
  /-- Rewound, it is as new, and returns the same frames again from the first. -/
  rewound : after frames (.rewind :: h) = ofFrames frames ∧
    ∀ n, returned frames (List.replicate n .next ++ .rewind :: h) = frames.take n

/-- Whatever was asked of a walk, it stands between the frames that it has returned and those that
remain. -/
theorem walked_of_calls (frames : List Frame) (h : History) : Walked frames h := by
  have hall := all_after frames h
  have hsplit := returned_append_remaining frames h
  constructor
  case all => exact hall
  case split => rw [hsplit, hall]
  case index_le =>
    have hlength : frames.length = _ := (congrArg List.length hsplit).symm
    change _ ≤ (after frames h).all.length
    rw [hall, hlength, index_after, List.length_append]
    exact Nat.le_add_right _ _
  case hasNext_iff => exact (after frames h).hasNext_iff
  case isSome_next_iff => rw [next_fst, List.isSome_head?]
  case next => exact next_fst _
  case collect => exact collect_eq _
  case unmoved =>
    intro k hnext hrewind
    cases k with
    | next => exact absurd rfl hnext
    | rewind => exact absurd rfl hrewind
    | hasNext | remaining | all | collect => rfl
  case finished =>
    intro hend n
    have hstays := next_of_remaining_eq_nil hend
    have hafter : after frames (List.replicate n .next ++ h) = after frames h := by
      induction n with
      | zero => rfl
      | succ n ih => rw [List.replicate_succ, List.cons_append, after, ih, Call.apply, hstays]
    rw [hafter, hstays]
    exact ⟨rfl, rfl⟩
  case rewound => exact ⟨after_rewind frames h, returned_rewind frames h⟩

end Mishap.FrameCursor
