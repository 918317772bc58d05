import Mishap.Json.Basic
import Mishap.Text.Digits

/-!
# Captured stacks

A `Frame` is a resolved place in a program, a `Trace` the frames that were captured at one moment,
and a `FrameCursor` a walk over frames that can be rewound. What a cursor has returned since the
last rewind and what it has still to return are together the frames it was made of.
`faultline` specification §4, module `stack`.
-/

namespace Mishap

/-- A place in a program. Models `StackFrame` of module `stack`. -/
structure Frame where
  function : String
  file : String
  line : Nat
  address : Nat
  deriving DecidableEq, Repr

namespace Frame

/-- The file and line before the function, or the function alone where the file is unknown. Models
the display of `StackFrame` of module `stack`. -/
def display (f : Frame) : String :=
  if f.file = "" then f.function
  else f.file ++ ":" ++ String.ofList (Text.decimal f.line) ++ " - " ++ f.function

/-- The exported form. -/
def toJson (f : Frame) : Json :=
  .object [("function", .string f.function), ("file", .string f.file), ("line", .nat f.line),
    ("pc", .nat f.address)]

/-- Reads the exported form back. -/
def ofJson? (v : Json) : Option Frame :=
  match v with
  | .object [("function", .string function), ("file", .string file),
      ("line", .number (.int line)), ("pc", .number (.int address))] =>
    some ⟨function, file, line.toNat, address.toNat⟩
  | _ => none

/-- One line for each frame. Models `render_frames` of module `stack`. -/
def render (frames : List Frame) : String :=
  String.join (frames.map fun f => f.display ++ "\n")

end Frame

/-- The frames captured at one moment. Traces with one number are one capture. Models `StackTrace`
of module `stack`. -/
structure Trace where
  capture : Nat
  frames : List Frame
  deriving DecidableEq, Repr

namespace Trace

/-- The two share one capture. Models `ptr_eq` of module `stack`. -/
def sameCapture (s t : Trace) : Bool := s.capture == t.capture

/-- The frames as text. -/
def render (t : Trace) : String := Frame.render t.frames

end Trace

/-- A walk over frames. Models `StackIterator` of module `stack`. -/
structure FrameCursor where
  frames : List Frame
  /-- The number of frames that have been returned since the last rewind. -/
  index : Nat
  deriving DecidableEq, Repr

namespace FrameCursor

/-- A walk that has not begun. -/
def ofFrames (frames : List Frame) : FrameCursor := ⟨frames, 0⟩

/-- The frames that have not been returned yet. Models `remaining` of module `stack`. -/
def remaining (c : FrameCursor) : List Frame := c.frames.drop c.index

/-- Some frame has not been returned yet. Models `has_next` of module `stack`. -/
def hasNext (c : FrameCursor) : Bool := c.index < c.frames.length

/-- The next frame and the walk behind it; a finished walk stays where it is. Models `next` of
module `stack`. -/
def next (c : FrameCursor) : Option Frame × FrameCursor :=
  match c.frames[c.index]? with
  | some f => (some f, { c with index := c.index + 1 })
  | none => (none, c)

/-- Back to the first frame. Models `reset` of module `stack`. -/
def rewind (c : FrameCursor) : FrameCursor := { c with index := 0 }

/-- Every frame, wherever the walk stands. Models `all_frames` of module `stack`. -/
def all (c : FrameCursor) : List Frame := c.frames

/-- What the walk still returns, collected by walking to the end. -/
def collect (c : FrameCursor) : List Frame := go c.frames.length c
where
  /-- Collects at most a number of frames. -/
  go : Nat → FrameCursor → List Frame
    | 0, _ => []
    | fuel + 1, c =>
      match c.next with
      | (some f, c) => f :: go fuel c
      | (none, _) => []

end FrameCursor

end Mishap
