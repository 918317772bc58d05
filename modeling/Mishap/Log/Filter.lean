import Mishap.Effect
import Mishap.Log.Pattern
import Mishap.Log.Settings
import Mishap.Number.Decimal
import Mishap.Text.Blank
import Mishap.Text.Bytes

/-!
# Filters of events

A filter is a list of directives separated by commas. A bare level is the default; `target=level`
sets the level of the targets that begin with a name; a bare name lets through everything from
its targets. Brackets behind the name narrow a directive down to spans, `[name]`, or to what has a
field, `[{field}]`. Of the directives that apply to an event, the one with the longest name
decides, and of those with one name the one that asks for a field. A text that is no filter is
replaced by `info`. Directives for spans and for values of fields say nothing about events.
`faultline` specification §3.1.
-/

namespace Mishap

/-- How much is let through: nothing, or up to a level. -/
abbrev Threshold := Option Level

namespace Threshold

/-- A level is let through. -/
def allows (t : Threshold) (l : Level) : Bool :=
  match t with
  | some most => l.verbosity ≤ most.verbosity
  | none => false

/-- The thresholds by name. -/
def named : List (String × Threshold) :=
  [("off", none), ("error", some .error), ("warn", some .warn), ("info", some .info),
   ("debug", some .debug), ("trace", some .trace)]

/-- The threshold of a number from zero to five. -/
def ofNumber? (n : Nat) : Option Threshold := (named[n]?).map (·.2)

/-- A number with an optional plus sign. -/
def number? (s : List Char) : Option Nat :=
  let digits := match s with
    | '+' :: t => t
    | t => t
  if digits.isEmpty || !digits.all Text.isDigit then none else some (Text.decimalValue digits)

/-- The threshold of a number or of a name in letters of either case. -/
def read? (s : List Char) : Option Threshold :=
  match (number? s).bind ofNumber? with
  | some t => some t
  | none => named.lookup (String.ofList (s.map Char.toLower))

end Threshold

/-- A directive: the beginning of the targets and the field to which it applies, and what it lets
through. -/
structure Directive where
  target? : Option String
  field? : Option String
  threshold : Threshold
  deriving DecidableEq, Repr

/-- What was read of a directive. -/
inductive DirectiveReading where
  | directive (d : Directive)
  /-- A directive that no event on its own can meet. -/
  | span
  deriving DecidableEq, Repr

namespace Directive

/-- A character with which a directive may begin. -/
def mayStart (c : Char) : Bool :=
  c == '[' || c == '-' || c == ':' || c == '_' || Text.isAlphanumeric c

/-- The threshold behind an equals sign; nothing there lets everything through. -/
def thresholdAfter? (s : List Char) : Option Threshold :=
  if s.isEmpty then some (some .trace) else Threshold.read? s

/-- A field that a directive asks for: its name, or `none` if its value is asked for too. The value
is what stands between two equals signs. -/
def fieldAsked? (s : List Char) : Option (Option String) :=
  let name := s.takeWhile (· != '=')
  match s.drop name.length with
  | '=' :: rest =>
    let value := rest.takeWhile (· != '=')
    if (Double.ofText? value).isSome || Pattern.isPattern value then some none else none
  | _ => some (some (String.ofList name))

/-- The text of a directive, and the text without the blanks around it. The bare text says where the
parts are, but they are taken from the same bytes of the whole one, so that blanks in front shift
all parts. -/
structure Source where
  whole : List Char
  bare : List Char

namespace Source

/-- The text of a directive with its blanks set apart. -/
def ofText (s : List Char) : Source :=
  ⟨s, (Text.skipBlanks (Text.skipBlanks s).reverse).reverse⟩

/-- What stands from a place of the bare text on, taken from the same byte of the whole one. -/
def rest (s : Source) (start : Nat) : List Char :=
  Text.dropBytes (Text.byteSize (s.bare.take start)) s.whole

/-- What stands between two places, taken from the same bytes of the whole text. -/
def part (s : Source) (start stop : Nat) : List Char :=
  Text.takeBytes (Text.byteSize ((s.bare.take stop).drop start)) (s.rest start)

/-- The threshold from a place behind the brackets to the end: none is given, or one behind an
equals sign. -/
def thresholdAt? (s : Source) (place : Nat) : Option Threshold :=
  match s.bare.drop place with
  | [] => some (some .trace)
  | '=' :: _ => thresholdAfter? (s.rest (place + 1))
  | _ => none

/-- Reads the brackets that open at a place: the name of a span and, in braces, a field. -/
def bracketsAt? (s : Source) (target? : Option String) (place : Nat) : Option DirectiveReading := do
  let inner := s.bare.drop (place + 1)
  let name := inner.takeWhile fun c => c != ']' && c != '\x7b'
  let stop := place + 1 + name.length
  match s.bare.drop stop with
  | ']' :: _ =>
    let _ ← s.thresholdAt? (stop + 1)
    some .span
  | '\x7b' :: fields =>
    let length := (fields.takeWhile (· != '\x7d')).length
    match fields.drop length with
    | '\x7d' :: ']' :: _ =>
      if length = 0 then none
      else
        let asked? ← fieldAsked? (s.part (stop + 1) (stop + 1 + length))
        let threshold ← s.thresholdAt? (stop + length + 3)
        some (match name, asked? with
          | [], some field => .directive ⟨target?, some field, threshold⟩
          | _, _ => .span)
    | _ => none
  | _ => none

end Source

/-- Reads one directive. Blanks around a lone name belong to it. -/
def read? (text : List Char) : Option DirectiveReading :=
  let s := Source.ofText text
  match s.bare with
  | [] => none
  | c :: _ =>
    if !mayStart c then none
    else
      let stop := (s.bare.takeWhile fun c => c != '=' && c != '[').length
      let target := String.ofList (s.part 0 stop)
      match s.bare.drop stop with
      | '=' :: _ => (s.thresholdAt? stop).map fun t => .directive ⟨some target, none, t⟩
      | '[' :: _ => s.bracketsAt? (if stop = 0 then none else some target) stop
      | _ =>
        match Threshold.read? text with
        | some t => some (.directive ⟨none, none, t⟩)
        | none => some (.directive ⟨some (String.ofList text), none, some .trace⟩)

/-- The length of the name, zero for a default. -/
def size (d : Directive) : Nat := (d.target?.map fun t => t.utf8ByteSize + 1).getD 0

/-- The directive applies to the events of a target with these fields. -/
def appliesTo (target : String) (fields : List String) (d : Directive) : Bool :=
  (d.target?.all fun t => t.toList.isPrefixOf target.toList) && d.field?.all fields.elem

/-- Of two directives that apply to an event the second decides: its name is longer, or the names
are one and the second asks for a field, which comes later in the order of names if both do. -/
def yieldsTo (d e : Directive) : Bool :=
  d.size < e.size || (d.size == e.size &&
    match d.field?, e.field? with
    | none, _ => true
    | some _, none => false
    | some f, some g => f ≤ g)

end Directive

/-- A filter. -/
abbrev Filter := List Directive

namespace Filter

/-- The parts of a text between commas. -/
def splitCommas (s : List Char) : List (List Char) :=
  s.foldr (fun c parts =>
    if c = ',' then [] :: parts
    else match parts with
      | p :: ps => (c :: p) :: ps
      | [] => [[c]]) [[]]

/-- Reads a filter; empty parts are passed over. -/
def read? (text : String) : Option Filter := do
  let parts := (splitCommas text.toList).filter fun p => !p.isEmpty
  let readings ← parts.mapM Directive.read?
  some (readings.filterMap fun
    | .directive d => some d
    | .span => none)

/-- The filter that lets through `info` and what is graver. -/
def fallback : Filter := [⟨none, none, some .info⟩]

/-- The filter of the settings of a log. -/
def ofSettings (s : LogSettings) : Filter := (read? s.directives).getD fallback

/-- Of two directives that apply, the one that decides; of two equal ones the later. -/
def stronger (best? : Option Directive) (d : Directive) : Option Directive :=
  match best? with
  | none => some d
  | some best => if best.yieldsTo d then some d else some best

/-- The directive that decides about the events of a target with these fields. -/
def deciding? (f : Filter) (target : String) (fields : List String) : Option Directive :=
  (f.filter (Directive.appliesTo target fields)).foldl stronger none

/-- An event is let through. -/
def allows (f : Filter) (e : Event) : Bool :=
  (f.deciding? e.target e.fieldNames).any fun d => Threshold.allows d.threshold e.level

end Filter

end Mishap
