import Mishap.Effect
import Mishap.Time.Rfc3339

/-!
# Lines of the log

An event is written as a line of text or as a JSON value, with the time in microseconds.
`faultline` specification §3.1.
-/

namespace Mishap

namespace Event

/-- The time of a line, in microseconds. -/
def stamp (now : Time.Instant) : String :=
  let c := now.civil
  String.ofList (Time.Rfc3339.dateChars c.date ++ 'T' :: Time.Rfc3339.clockChars c ++
    '.' :: Text.zeroPadded 6 (c.nanos % 1000000000 / 1000) ++ ['Z'])

/-- A character of a message as text shows it: what could steer a terminal is spelled out. -/
def safeChar (c : Char) : List Char :=
  if ['\x1b', '\x07', '\x08', '\x0c', '\x7f'].elem c then
    ['\\', 'x'] ++ Text.padLeft '0' 2 (Text.hex c.toNat)
  else if 0x80 ≤ c.toNat ∧ c.toNat ≤ 0x9F then
    ['\\', 'u', '\x7b'] ++ Text.hex c.toNat ++ ['\x7d']
  else [c]

/-- The text of a field's value. -/
def valueText : EventValue → String
  | .text s => s
  | .number n => String.ofList (Text.decimal n)

/-- The value of a field as JSON. -/
def valueJson : EventValue → Json
  | .text s => .string s
  | .number n => .nat n

/-- The line as text, with the level in five columns. -/
def textLine (now : Time.Instant) (e : Event) : String :=
  stamp now ++ " " ++ String.ofList (Text.padLeft ' ' 5 e.level.name.toList) ++ " " ++ e.target ++
    ": " ++ String.ofList (e.message.toList.flatMap safeChar) ++
    String.join (e.fields.map fun f => " " ++ f.1 ++ "=" ++ valueText f.2)

/-- The line as JSON. -/
def jsonLine (now : Time.Instant) (e : Event) : Json :=
  .object [("timestamp", .string (stamp now)), ("level", .string e.level.name),
    ("fields", .object (("message", .string e.message) ::
      e.fields.map fun f => (f.1, valueJson f.2))),
    ("target", .string e.target)]

end Event

end Mishap
