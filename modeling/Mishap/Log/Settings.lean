import Mishap.Json.Basic

/-!
# Settings of the log

A default level, levels for components, and the form of the lines. `LogSettings.directives` is the
text of the filter that these settings ask for.
`faultline` specification §3.3.
-/

namespace Mishap

/-- What is logged, and how. Models `LogConfig` of module `observability`. -/
structure LogSettings where
  level : String
  components : Dictionary String
  /-- Lines are JSON values rather than text. -/
  json : Bool
  deriving DecidableEq, Repr

namespace LogSettings

/-- Everything from `info` on, as text. -/
instance : Inhabited LogSettings := ⟨⟨"info", [], false⟩⟩

/-- Component names are written with underscores where they have dashes. Models the names in
`directives` of module `observability`. -/
def normalName (component : String) : String :=
  String.ofList (component.toList.map fun c => if c = '-' then '_' else c)

/-- The directive of a component. -/
def directive (component level : String) : String := normalName component ++ "=" ++ level

/-- The text of the filter: the default level, then a directive for each component. Models
`directives` of module `observability`. -/
def directives (s : LogSettings) : String :=
  s.level ++ String.join (s.components.map fun c => "," ++ directive c.1 c.2)

/-- What setting up the log a second time is told. -/
def alreadySetUp : String := "a global default trace dispatcher has already been set"

/-- Reads the exported form. -/
def ofJson? (v : Json) : Option LogSettings :=
  match v with
  | .object [("level", .string level), ("components", .object components),
      ("json", .bool json)] => do
    let components ← components.mapM fun c => do some (c.1, ← c.2.asString?)
    some { level, components, json }
  | _ => none

end LogSettings

end Mishap
