/-!
# Kinds of entries

`faultline` specification §4, module `serialize`.
-/

namespace Mishap

/-- Whether an exported error has a decorated one in its chain. Models `ErrorKindTag` of module
`serialize`. -/
inductive EntryKind where
  /-- There is none. -/
  | standard
  /-- There is one. -/
  | decorated
  deriving DecidableEq, Repr

namespace EntryKind

/-- Every kind, in declared order. -/
def all : List EntryKind := [standard, decorated]

/-- The written name. -/
def name : EntryKind → String
  | standard => "standard"
  | decorated => "decorated"

/-- The name in diagnostics. -/
def debugName : EntryKind → String
  | standard => "Standard"
  | decorated => "Decorated"

/-- The kind of a written name. -/
def ofName? (s : String) : Option EntryKind := all.find? (·.name == s)

end EntryKind

end Mishap
