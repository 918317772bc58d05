import Mishap.Store.Basic

/-!
# The text of an error

A decorated error shows its message and the text of its cause; a joined error the texts of its
parts, one a line; a group of several its members with their numbers. The text of an error includes
texts of others, so it exists only if no group has come to contain itself (`Store.text?`).
`faultline` specification §4, modules `error` and `group`.
-/

namespace Mishap.Store

/-- The text of a group whose members have these texts. Models the display of `ErrorGroup` in
module `group`. -/
def groupText : List String → String
  | [] => ""
  | [only] => only
  | texts =>
    String.ofList (Text.decimal texts.length) ++ " errors occurred:\n" ++
      String.join (texts.zipIdx.map fun (t, i) =>
        String.ofList (Text.decimal (i + 1)) ++ ": " ++ t ++ "\n")

/-- The texts of all of a list, if each exists. -/
def texts? (one : Ref → Option String) : List Ref → Option (List String)
  | [] => some []
  | r :: rs => do
    let t ← one r
    let ts ← texts? one rs
    some (t :: ts)

/-- The text of an error that includes others to a depth. Models the display of the errors of
modules `error` and `group`. -/
def textFrom (s : Store) : Nat → Ref → Option String
  | 0, _ => none
  | fuel + 1, r =>
    match s.body? r with
    | none => none
    | some (.leaf m) => some m
    | some (.system m) => some m
    | some (.linked m _) => some m
    | some (.veiled inner _) => textFrom s fuel inner
    | some (.envelope inner) => (textFrom s fuel inner).map ("newtype: " ++ ·)
    | some (.decorated d) =>
      match d.cause? with
      | none => some d.message
      | some c => (textFrom s fuel c).map fun t => d.message ++ ": " ++ t
    | some (.joined parts) => (texts? (textFrom s fuel) parts).map (String.intercalate "\n")
    | some (.group g) => (texts? (textFrom s fuel) g.members).map groupText

/-- The text of an error. A text that includes others more deeply than there are errors would
include itself. -/
def text? (s : Store) (r : Ref) : Option String := s.textFrom s.cells.length r

/-- The text of an error; one that would never end is shown as empty. -/
def text (s : Store) (r : Ref) : String := (s.text? r).getD ""

end Mishap.Store
