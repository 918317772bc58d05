import Mishap.Number.Shortest
import Mishap.Text.Quoted

/-!
# Mismatches

The ways in which a well-formed value can fail to be a value of the wanted kind, with their wording.
-/

namespace Mishap.Schema

/-- What was found in place of a value of the wanted kind. -/
inductive Found where
  | flag (b : Bool)
  | integer (i : Int)
  | floating (x : Double)
  | text (s : String)
  | null
  | sequence
  | mapping
  deriving DecidableEq, Repr

/-- A thing that was found, in words. -/
def Found.describe : Found → String
  | flag b => "boolean `" ++ (if b then "true" else "false") ++ "`"
  | integer i => "integer `" ++ String.ofList (Text.integer i) ++ "`"
  | floating x => "floating point `" ++ FloatStyle.json.write x ++ "`"
  | text s => "string " ++ Text.quoted s
  | null => "null"
  | sequence => "sequence"
  | mapping => "map"

/-- Why a value is not of the wanted kind. -/
inductive Mismatch where
  | wrongKind (found : Found) (wanted : String)
  | wrongValue (found : Found) (wanted : String)
  | wrongLength (length : Nat) (wanted : String)
  | missingField (name : String)
  | repeatedField (name : String)
  | unknownChoice (name : String) (choices : List String)
  | badTime (message : String)
  deriving DecidableEq, Repr

/-- A name between backquotes. -/
def ticked (name : String) : String := "`" ++ name ++ "`"

/-- The choices that were open: two are joined by "or", more are listed. -/
def describeChoices : List String → String
  | [] => "there are no variants"
  | [a] => "expected " ++ ticked a
  | [a, b] => "expected " ++ ticked a ++ " or " ++ ticked b
  | names => "expected one of " ++ String.intercalate ", " (names.map ticked)

/-- A mismatch in words. -/
def Mismatch.message : Mismatch → String
  | wrongKind found wanted => "invalid type: " ++ found.describe ++ ", expected " ++ wanted
  | wrongValue found wanted => "invalid value: " ++ found.describe ++ ", expected " ++ wanted
  | wrongLength n wanted =>
    "invalid length " ++ String.ofList (Text.decimal n) ++ ", expected " ++ wanted
  | missingField name => "missing field " ++ ticked name
  | repeatedField name => "duplicate field " ++ ticked name
  | unknownChoice name choices =>
    "unknown variant " ++ ticked name ++ ", " ++ describeChoices choices
  | badTime message => message

end Mishap.Schema
