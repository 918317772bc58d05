import Mishap.Proofs.Report.ReadBack
import Mishap.Proofs.Schema.Layout

/-!
# Exports in other layouts

An export is read from its text however that is laid out (`layouts_readBack`): with the members of
its records in any order, among members that the records do not know, without members that hold
their default, and with any white space between the tokens. A text in which a record has a known
member twice is refused.
-/

namespace Mishap

open Json (Tree)
open Schema (Relayout Relaid Repeats Fits)

/-- How the layouts of the form of an export are read as a shape. -/
structure ReadsLayouts {α : Type} (shape : Schema.Shape) (form : Json)
    (read : String → Except ReadError (Option α)) (x : α) : Prop where
  /-- The tokens of the written text are those of the form. -/
  written : form.tree.Spelled (Format.json.write form)
  /-- Each text of each layout is read as what was exported. -/
  laidOut : ∀ T text, Relaid shape form.tree T → T.Spelled text → read text = .ok (some x)
  /-- Each text that repeats a known member of a record is refused. -/
  repeated : ∀ T text, Repeats shape T → T.Spelled text → ∃ e, read text = .error e

/-- A text is read from JSON as what its tree is read as. -/
theorem read_of_spelled (shape : Schema.Shape) {T : Tree} {text : String} (h : T.Spelled text) :
    match Schema.FromTree.read? Json.maxDepth shape T with
    | some v => Format.json.read shape text = .ok v
    | none => ∃ f, Format.json.read shape text = .error (.json f text) := by
  have hread := Schema.fromText_of_spelled shape h
  cases hv : Schema.FromTree.read? Json.maxDepth shape T with
  | some v =>
    simp only [hv] at hread
    simp only [Format.read, hread]
  | none =>
    simp only [hv] at hread
    obtain ⟨f, hf⟩ := hread
    simp only [Format.read, hf]
    exact ⟨f, rfl⟩

/-- What is read back from its own text is read from each layout of it. -/
theorem readsLayouts_of_readBack {α : Type} {shape : Schema.Shape} {form : Json}
    {ofJson? : Json → Option α} {x : α}
    (h : (Format.json.read shape (Format.json.write form)).map ofJson? = .ok (some x)) :
    ReadsLayouts shape form (fun text => (Format.json.read shape text).map ofJson?) x := by
  have hwritten : form.tree.Spelled (Format.json.write form) := Tree.spelled_pretty form
  refine ⟨hwritten, fun T text hT htext => ?_, fun T text hT htext => ?_⟩
  · have hown := read_of_spelled shape hwritten
    have hnew := read_of_spelled shape htext
    cases hv : Schema.FromTree.read? Json.maxDepth shape form.tree with
    | none =>
      simp only [hv] at hown
      obtain ⟨f, hf⟩ := hown
      rw [hf] at h
      exact absurd h nofun
    | some v =>
      simp only [hv] at hown
      simp only [Schema.read?_of_relaid hT hv] at hnew
      rw [hown] at h
      simp only [hnew]
      exact h
  · have hread := read_of_spelled shape htext
    simp only [Schema.read?_of_repeats hT] at hread
    obtain ⟨f, hf⟩ := hread
    simp only [hf]
    exact ⟨_, rfl⟩

/-- The export of a group or of a single error that is read back from its own text is read from
each layout of that text, and no text that repeats a known member is read. -/
theorem layouts_readBack :
    (∀ g : GroupReport, GroupReport.read .json (g.write .json) = .ok (some g) →
      ReadsLayouts (.record .groupReport) g.toJson (GroupReport.read .json) g) ∧
    (∀ r : Report, Report.read .json (r.write .json) = .ok (some r) →
      ReadsLayouts (.record .report) r.toJson (Report.read .json) r) :=
  ⟨fun _ hg => readsLayouts_of_readBack hg, fun _ hr => readsLayouts_of_readBack hr⟩

/-- The export of an error with advice on recovery, of which only the message is given. -/
def advisedExport : Report :=
  { Report.plain "boom" with recovery? := some ⟨"retry", [], ""⟩ }

/-- The advised export with its members in reverse, without defaults, and with a member put in. -/
def movedReport : Json :=
  .object [("recovery", .object [("hint", .array [.array [.null]]), ("message", .string "retry")]),
    ("stack", .string ""), ("severity", .string Report.defaultSeverity),
    ("type", .string Report.defaultType), ("timestamp", .string ""), ("message", .string "boom")]

/-- The advised export with a second stack. -/
def doubledReport : Json :=
  .object [("message", .string "boom"), ("timestamp", .string ""),
    ("type", .string Report.defaultType), ("severity", .string Report.defaultSeverity),
    ("stack", .string ""), ("stack", .string ""),
    ("recovery", .object [("message", .string "retry"), ("actions", .array []),
      ("documentation", .string "")])]

private theorem relaid_movedReport :
    Relaid (.record .report) advisedExport.toJson.tree movedReport.tree := by
  have hrecovery : Schema.Record.report.fields[8]? =
      some (.elided "recovery" (.optional (.record .recovery)) .null) := rfl
  have hactions : Schema.Record.recovery.fields[1]? =
      some (.defaulted "actions" (.list .text) (.array [])) := rfl
  have hdocumentation : Schema.Record.recovery.fields[2]? =
      some (.defaulted "documentation" .text (.string "")) := rfl
  have hinner : ∀ {T T' : Tree} {ms : List (List Char × Tree)},
      Relayout (.record .recovery) T T' →
        Relayout (.record .report) (.object (("recovery".toList.flatMap Json.escapeChar, T) :: ms))
          (.object (("recovery".toList.flatMap Json.escapeChar, T') :: ms)) :=
    fun h => .member (List.mem_of_getElem? hrecovery) (Tree.string?_escaped "recovery")
      (.optional h)
  exact .head (.permuted (List.reverse_perm _).symm) <|
    .head (hinner (.permuted (.swap _ _ _))) <|
    .head (hinner (.left (List.mem_of_getElem? hactions) (Tree.string?_escaped "actions") rfl)) <|
    .head (hinner (.permuted (.swap _ _ _))) <|
    .head (hinner (.left (List.mem_of_getElem? hdocumentation)
      (Tree.string?_escaped "documentation") rfl)) <|
    .head (hinner (.inserted (Tree.string?_escaped "hint") rfl)) .refl

/-- The small export with its members in reverse, and with a member put into the cause. -/
def movedGroup : Json :=
  .object [("errors", .array [.object [("cause", .object [("note", .object [("errors", .null)]),
      ("message", .string "cause"), ("type", .string "standard")]),
      ("metadata", .object [("limit", .nat 0xFFFFFFFFFFFFFFFF),
        ("list", .array [.null, .int (-3), .object []])]),
      ("stack_trace", .array [(⟨"run", "src/main.rs", 7, 0x1000⟩ : Frame).toJson]),
      ("type", .string "decorated"), ("message", .string "say \"no\"\n")]]),
    ("timestamp", .string "2024-01-01T00:00:00Z"), ("error_count", .nat 1)]

private theorem relaid_movedGroup :
    Relaid (.record .groupReport) smallExport.toJson.tree movedGroup.tree := by
  have herrors : Schema.Record.groupReport.fields[2]? =
      some (.required "errors" (.list (.record .entry))) := rfl
  have hcause : Schema.Record.entry.fields[4]? =
      some (.elided "cause" (.optional (.record .entry)) .null) := rfl
  have hentry : ∀ {T T' : Tree} {ms : List (List Char × Tree)},
      Relayout (.record .entry) T T' →
        Relayout (.record .groupReport)
          (.object (("errors".toList.flatMap Json.escapeChar, .array [T]) :: ms))
          (.object (("errors".toList.flatMap Json.escapeChar, .array [T']) :: ms)) := by
    intro T T' ms h
    have hitem : Relayout (.list (.record .entry)) (.array ([] ++ T :: []))
        (.array ([] ++ T' :: [])) := .item h
    exact .member (List.mem_of_getElem? herrors) (Tree.string?_escaped "errors") hitem
  exact .head (.permuted (List.reverse_perm _).symm) <|
    .head (hentry (.permuted (List.reverse_perm _).symm)) <|
    .head (hentry (.member (List.mem_of_getElem? hcause) (Tree.string?_escaped "cause")
      (.optional (.inserted (Tree.string?_escaped "note") rfl)))) .refl

private theorem repeats_doubledReport : Repeats (.record .report) doubledReport.tree := by
  have hstack : Schema.Record.report.fields[4]? = some (.required "stack" .text) := rfl
  have hname : ∀ T : Tree, Tree.string?
      (("stack".toList.flatMap Json.escapeChar, T) : List Char × Tree).1 = some "stack" :=
    fun _ => Tree.string?_escaped "stack"
  refine .here (List.mem_of_getElem? hstack) (hname (.string [])) (hname (.string [])) ?_
  exact .cons _ (.cons _ (.cons _ (.cons _ (.cons_cons _ (.cons_cons _ (List.nil_sublist _))))))

/-- Both exports are read from texts with other white space, in another order, among unknown
members and without defaults; a second stack is refused. -/
theorem readBack_movedExports :
    GroupReport.read .json ("\n" ++ movedGroup.pretty ++ " ") = .ok (some smallExport) ∧
      Report.read .json ("\n" ++ movedReport.pretty ++ " ") = .ok (some advisedExport) ∧
      ∃ e, Report.read .json doubledReport.pretty = .error e := by
  have hadvised : advisedExport.Valid := .mk nofun ⟨.nil, nofun⟩ ⟨.nil, nofun⟩
  have hgroup : GroupReport.read .json (smallExport.write .json) = .ok (some smallExport) := by
    refine (readsBack_of_fits smallExport_valid.fits smallExport.ofJson?_toJson).shallow ?_
    rw [(deepest_write smallExport_valid.fits).2]
    decide
  have hback : ∀ r : Report, r.Valid →
      ReadsBack (r.write .json) (Report.read .json (r.write .json)) r :=
    fun _ hr => readsBack_of_fits hr.fits (Report.ofJsonFrom?_toJson (Nat.lt_succ_self _))
  have hreport : Report.read .json (advisedExport.write .json) = .ok (some advisedExport) := by
    refine (hback advisedExport hadvised).shallow ?_
    rw [Report.write, (deepest_write hadvised.fits).2]
    decide
  have hspaced : ∀ v : Json, v.tree.Spelled ("\n" ++ v.pretty ++ " ") := by
    intro v
    refine ⟨['\n'], v.prettyChars 0, [' '], Json.Reader.blank_newline 0,
      Tree.spells_prettyChars 0 v, Json.Reader.blank_space, ?_⟩
    simp [Json.pretty]
  obtain ⟨-, hmoved, -⟩ := layouts_readBack.1 smallExport hgroup
  obtain ⟨-, hmoved', hdoubled⟩ := layouts_readBack.2 advisedExport hreport
  exact ⟨hmoved _ _ relaid_movedGroup (hspaced movedGroup),
    hmoved' _ _ relaid_movedReport (hspaced movedReport),
    hdoubled _ _ repeats_doubledReport (Tree.spelled_pretty doubledReport)⟩

end Mishap
