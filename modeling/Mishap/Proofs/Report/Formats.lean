import Mishap.Proofs.Report.ReadBack
import Mishap.Proofs.Schema.Nodes

/-!
# Exports in either format

Exports read back from YAML as they were written, whatever their texts look like, and are then what
reading back from JSON gives (`exports_readBack_yaml`).
-/

namespace Mishap

open Schema (Fits nesting)

/-- What fits a shape is read back from YAML, and from JSON alike. -/
theorem readBack_of_fits {α : Type} {shape : Schema.Shape} {n : String × Json}
    {ms : List (String × Json)} (hv : Fits shape (.object (n :: ms)))
    (h : nesting (.object (n :: ms)) ≤ 127) {x : α} {ofJson? : Json → Option α}
    (hx : ofJson? (.object (n :: ms)) = some x) (f : Format) :
    (f.read shape (f.write (.object (n :: ms)))).map ofJson? = .ok (some x) := by
  cases f with
  | json =>
    have hdeepest := (deepest_write hv).2
    exact (readsBack_of_fits hv hx).shallow (by omega)
  | yaml =>
    have hread := Schema.fromYaml?_write hv (Nat.le_succ_of_le h)
    rw [Format.read, Format.write, hread]
    exact congrArg Except.ok hx

/-- The YAML text of the export of a group or of a single error is read back as the export, just as
its JSON text is, if no more than 127 lists and objects stand inside one another. -/
theorem exports_readBack_yaml :
    (∀ g : GroupReport, g.Valid → nesting g.toJson ≤ 127 →
      GroupReport.read .yaml (g.write .yaml) = .ok (some g) ∧
        GroupReport.read .yaml (g.write .yaml) = GroupReport.read .json (g.write .json)) ∧
    (∀ r : Report, r.Valid → nesting r.toJson ≤ 127 →
      Report.read .yaml (r.write .yaml) = .ok (some r) ∧
        Report.read .yaml (r.write .yaml) = Report.read .json (r.write .json)) := by
  refine ⟨fun g hg hdepth => ?_, fun r hr hdepth => ?_⟩
  · have hback : ∀ f, GroupReport.read f (g.write f) = .ok (some g) :=
      readBack_of_fits hg.fits hdepth g.ofJson?_toJson
    exact ⟨hback .yaml, (hback .yaml).trans (hback .json).symm⟩
  · have hback : ∀ f, Report.read f (r.write f) = .ok (some r) := by
      obtain ⟨n, ms, hform⟩ : ∃ n ms, r.toJson = .object (n :: ms) :=
        ⟨_, _, r.toJson_eq⟩
      have hfits := hr.fits
      have hx : Report.ofJson? r.toJson = some r := Report.ofJsonFrom?_toJson (Nat.lt_succ_self _)
      intro f
      rw [Report.read, Report.write, hform]
      rw [hform] at hdepth hfits hx
      exact readBack_of_fits hfits hdepth hx f
    exact ⟨hback .yaml, (hback .yaml).trans (hback .json).symm⟩

/-- Texts that would mean something else, or lose characters, if they were written as they are. -/
def awkwardTexts : List String :=
  ["", "\ttab", "\n\n  lines \n", " leading", "# comment", "- item", "-7", "...", "0x1F", "1.5e3",
    "? key", "a: b", "first\nsecond\n\n", "null", "trailing ", "true", "~"]

/-- Data whose names and values are awkward texts. -/
def awkwardData : Dictionary Json := awkwardTexts.map fun s => (s, .string s)

/-- The export of two errors of which nearly all texts are awkward. -/
def awkwardGroup : GroupReport :=
  { count := 2, timestamp := "2024-01-01",
    entries := [⟨"first\nsecond\n\n", .decorated, [⟨"- item", "a: b", 7, 0x1000⟩], awkwardData,
      some ⟨" leading", .standard, [], [], none⟩⟩, ⟨"~", .standard, [], [], none⟩] }

/-- The export of an error with an awkward cause and an awkward hint. -/
def awkwardReport : Report :=
  { Report.plain "null" with
    stack := "0: main\n   at a.rs\n", cause? := some (Report.plain "\n\n  lines \n"),
    context := awkwardData, metadata := [("lists", .array [.array [.null, .int (-3)], .object []])],
    recovery? := some ⟨"- item", awkwardTexts, "~"⟩ }

private theorem awkwardData_regular : Json.RegularMembers awkwardData := by
  refine ⟨by decide +kernel, fun m hm => ?_⟩
  obtain ⟨s, -, rfl⟩ := List.mem_map.mp hm
  exact .string s

private theorem awkwardGroup_valid : awkwardGroup.Valid := by
  have hplain : ∀ message, Entry.Valid ⟨message, .standard, [], [], none⟩ :=
    fun _ => .mk nofun ⟨.nil, nofun⟩ nofun
  refine ⟨by decide, fun e he => ?_⟩
  rcases List.mem_cons.mp he with rfl | he
  · refine .mk (fun f hf => ?_) awkwardData_regular fun c hc => ?_
    · rw [List.mem_singleton.mp hf]
      exact ⟨by decide, by decide⟩
    · cases hc
      exact hplain _
  · rw [List.mem_singleton.mp he]
    exact hplain _

private theorem awkwardReport_valid : awkwardReport.Valid := by
  have hlists : Json.Regular (.array [.array [.null, .int (-3)], .object []]) := by
    refine .array fun x hx => ?_
    rcases List.mem_cons.mp hx with rfl | hx
    · refine .array fun y hy => ?_
      rcases List.mem_cons.mp hy with rfl | hy
      · exact .null
      · rw [List.mem_singleton.mp hy]
        exact .int ⟨by decide, by decide⟩
    · rw [List.mem_singleton.mp hx]
      exact .object .nil nofun
  refine .mk (fun c hc => ?_) awkwardData_regular ⟨List.pairwise_singleton _ _, fun m hm => ?_⟩
  · cases hc
    exact .mk nofun ⟨.nil, nofun⟩ ⟨.nil, nofun⟩
  · rw [List.mem_singleton.mp hm]
    exact hlists

/-- Awkward texts in every place, and the last depth for both formats. -/
theorem readBack_awkwardExports :
    GroupReport.read .yaml (awkwardGroup.write .yaml) = .ok (some awkwardGroup) ∧
      Report.read .yaml (awkwardReport.write .yaml) = .ok (some awkwardReport) ∧
      Report.read .yaml ((nestedExport 125).write .yaml) =
        Report.read .json ((nestedExport 125).write .json) :=
  ⟨(exports_readBack_yaml.1 awkwardGroup awkwardGroup_valid (by decide)).1,
    (exports_readBack_yaml.2 awkwardReport awkwardReport_valid (by decide)).1,
    (exports_readBack_yaml.2 (nestedExport 125) (nestedExport_valid 125)
      (Nat.le_of_eq (nesting_nestedExport 125))).2⟩

end Mishap
