import Mishap.Proofs.Schema.Reading
import Mishap.Report.Reading

/-!
# Exports read back

The exported forms of groups and of single errors fit their shapes (`GroupReport.Valid.fits`,
`Report.Valid.fits`), and what was exported is told from its form (`GroupReport.ofJson?_toJson`,
`Report.ofJson?_toJson`). So the text of an export reads back as the export, as far as the reader
may open enough brackets (`exports_readBack`).
-/

namespace Mishap

open Schema (Fits Shows ShowsAll shown nesting nestingMembers nestingItems)

/-! ### What can be exported -/

/-- Free data by name: no name stands twice, and numbers are integers of the 64-bit ranges. -/
structure Json.RegularMembers (ms : Dictionary Json) : Prop where
  order : Dictionary.Ascending ms
  values : ∀ m ∈ ms, m.2.Regular

/-- The line and the address are in the ranges of their types. -/
structure Frame.Valid (f : Frame) : Prop where
  line : f.line < 0x100000000
  address : f.address < 0x10000000000000000

/-- The parts of an entry and of its causes are in the ranges of their types. -/
inductive Entry.Valid : Entry → Prop
  | mk {message : String} {kind : EntryKind} {frames : List Frame} {metadata : Dictionary Json}
    {cause? : Option Entry} (hframes : ∀ f ∈ frames, f.Valid)
    (hmetadata : Json.RegularMembers metadata) (hcause : ∀ c ∈ cause?, Entry.Valid c) :
    Entry.Valid ⟨message, kind, frames, metadata, cause?⟩

/-- The count and the entries are in the ranges of their types. -/
structure GroupReport.Valid (g : GroupReport) : Prop where
  count : g.count < 0x10000000000000000
  entries : ∀ e ∈ g.entries, e.Valid

/-- The parts of a report and of its causes are in the ranges of their types. -/
inductive Report.Valid : Report → Prop
  | mk {message timestamp errorType severity stack : String} {cause? : Option Report}
    {context metadata : Dictionary Json} {recovery? : Option Recovery}
    (hcause : ∀ c ∈ cause?, Report.Valid c) (hcontext : Json.RegularMembers context)
    (hmetadata : Json.RegularMembers metadata) :
    Report.Valid
      ⟨message, timestamp, errorType, severity, stack, cause?, context, metadata, recovery?⟩

/-! ### Exported forms fit their shapes -/

/-- A list of records is shown unless it is empty. -/
theorem shows_list {α : Type} {toJson : α → Json} {shape : Schema.Shape} {xs : List α}
    (h : ∀ x ∈ xs, Fits shape (toJson x)) (name : String) :
    Shows (.elided name (.list shape) (.array []))
      (if xs.isEmpty then none else some (.array (xs.map toJson))) := by
  cases xs with
  | nil => exact .left rfl rfl
  | cons x xs =>
    refine .given (.list fun y hy => ?_) rfl
    obtain ⟨z, hz, rfl⟩ := List.mem_map.mp hy
    exact h z hz

/-- A dictionary is shown unless it is empty. -/
theorem shows_dictionary {ms : Dictionary Json} (h : Json.RegularMembers ms) (name : String) :
    Shows (.elided name (.dictionary .anything) (.object []))
      (if ms.isEmpty then none else some (.object ms)) := by
  cases ms with
  | nil => exact .left rfl rfl
  | cons m ms => exact .given (.dictionary h.order fun x hx => .anything (h.values x hx)) rfl

/-- A record that may be missing is shown unless it is. -/
theorem shows_optional {α : Type} {toJson : α → Json} {r : Schema.Record} {x? : Option α}
    (h : ∀ x ∈ x?, Fits (.record r) (toJson x)) (name : String) :
    Shows (.elided name (.optional (.record r)) .null) (x?.map toJson) := by
  cases x? with
  | none => exact .left rfl rfl
  | some x =>
    have hfits := h x rfl
    rw [Option.map_some]
    generalize toJson x = v at hfits
    cases hfits with
    | record distinct known members assembled =>
      exact .given (.present (.record distinct known members assembled) nofun) rfl

/-- A frame with numbers of their width fits its shape. -/
theorem Frame.Valid.fits {f : Frame} (h : f.Valid) : Fits (.record .frame) f.toJson := by
  have hshows : ShowsAll Schema.Record.frame.fields
      [some (.string f.function), some (.string f.file), some (.nat f.line),
        some (.nat f.address)] :=
    .cons (.given (.text _) rfl) <| .cons (.given (.text _) rfl) <|
      .cons (.given (.natural h.line) rfl) <| .cons (.given (.natural h.address) rfl) .nil
  exact .of_shown hshows

/-- Every suggestion of a recovery fits its shape. -/
theorem Recovery.fits (r : Recovery) : Fits (.record .recovery) r.toJson := by
  have hactions : Fits (.list .text) (.array (r.actions.map .string)) := by
    refine .list fun x hx => ?_
    obtain ⟨s, -, rfl⟩ := List.mem_map.mp hx
    exact .text s
  have hshows : ShowsAll Schema.Record.recovery.fields
      [some (.string r.message), some (.array (r.actions.map .string)),
        some (.string r.documentation)] :=
    .cons (.given (.text _) rfl) <| .cons (.given hactions rfl) <|
      .cons (.given (.text _) rfl) .nil
  exact .of_shown hshows

/-- The values of the fields of an entry, as far as they are shown. -/
def Entry.values (e : Entry) : List (Option Json) :=
  [some (.string e.message), some (.string e.kind.name),
    if e.frames.isEmpty then none else some (.array (e.frames.map Frame.toJson)),
    if e.metadata.isEmpty then none else some (.object e.metadata), e.cause?.map Entry.toJson]

/-- The exported form of an entry is the record of its values, without those that are skipped. -/
theorem Entry.toJson_eq (e : Entry) :
    e.toJson = .object (shown Schema.Record.entry.fields e.values) := by
  obtain ⟨message, kind, frames, metadata, cause?⟩ := e
  cases frames <;> cases metadata <;> cases cause? <;> rfl

/-- An entry with numbers of their width fits its shape. -/
theorem Entry.Valid.fits {e : Entry} (h : e.Valid) : Fits (.record .entry) e.toJson := by
  induction h with
  | @mk message kind frames metadata cause? hframes hmetadata _ ih =>
    have hkind : kind.name ∈ Schema.Choice.entryKind.names := by
      cases kind <;> decide
    have hshows : ShowsAll Schema.Record.entry.fields
        (Entry.values ⟨message, kind, frames, metadata, cause?⟩) :=
      .cons (.given (.text _) rfl) <| .cons (.given (.choice hkind) rfl) <|
        .cons (shows_list (fun f hf => (hframes f hf).fits) _) <|
          .cons (shows_dictionary hmetadata _) <| .cons (shows_optional ih _) .nil
    rw [Entry.toJson_eq]
    exact .of_shown hshows

/-- The export of a group with numbers of their width fits its shape. -/
theorem GroupReport.Valid.fits {g : GroupReport} (h : g.Valid) :
    Fits (.record .groupReport) g.toJson := by
  have hentries : Fits (.list (.record .entry)) (.array (g.entries.map Entry.toJson)) := by
    refine .list fun x hx => ?_
    obtain ⟨e, he, rfl⟩ := List.mem_map.mp hx
    exact (h.entries e he).fits
  have hshows : ShowsAll Schema.Record.groupReport.fields
      [some (.nat g.count), some (.string g.timestamp),
        some (.array (g.entries.map Entry.toJson))] :=
    .cons (.given (.natural h.count) rfl) <| .cons (.given (.text _) rfl) <|
      .cons (.given hentries rfl) .nil
  exact .of_shown hshows

/-- The values of the fields of a report, as far as they are shown. -/
def Report.values (r : Report) : List (Option Json) :=
  [some (.string r.message), some (.string r.timestamp), some (.string r.errorType),
    some (.string r.severity), some (.string r.stack), r.cause?.map Report.toJson,
    if r.context.isEmpty then none else some (.object r.context),
    if r.metadata.isEmpty then none else some (.object r.metadata),
    r.recovery?.map Recovery.toJson]

/-- The exported form of a report is the record of its values, without those that are skipped. -/
theorem Report.toJson_eq (r : Report) :
    r.toJson = .object (shown Schema.Record.report.fields r.values) := by
  obtain ⟨message, timestamp, errorType, severity, stack, cause?, context, metadata, recovery?⟩ := r
  cases cause? <;> cases context <;> cases metadata <;> cases recovery? <;> rfl

/-- A report with numbers of their width fits its shape. -/
theorem Report.Valid.fits {r : Report} (h : r.Valid) : Fits (.record .report) r.toJson := by
  induction h with
  | @mk message timestamp errorType severity stack cause? context metadata recovery? _ hcontext
      hmetadata ih =>
    have hshows : ShowsAll Schema.Record.report.fields (Report.values
        ⟨message, timestamp, errorType, severity, stack, cause?, context, metadata, recovery?⟩) :=
      .cons (.given (.text _) rfl) <| .cons (.given (.text _) rfl) <|
        .cons (.given (.text _) rfl) <| .cons (.given (.text _) rfl) <|
          .cons (.given (.text _) rfl) <| .cons (shows_optional ih _) <|
            .cons (shows_dictionary hcontext _) <| .cons (shows_dictionary hmetadata _) <|
              .cons (shows_optional (fun r _ => Recovery.fits r) _) .nil
    rw [Report.toJson_eq]
    exact .of_shown hshows

/-! ### Exports told from their forms -/

/-- Items that are told from their forms one by one are told from the list of their forms. -/
theorem mapM_map_eq_some {α β : Type} {f : α → β} {g : β → Option α} {xs : List α}
    (h : ∀ x ∈ xs, g (f x) = some x) : (xs.map f).mapM g = some xs := by
  induction xs with
  | nil => rfl
  | cons x xs ih =>
    rw [List.map_cons, List.mapM_cons, h x List.mem_cons_self,
      ih fun y hy => h y (List.mem_cons_of_mem x hy)]
    rfl

/-- A frame is read back from its exported form. -/
theorem Frame.ofJson?_toJson (f : Frame) : Frame.ofJson? f.toJson = some f := rfl

/-- A suggestion of a recovery is read back from its exported form. -/
theorem Recovery.ofJson?_toJson (r : Recovery) : Recovery.ofJson? r.toJson = some r := by
  have hactions : (r.actions.map Json.string).mapM Json.asString? = some r.actions :=
    mapM_map_eq_some fun _ _ => rfl
  rw [Recovery.toJson, Recovery.ofJson?]
  simp [hactions]

/-- A member is less deep than its object. -/
theorem nesting_lt_of_get? {name : String} {v : Json} {ms : List (String × Json)}
    (h : Dictionary.get? name ms = some v) : nesting v < nesting (.object ms) := by
  rw [nesting]
  induction ms with
  | nil => exact absurd h nofun
  | cons m ms ih =>
    obtain ⟨k, x⟩ := m
    rw [Dictionary.get?] at h
    rw [nestingMembers]
    split at h
    · cases h
      omega
    · have hlater := ih h
      omega

/-- A dictionary is told from its member, which is there unless the dictionary is empty. -/
theorem membersOf_eq {name : String} {ms : List (String × Json)} {d : Dictionary Json}
    (h : Dictionary.get? name ms = if d.isEmpty then none else some (.object d)) :
    membersOf name ms = d := by
  rw [membersOf, h]
  cases d <;> rfl

/-- What may be missing is told from its member, or is missing with it. -/
theorem optional_cases {α : Type} {name : String} {ms : List (String × Json)} {x? : Option α}
    {toJson : α → Json} {ofJson? : Json → Option α}
    (h : Dictionary.get? name ms = x?.map toJson)
    (hx : ∀ x, x? = some x → ofJson? (toJson x) = some x) :
    (Dictionary.get? name ms = none ∧ x? = none) ∨
      ∃ v x, Dictionary.get? name ms = some v ∧ ofJson? v = some x ∧ x? = some x := by
  cases x? with
  | none => exact .inl ⟨h, rfl⟩
  | some x => exact .inr ⟨toJson x, x, h, hx x rfl, rfl⟩

/-- An entry is read back from its exported form, with enough fuel for how deep that is. -/
theorem Entry.ofJsonFrom?_toJson {fuel : Nat} {e : Entry} (h : nesting e.toJson < fuel) :
    Entry.ofJsonFrom? fuel e.toJson = some e := by
  induction fuel generalizing e with
  | zero => exact absurd h (Nat.not_lt_zero _)
  | succ fuel ih =>
    have hget : ∀ {i : Nat} {f : Schema.RecordField} {v? : Option Json},
        Schema.Record.entry.fields[i]? = some f → e.values[i]? = some v? →
          Dictionary.get? f.name (shown Schema.Record.entry.fields e.values) = v? :=
      Schema.get?_shown (Schema.Record.nodup_fields .entry)
    rw [Entry.toJson_eq] at h ⊢
    generalize shown Schema.Record.entry.fields e.values = ms at h hget
    have hmessage : textMember? "message" ms = some e.message :=
      congrArg (·.bind Json.asString?) (hget (i := 0) rfl rfl)
    have hkind : textMember? "type" ms = some e.kind.name :=
      congrArg (·.bind Json.asString?) (hget (i := 1) rfl rfl)
    have hname : EntryKind.ofName? e.kind.name = some e.kind := by
      cases e.kind <;> rfl
    have hframes : (Dictionary.get? "stack_trace" ms = none ∧ e.frames = []) ∨
        ∃ xs, Dictionary.get? "stack_trace" ms = some (.array xs) ∧
          xs.mapM Frame.ofJson? = some e.frames := by
      have hstack : Dictionary.get? "stack_trace" ms = _ := hget (i := 2) rfl rfl
      rw [hstack]
      cases e.frames with
      | nil => exact .inl ⟨rfl, rfl⟩
      | cons f fs => exact .inr ⟨_, rfl, mapM_map_eq_some fun f _ => Frame.ofJson?_toJson f⟩
    have hmetadata : membersOf "metadata" ms = e.metadata := membersOf_eq (hget (i := 3) rfl rfl)
    have hmember : Dictionary.get? "cause" ms = e.cause?.map Entry.toJson := hget (i := 4) rfl rfl
    have hcause : (Dictionary.get? "cause" ms = none ∧ e.cause? = none) ∨
        ∃ v c, Dictionary.get? "cause" ms = some v ∧ Entry.ofJsonFrom? fuel v = some c ∧
          e.cause? = some c := by
      refine optional_cases hmember fun c hc => ?_
      have hlt := nesting_lt_of_get? (hmember.trans (congrArg (Option.map Entry.toJson) hc))
      exact ih (by omega)
    obtain ⟨message, kind, frames, metadata, cause?⟩ := e
    rw [Entry.ofJsonFrom?, hmessage, hkind, hmetadata]
    dsimp only at hname hframes hcause ⊢
    rcases hframes with ⟨hstack, rfl⟩ | ⟨xs, hstack, hxs⟩ <;>
      rcases hcause with ⟨hmember, rfl⟩ | ⟨v, c, hmember, hv, rfl⟩ <;>
        simp [*]

/-- A report is read back from its exported form, with enough fuel for how deep that is. -/
theorem Report.ofJsonFrom?_toJson {fuel : Nat} {r : Report} (h : nesting r.toJson < fuel) :
    Report.ofJsonFrom? fuel r.toJson = some r := by
  induction fuel generalizing r with
  | zero => exact absurd h (Nat.not_lt_zero _)
  | succ fuel ih =>
    have hget : ∀ {i : Nat} {f : Schema.RecordField} {v? : Option Json},
        Schema.Record.report.fields[i]? = some f → r.values[i]? = some v? →
          Dictionary.get? f.name (shown Schema.Record.report.fields r.values) = v? :=
      Schema.get?_shown (Schema.Record.nodup_fields .report)
    rw [Report.toJson_eq] at h ⊢
    generalize shown Schema.Record.report.fields r.values = ms at h hget
    have hmessage : textMember? "message" ms = some r.message :=
      congrArg (·.bind Json.asString?) (hget (i := 0) rfl rfl)
    have htimestamp : textMember? "timestamp" ms = some r.timestamp :=
      congrArg (·.bind Json.asString?) (hget (i := 1) rfl rfl)
    have hkind : textMember? "type" ms = some r.errorType :=
      congrArg (·.bind Json.asString?) (hget (i := 2) rfl rfl)
    have hseverity : textMember? "severity" ms = some r.severity :=
      congrArg (·.bind Json.asString?) (hget (i := 3) rfl rfl)
    have hstack : textMember? "stack" ms = some r.stack :=
      congrArg (·.bind Json.asString?) (hget (i := 4) rfl rfl)
    have hcontext : membersOf "context" ms = r.context := membersOf_eq (hget (i := 6) rfl rfl)
    have hmetadata : membersOf "metadata" ms = r.metadata := membersOf_eq (hget (i := 7) rfl rfl)
    have hmember : Dictionary.get? "cause" ms = r.cause?.map Report.toJson := hget (i := 5) rfl rfl
    have hcause : (Dictionary.get? "cause" ms = none ∧ r.cause? = none) ∨
        ∃ v c, Dictionary.get? "cause" ms = some v ∧ Report.ofJsonFrom? fuel v = some c ∧
          r.cause? = some c := by
      refine optional_cases hmember fun c hc => ?_
      have hlt := nesting_lt_of_get? (hmember.trans (congrArg (Option.map Report.toJson) hc))
      exact ih (by omega)
    have hrecovery : (Dictionary.get? "recovery" ms = none ∧ r.recovery? = none) ∨
        ∃ v c, Dictionary.get? "recovery" ms = some v ∧ Recovery.ofJson? v = some c ∧
          r.recovery? = some c :=
      optional_cases (hget (i := 8) rfl rfl) fun c _ => Recovery.ofJson?_toJson c
    obtain ⟨message, timestamp, errorType, severity, stack, cause?, context, metadata,
      recovery?⟩ := r
    rw [Report.ofJsonFrom?, hmessage, htimestamp, hkind, hseverity, hstack, hcontext, hmetadata]
    dsimp only at hcause hrecovery ⊢
    rcases hcause with ⟨hcause, rfl⟩ | ⟨v, c, hcause, hv, rfl⟩ <;>
      rcases hrecovery with ⟨hrecovery, rfl⟩ | ⟨w, d, hrecovery, hw, rfl⟩ <;>
        simp [*]

/-- The export of a group is read back from its exported form. -/
theorem GroupReport.ofJson?_toJson (g : GroupReport) : GroupReport.ofJson? g.toJson = some g := by
  have hentries : (g.entries.map Entry.toJson).mapM Entry.ofJson? = some g.entries :=
    mapM_map_eq_some fun e _ => Entry.ofJsonFrom?_toJson (Nat.lt_succ_self _)
  change ((g.entries.map Entry.toJson).mapM Entry.ofJson?).bind _ = _
  rw [hentries]
  rfl

/-! ### Reading back -/

/-- A text that was written for something is read back as that, or it is too deep to be read. -/
structure ReadsBack {α : Type} (text : String) (outcome : Except ReadError (Option α)) (x : α) :
    Prop where
  /-- Up to 127 brackets and braces may be open at once. -/
  shallow : Json.deepest text ≤ 127 → outcome = .ok (some x)
  /-- From the 128th on the reader reports that the text is too deep. -/
  deep : 128 ≤ Json.deepest text → ∃ f, outcome = .error (.json f text) ∧ f.cause = .tooDeep

/-- As many brackets are open at once in a written text as the value that was written nests. -/
theorem deepest_write {shape : Schema.Shape} {v : Json} (hv : Fits shape v) :
    v.Spells (Format.json.write v).toList ∧ Json.deepest (Format.json.write v) = nesting v := by
  have hspells : v.Spells (Format.json.write v).toList :=
    Json.spells_of_written hv.integral (.inr rfl)
  exact ⟨hspells, Json.deepest_of_spells hspells⟩

/-- What fits a shape is read back from any text that spells it. -/
theorem readsBack_of_spells {α : Type} {shape : Schema.Shape} {v : Json} (hv : Fits shape v)
    {text : String} (h : v.Spells text.toList) {x : α} {ofJson? : Json → Option α}
    (hx : ofJson? v = some x) : ReadsBack text ((Format.json.read shape text).map ofJson?) x := by
  have hdeepest := Json.deepest_of_spells h
  have hread := Schema.fromText_of_spells hv h
  have hmax : Json.maxDepth = 127 := rfl
  constructor
  · intro hle
    rw [Format.read, hread.shallow (by omega)]
    exact congrArg Except.ok hx
  · intro hlt
    obtain ⟨f, hf, hcause⟩ := hread.deep (by omega)
    refine ⟨f, ?_, hcause⟩
    rw [Format.read, hf]
    rfl

/-- What fits a shape is read back from its pretty text. -/
theorem readsBack_of_fits {α : Type} {shape : Schema.Shape} {v : Json} (hv : Fits shape v) {x : α}
    {ofJson? : Json → Option α} (hx : ofJson? v = some x) :
    ReadsBack (Format.json.write v) ((Format.json.read shape (Format.json.write v)).map ofJson?)
      x :=
  readsBack_of_spells hv (deepest_write hv).1 hx

/-- The text of the export of a group or of a single error is read back as the export, or it is too
deep to be read. -/
theorem exports_readBack :
    (∀ g : GroupReport, g.Valid →
      ReadsBack (g.write .json) (GroupReport.read .json (g.write .json)) g) ∧
    (∀ r : Report, r.Valid → ReadsBack (r.write .json) (Report.read .json (r.write .json)) r) :=
  ⟨fun g hg => readsBack_of_fits hg.fits g.ofJson?_toJson,
    fun _ hr => readsBack_of_fits hr.fits (Report.ofJsonFrom?_toJson (Nat.lt_succ_self _))⟩

/-- The export of one error with a frame, metadata and a cause. -/
def smallExport : GroupReport :=
  { count := 1, timestamp := "2024-01-01T00:00:00Z",
    entries := [⟨"say \"no\"\n", .decorated, [⟨"run", "src/main.rs", 7, 0x1000⟩],
      [("limit", .nat 0xFFFFFFFFFFFFFFFF), ("list", .array [.null, .int (-3), .object []])],
      some ⟨"cause", .standard, [], [], none⟩⟩] }

/-- The export of an error with a number of lists inside one another in its metadata. -/
def nestedExport (n : Nat) : Report :=
  { Report.plain "nested" with metadata := [("lists", n.repeat (fun v => .array [v]) .null)] }

/-- The small export has numbers of their width. -/
theorem smallExport_valid : smallExport.Valid := by
  have hlist : Json.Regular (.array [.null, .int (-3), .object []]) := by
    refine .array fun x hx => ?_
    simp only [List.mem_cons, List.not_mem_nil, or_false] at hx
    rcases hx with rfl | rfl | rfl
    · exact .null
    · exact .int ⟨by decide, by decide⟩
    · exact .object .nil nofun
  refine ⟨by decide, fun e he => ?_⟩
  rw [List.mem_singleton.mp he]
  refine .mk (fun f hf => ?_) ⟨by decide, fun m hm => ?_⟩ fun c hc => ?_
  · rw [List.mem_singleton.mp hf]
    exact ⟨by decide, by decide⟩
  · simp only [List.mem_cons, List.not_mem_nil, or_false] at hm
    rcases hm with rfl | rfl
    · exact .int ⟨by decide, by decide⟩
    · exact hlist
  · cases hc
    exact .mk nofun ⟨.nil, nofun⟩ nofun

/-- Exports of any depth have numbers of their width. -/
theorem nestedExport_valid (n : Nat) : (nestedExport n).Valid := by
  have hnested : (n.repeat (fun v => Json.array [v]) .null).Regular := by
    induction n with
    | zero => exact .null
    | succ n ih => exact .array fun x hx => List.mem_singleton.mp hx ▸ ih
  refine .mk nofun ⟨.nil, nofun⟩ ⟨List.pairwise_singleton _ _, fun m hm => ?_⟩
  rw [List.mem_singleton.mp hm]
  exact hnested

/-- An export over a list of some depth is two levels deeper. -/
theorem nesting_nestedExport (n : Nat) : nesting (nestedExport n).toJson = n + 2 := by
  have hlists : nesting (n.repeat (fun v => .array [v]) .null) = n := by
    induction n with
    | zero => rfl
    | succ n ih => rw [Nat.repeat, nesting, nestingItems, ih, nestingItems, Nat.max_zero]
  have hform : (nestedExport n).toJson = .object [("message", .string "nested"),
      ("timestamp", .string ""), ("type", .string Report.defaultType),
      ("severity", .string Report.defaultSeverity), ("stack", .string ""),
      ("metadata", .object [("lists", n.repeat (fun v => .array [v]) .null)])] := rfl
  rw [hform]
  simp only [nesting, nestingMembers, hlists]
  omega

/-- The last depth that is read back, and the first that is not. -/
theorem readBack_nestedExport :
    GroupReport.read .json (smallExport.write .json) = .ok (some smallExport) ∧
      Report.read .json ((nestedExport 125).write .json) = .ok (some (nestedExport 125)) ∧
      ∃ f, Report.read .json ((nestedExport 126).write .json) =
        .error (.json f ((nestedExport 126).write .json)) ∧ f.cause = .tooDeep := by
  have hsmall : Json.deepest (smallExport.write .json) = 6 :=
    (deepest_write smallExport_valid.fits).2.trans (by decide)
  have hlast : Json.deepest ((nestedExport 125).write .json) = 127 :=
    (deepest_write (nestedExport_valid 125).fits).2.trans (nesting_nestedExport 125)
  have hfirst : Json.deepest ((nestedExport 126).write .json) = 128 :=
    (deepest_write (nestedExport_valid 126).fits).2.trans (nesting_nestedExport 126)
  exact ⟨(exports_readBack.1 smallExport smallExport_valid).shallow (by omega),
    (exports_readBack.2 _ (nestedExport_valid 125)).shallow (by omega),
    (exports_readBack.2 _ (nestedExport_valid 126)).deep (by omega)⟩

end Mishap
