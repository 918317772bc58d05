import Mishap.Proofs.Json.Reading
import Mishap.Schema.Shape

/-!
# Canonical values of shapes

A value fits a shape if it is what the readers of the shape give: records have their fields in
declared order, without hidden defaults, and free data is regular. A record fits if of its fields
all is shown that may be, and nothing else (`Fits.of_shown`).
-/

namespace Mishap.Schema

/-- A value is the canonical value of a shape. -/
inductive Fits : Shape → Json → Prop
  | text (s : String) : Fits .text (.string s)
  | natural {w : Width} {n : Nat} (range : n < w.limit) : Fits (.natural w) (.nat n)
  | flag (b : Bool) : Fits .flag (.bool b)
  | anything {v : Json} (regular : v.Regular) : Fits .anything v
  | span {s : String} (canonical : spanOf s = .ok (.string s)) : Fits .span (.string s)
  | instant {s : String} (canonical : instantOf s = .ok (.string s)) : Fits .instant (.string s)
  | choice {c : Choice} {s : String} (known : s ∈ c.names) : Fits (.choice c) (.string s)
  | absent (shape : Shape) : Fits (.optional shape) .null
  | present {shape : Shape} {v : Json} (fits : Fits shape v) (there : v ≠ .null) :
    Fits (.optional shape) v
  | list {shape : Shape} {xs : List Json} (items : ∀ x ∈ xs, Fits shape x) :
    Fits (.list shape) (.array xs)
  | dictionary {shape : Shape} {ms : List (String × Json)} (order : Dictionary.Ascending ms)
    (members : ∀ m ∈ ms, Fits shape m.2) : Fits (.dictionary shape) (.object ms)
  | record {r : Record} {ms : List (String × Json)} (distinct : (ms.map (·.1)).Nodup)
    (known : ∀ m ∈ ms, (r.field? m.1).isSome)
    (members : ∀ m ∈ ms, ∀ f, r.field? m.1 = some f → Fits f.shape m.2)
    (assembled : Record.assemble r.fields ms = .ok ms) : Fits (.record r) (.object ms)

private theorem Width.limit_le (w : Width) : w.limit ≤ 0x10000000000000000 := by
  cases w <;> decide

/-- What fits a shape has whole numbers alone. -/
theorem Fits.integral {shape : Shape} {v : Json} (h : Fits shape v) : v.Integral := by
  induction h with
  | text s => exact .string s
  | natural range =>
    next w n =>
    have hlimit := w.limit_le
    exact .int ⟨by omega, by omega⟩
  | flag b => exact .bool b
  | anything regular => exact regular.integral
  | span _ => exact .string _
  | instant _ => exact .string _
  | choice _ => exact .string _
  | absent _ => exact .null
  | present _ _ ih => exact ih
  | list _ ih => exact .array ih
  | dictionary _ _ ih => exact .object ih
  | record _ known _ _ ih =>
    refine .object fun m hm => ?_
    obtain ⟨f, hf⟩ := Option.isSome_iff_exists.mp (known m hm)
    exact ih m hm f hf

/-- Assembling asks only what is found for each field. -/
theorem assemble_congr {found found' : Dictionary Json}
    (h : ∀ name, Dictionary.get? name found = Dictionary.get? name found')
    (fields : List RecordField) : Record.assemble fields found = Record.assemble fields found' := by
  induction fields with
  | nil => rfl
  | cons f fields ih => rw [Record.assemble, Record.assemble, h, ih]

/-! ### Members of records -/

/-- No record has two fields of one name. -/
theorem Record.nodup_fields (r : Record) : (r.fields.map (·.name)).Nodup := by
  cases r <;> decide

/-- The field of a record is found by its name. -/
theorem Record.field?_of_mem {r : Record} {f : RecordField} (h : f ∈ r.fields) :
    r.field? f.name = some f := by
  have hnodup := r.nodup_fields
  rw [Record.field?]
  generalize r.fields = fs at h hnodup
  induction fs with
  | nil => exact absurd h List.not_mem_nil
  | cons g fs ih =>
    obtain ⟨hfirst, hrest⟩ := List.nodup_cons.mp hnodup
    rw [List.find?_cons]
    rcases List.mem_cons.mp h with rfl | hmem
    · rw [beq_self_eq_true]
    · have hne : (g.name == f.name) = false :=
        beq_false_of_ne fun heq => hfirst (List.mem_map.mpr ⟨f, hmem, heq.symm⟩)
      rw [hne]
      exact ih hmem hrest

/-- The members of a record, given the values of its fields as far as they are shown. -/
def shown : List RecordField → List (Option Json) → List (String × Json)
  | f :: fs, v? :: vs => (v?.toList.map fun v => (f.name, v)) ++ shown fs vs
  | _, _ => []

/-- What is shown of a field fits it and is no hidden default, and what is not shown is one. -/
inductive Shows : RecordField → Option Json → Prop
  | given {f : RecordField} {v : Json} (fits : Fits f.shape v)
    (kept : (f.hidden && f.default?.any (·.same v)) = false) : Shows f (some v)
  | left {f : RecordField} (hidden : f.hidden = true) (default : f.default?.isSome = true) :
    Shows f none

/-- Of every field that is shown which may be shown, and no other. -/
inductive ShowsAll : List RecordField → List (Option Json) → Prop
  | nil : ShowsAll [] []
  | cons {f : RecordField} {v? : Option Json} {fs : List RecordField} {vs : List (Option Json)}
    (first : Shows f v?) (rest : ShowsAll fs vs) : ShowsAll (f :: fs) (v? :: vs)

private theorem ShowsAll.exists_field {fs : List RecordField} {vs : List (Option Json)}
    (h : ShowsAll fs vs) {m : String × Json} (hm : m ∈ shown fs vs) :
    ∃ f ∈ fs, f.name = m.1 ∧ Fits f.shape m.2 := by
  induction h with
  | nil => exact absurd hm List.not_mem_nil
  | cons first _ ih =>
    rw [shown] at hm
    rcases List.mem_append.mp hm with hmem | hmem
    · cases first with
      | left _ _ => exact absurd hmem List.not_mem_nil
      | given fits _ =>
        rw [List.mem_singleton.mp hmem]
        exact ⟨_, List.mem_cons_self, rfl, fits⟩
    · obtain ⟨f, hf, hname, hfits⟩ := ih hmem
      exact ⟨f, List.mem_cons_of_mem _ hf, hname, hfits⟩

private theorem shown_sublist (fs : List RecordField) (vs : List (Option Json)) :
    ((shown fs vs).map (·.1)).Sublist (fs.map (·.name)) := by
  induction fs generalizing vs with
  | nil => exact List.nil_sublist _
  | cons f fs ih =>
    cases vs with
    | nil => exact List.nil_sublist _
    | cons v? vs =>
      cases v? with
      | none => exact (ih vs).cons f.name
      | some v => exact (ih vs).cons_cons f.name

/-- Under the name of a field its value is found, if it is shown. -/
theorem get?_shown {fs : List RecordField} (hnodup : (fs.map (·.name)).Nodup)
    {vs : List (Option Json)} {i : Nat} {f : RecordField} {v? : Option Json} (hf : fs[i]? = some f)
    (hv : vs[i]? = some v?) : Dictionary.get? f.name (shown fs vs) = v? := by
  induction fs generalizing vs i with
  | nil => exact absurd hf nofun
  | cons g fs ih =>
    obtain ⟨hfirst, hrest⟩ := List.nodup_cons.mp hnodup
    cases vs with
    | nil => exact absurd hv nofun
    | cons w? vs =>
      cases i with
      | zero =>
        cases hf
        cases hv
        have habsent : Dictionary.get? f.name (shown fs vs) = none :=
          Dictionary.get?_eq_none_iff.mpr fun hmem => hfirst ((shown_sublist fs vs).subset hmem)
        cases v? with
        | none => exact habsent
        | some v => exact if_pos rfl
      | succ i =>
        have hmem : f ∈ fs := List.mem_of_getElem? hf
        have hne : g.name ≠ f.name := fun heq => hfirst (List.mem_map.mpr ⟨f, hmem, heq.symm⟩)
        have hlater := ih hrest hf hv
        cases w? with
        | none => exact hlater
        | some w => exact (if_neg hne).trans hlater

/-- What is shown is assembled again, wherever it is found. -/
theorem ShowsAll.assemble {fs : List RecordField} {vs : List (Option Json)} (h : ShowsAll fs vs)
    (hnodup : (fs.map (·.name)).Nodup) {found : Dictionary Json}
    (hfound : ∀ f ∈ fs, Dictionary.get? f.name found = Dictionary.get? f.name (shown fs vs)) :
    Record.assemble fs found = .ok (shown fs vs) := by
  induction h with
  | nil => rfl
  | @cons f v? fs vs first _ ih =>
    obtain ⟨hfirst, hrest⟩ := List.nodup_cons.mp hnodup
    have hhere := hfound f List.mem_cons_self
    have hother : ∀ g ∈ fs,
        Dictionary.get? g.name found = Dictionary.get? g.name (shown fs vs) := by
      intro g hg
      have hne : f.name ≠ g.name := fun heq => hfirst (List.mem_map.mpr ⟨g, hg, heq.symm⟩)
      rw [hfound g (List.mem_cons_of_mem f hg), shown]
      cases v? with
      | none => rfl
      | some v => exact if_neg hne
    have hlater := ih hrest hother
    cases first with
    | given _ kept =>
      have hget : Dictionary.get? f.name found = some _ := hhere.trans (if_pos rfl)
      rw [Record.assemble, hget]
      simp only [hlater, bind, Except.bind, kept, Bool.false_eq_true, if_false]
      rfl
    | left hidden default =>
      have habsent : Dictionary.get? f.name (shown fs vs) = none :=
        Dictionary.get?_eq_none_iff.mpr fun hmem => hfirst ((shown_sublist fs vs).subset hmem)
      obtain ⟨d, hd⟩ := Option.isSome_iff_exists.mp default
      rw [Record.assemble, hhere.trans habsent, hd]
      simp only [hlater, hidden]
      rfl

/-- A record of which all is shown that may be, and nothing else, fits. -/
theorem Fits.of_shown {r : Record} {vs : List (Option Json)} (h : ShowsAll r.fields vs) :
    Fits (.record r) (.object (shown r.fields vs)) := by
  have hfield : ∀ m ∈ shown r.fields vs, ∃ f, r.field? m.1 = some f ∧ Fits f.shape m.2 := by
    intro m hm
    obtain ⟨f, hf, hname, hfits⟩ := h.exists_field hm
    exact ⟨f, hname ▸ Record.field?_of_mem hf, hfits⟩
  refine .record ((shown_sublist _ _).nodup r.nodup_fields) (fun m hm => ?_) (fun m hm f hf => ?_)
    (h.assemble r.nodup_fields fun _ _ => rfl)
  · obtain ⟨f, hf, -⟩ := hfield m hm
    rw [hf]
    rfl
  · obtain ⟨g, hg, hfits⟩ := hfield m hm
    cases hf.symm.trans hg
    exact hfits

end Mishap.Schema
