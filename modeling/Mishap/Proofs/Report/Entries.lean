import Mishap.Proofs.Store.Chain
import Mishap.Proofs.Store.Grounded
import Mishap.Report.Entry

/-!
# The entries of an error

The entry of an error and the causes shown in it are the entries of a line of errors
(`levels_ofError`): behind an error stands the cause of the decorated error nearest to it, or its
source if there is none near. Each of them is in the chain of the first, and none stands twice
(`exported_of_possible`).
-/

namespace Mishap

/-- An entry and those of its causes. -/
def Entry.levels : Entry → List Entry
  | ⟨message, kind, frames, metadata, none⟩ => [⟨message, kind, frames, metadata, none⟩]
  | ⟨message, kind, frames, metadata, some c⟩ =>
    ⟨message, kind, frames, metadata, some c⟩ :: levels c

namespace Store

variable {s : Store} {r q : Ref} {rs : List Ref}

/-! ### Lines of errors -/

/-- Errors of which each has the next one behind it, down to one with none behind it. -/
inductive Line (next? : Ref → Option Ref) : Ref → List Ref → Prop
  | last {r : Ref} : next? r = none → Line next? r [r]
  | next {r q : Ref} {rs : List Ref} : next? r = some q → Line next? q rs → Line next? r (r :: rs)

/-- Where each error has an older one behind it, its line comes to an end. -/
theorem exists_line {next? : Ref → Option Ref} (hnext : ∀ r q, next? r = some q → q < r) (r : Ref) :
    ∃ rs, Line next? r rs := by
  induction r using Nat.strongRecOn with
  | ind r ih =>
    cases h : next? r with
    | none => exact ⟨[r], .last h⟩
    | some q =>
      obtain ⟨rs, hrs⟩ := ih q (hnext r q h)
      exact ⟨r :: rs, .next h hrs⟩

/-- What is computed along a line with a bound on the steps does not depend on the bound, if that is
above the place of the error. -/
theorem bounded_eq {α : Type} {f : Nat → Ref → α} {step : Ref → Option α → α}
    {next? : Ref → Option Ref}
    (hstep : ∀ fuel r, f (fuel + 1) r = step r ((next? r).map (f fuel)))
    (hnext : ∀ r q, next? r = some q → q < r) {fuel : Nat} {r : Ref} (h : r < fuel) :
    f fuel r = step r ((next? r).map fun q => f (q + 1) q) := by
  induction fuel using Nat.strongRecOn generalizing r with
  | ind fuel ih =>
    cases fuel with
    | zero => exact absurd h (Nat.not_lt_zero r)
    | succ fuel =>
      rw [hstep]
      refine congrArg (step r) (Option.map_congr fun q hq => ?_)
      have hlt : q < fuel := Nat.lt_of_lt_of_le (hnext r q hq) (Nat.le_of_lt_succ h)
      exact (ih fuel (Nat.lt_succ_self fuel) hlt).trans
        (ih (q + 1) (Nat.succ_lt_succ hlt) (Nat.lt_succ_self q)).symm

/-- What shows its cause at each error of a line, level by level, is made of the values at all
errors of the line. -/
theorem Line.levels_eq_map {α : Type} {f : Ref → α} {cause? : α → Option α} {levels : α → List α}
    {next? : Ref → Option Ref} (hlevels : ∀ x, levels x = x :: ((cause? x).map levels).getD [])
    (hcause : ∀ r, cause? (f r) = (next? r).map f) (hl : Line next? r rs) :
    levels (f r) = rs.map f := by
  induction hl with
  | last h => rw [hlevels, hcause, h]; rfl
  | next h _ ih =>
    rw [hlevels, hcause, h, List.map_cons, ← ih]
    rfl

/-! ### Exported causes -/

/-- The error that is shown as the cause of another: the cause of the decorated error nearest to it,
or its source if there is none near. -/
def exportedCause? (s : Store) (r : Ref) : Option Ref :=
  match (s.nearest? r).bind s.decorated? with
  | some d => d.cause?
  | none => s.source? r

private theorem source?_of_decorated {d : Decorated} (h : s.decorated? r = some d) :
    s.source? r = d.cause? := by
  rw [source?, decorated?_eq_some_iff.mp h]
  rfl

/-- What is shown as the cause of an error is older, and in its chain. -/
theorem exportedCause?_spec (hd : s.Descending) (h : s.exportedCause? r = some q) :
    q < r ∧ s.Reaches r q := by
  have hstep : ∀ {t}, s.Reaches r t → s.source? t = some q → q < r ∧ s.Reaches r q := by
    intro t ht hsource
    have hlead := mem_leads_of_source? hsource
    exact ⟨Nat.lt_of_lt_of_le (hd.older t q hlead) (ht.le hd), ht.trans (.step hlead (.self q))⟩
  rw [exportedCause?] at h
  cases hn : s.nearest? r with
  | none =>
    rw [hn] at h
    exact hstep (.self r) h
  | some t =>
    obtain ⟨d, hdec⟩ := exists_decorated_of_nearest? hn
    rw [hn, Option.bind_some, hdec] at h
    exact hstep (reaches_of_nearest? hd hn) ((source?_of_decorated hdec).trans h)

/-- From each error one comes to the last exported cause. -/
theorem exists_line_exported (hd : s.Descending) (r : Ref) : ∃ rs, Line s.exportedCause? r rs :=
  exists_line (fun _ _ hq => (exportedCause?_spec hd hq).1) r

/-- Behind an error near to no decorated one stands another such error. -/
theorem nearest?_exportedCause? (hd : s.Descending) (hr : s.nearest? r = none)
    (h : s.exportedCause? r = some q) : s.nearest? q = none := by
  have hreach := (exportedCause?_spec hd h).2
  refine (nearest?_eq_none_iff hd).mpr fun t ht => ?_
  exact (nearest?_eq_none_iff hd).mp hr t (hreach.trans ht)

namespace Line

/-- Whatever stands in the line can be reached from its first error. -/
theorem reaches (hd : s.Descending) (hl : Line s.exportedCause? r rs) :
    ∀ q ∈ rs, s.Reaches r q := by
  induction hl with
  | last => exact fun q hq => List.mem_singleton.mp hq ▸ .self _
  | next h _ ih =>
    intro q hq
    rcases List.mem_cons.mp hq with rfl | hq
    · exact .self _
    · exact (exportedCause?_spec hd h).2.trans (ih q hq)

/-- No error stands twice in the line. -/
theorem nodup (hd : s.Descending) (hl : Line s.exportedCause? r rs) : rs.Nodup := by
  induction hl with
  | last => exact List.nodup_singleton _
  | next h hl ih =>
    refine List.nodup_cons.mpr ⟨fun hmem => ?_, ih⟩
    have hle := (hl.reaches hd _ hmem).le hd
    exact Nat.not_lt.mpr hle (exportedCause?_spec hd h).1

/-- From an error near to no decorated one on, all are such. -/
theorem nearest?_eq_none (hd : s.Descending) (hl : Line s.exportedCause? r rs)
    (hr : s.nearest? r = none) : ∀ q ∈ rs, s.nearest? q = none := by
  induction hl with
  | last => exact fun q hq => List.mem_singleton.mp hq ▸ hr
  | next h _ ih =>
    intro q hq
    rcases List.mem_cons.mp hq with rfl | hq
    · exact hr
    · exact ih (nearest?_exportedCause? hd hr h) q hq

/-- Errors near to a decorated one come first. -/
theorem exists_append (hd : s.Descending) (hl : Line s.exportedCause? r rs) :
    ∃ near far, rs = near ++ far ∧ (∀ q ∈ near, (s.nearest? q).isSome) ∧
      ∀ q ∈ far, s.nearest? q = none := by
  induction hl with
  | @last r h =>
    cases hr : s.nearest? r with
    | none => exact ⟨[], [r], rfl, nofun, by simpa using hr⟩
    | some t => exact ⟨[r], [], rfl, by simp [hr], nofun⟩
  | @next r q rs h hl ih =>
    cases hr : s.nearest? r with
    | none =>
      exact ⟨[], r :: rs, rfl, nofun, (Line.next h hl).nearest?_eq_none hd hr⟩
    | some t =>
      obtain ⟨near, far, rfl, hnear, hfar⟩ := ih
      exact ⟨r :: near, far, rfl, by simpa [hr] using hnear, hfar⟩

end Line

end Store

/-! ### Entries over a line -/

namespace Entry

variable {s : Store} {r : Ref}

/-- The entry of an error over that of its exported cause: it tells of the nearest decorated
error. -/
def layer (s : Store) (r : Ref) (cause? : Option Entry) : Entry :=
  match (s.nearest? r).bind s.decorated? with
  | none => ⟨s.text r, .standard, [], [], cause?⟩
  | some d =>
    ⟨s.text r, .decorated, d.trace.frames, Dictionary.mapValues Metadata.toJson d.metadata, cause?⟩

private theorem ofErrorFrom_succ (s : Store) (fuel : Nat) (r : Ref) :
    ofErrorFrom s (fuel + 1) r = layer s r ((s.exportedCause? r).map (ofErrorFrom s fuel)) := by
  rw [ofErrorFrom, Store.find?_eq_nearest?, Store.exportedCause?, layer]
  cases (s.nearest? r).bind s.decorated? <;> rfl

/-- The entry of an error is a layer over the entry of its exported cause. -/
theorem ofError_eq (hd : s.Descending) (r : Ref) :
    ofError s r = layer s r ((s.exportedCause? r).map (ofError s)) :=
  Store.bounded_eq (ofErrorFrom_succ s) (fun _ _ hq => (Store.exportedCause?_spec hd hq).1)
    (Nat.lt_succ_self r)

/-- An entry shows the entry of the exported cause. -/
theorem cause?_ofError (hd : s.Descending) (r : Ref) :
    (ofError s r).cause? = (s.exportedCause? r).map (ofError s) := by
  rw [ofError_eq hd, layer]
  cases (s.nearest? r).bind s.decorated? <;> rfl

/-- The levels of an entry are the entry itself and the levels of its cause. -/
theorem levels_eq (e : Entry) : e.levels = e :: (e.cause?.map levels).getD [] := by
  obtain ⟨message, kind, frames, metadata, _ | c⟩ := e <;> rfl

/-- The entry of an error and those of its causes are the entries of a line of errors. -/
theorem levels_ofError (hd : s.Descending) {rs : List Ref}
    (hl : Store.Line s.exportedCause? r rs) :
    (ofError s r).levels = rs.map (ofError s) :=
  hl.levels_eq_map levels_eq (cause?_ofError hd)

/-! ### What an entry tells -/

/-- What an entry tells of an error. -/
structure Tells (e : Entry) (s : Store) (r : Ref) : Prop where
  message : s.text? r = some e.message
  kind : e.kind = .decorated ↔ ∃ t, (s.decorated? t).isSome ∧ s.is r t = true
  /-- Stack and metadata are those of the first decorated error that one comes to. -/
  decorated : e.kind = .decorated → ∃ before t later d, s.walk r = before ++ t :: later ∧
    (∀ q ∈ before, s.decorated? q = none) ∧ s.decorated? t = some d ∧
    e.frames = d.trace.frames ∧ e.metadata = Dictionary.mapValues Metadata.toJson d.metadata
  standard : e.kind = .standard → e.frames = [] ∧ e.metadata = []

variable {h : Store.History}

open Store (after Possible)

/-- The entry of an error near to a decorated one tells of that, and any other of nothing. -/
theorem ofError_cases (hd : s.Descending) (r : Ref) :
    (s.nearest? r = none ∧ (ofError s r).kind = .standard ∧ (ofError s r).frames = [] ∧
        (ofError s r).metadata = []) ∨
      ∃ t d, s.nearest? r = some t ∧ s.decorated? t = some d ∧
        (ofError s r).kind = .decorated ∧ (ofError s r).frames = d.trace.frames ∧
        (ofError s r).metadata = Dictionary.mapValues Metadata.toJson d.metadata := by
  rw [ofError_eq hd, layer]
  cases hn : s.nearest? r with
  | none => exact .inl ⟨rfl, rfl, rfl, rfl⟩
  | some t =>
    obtain ⟨d, hdec⟩ := Store.exists_decorated_of_nearest? hn
    rw [Option.bind_some, hdec]
    exact .inr ⟨t, d, rfl, hdec, rfl, rfl, rfl⟩

/-- The entry of a decorated error has its kind and its metadata. -/
theorem ofError_of_decorated (hd : s.Descending) {d : Decorated} (hdec : s.decorated? r = some d) :
    (ofError s r).kind = .decorated ∧
      (ofError s r).metadata = Dictionary.mapValues Metadata.toJson d.metadata := by
  have hn := Store.nearest?_of_decorated hd hdec
  rcases ofError_cases hd r with ⟨hnone, -⟩ | ⟨t, d', hn', hdec', hkind, -, hmetadata⟩
  · exact absurd (hn.symm.trans hnone) nofun
  · cases hn.symm.trans hn'
    cases hdec.symm.trans hdec'
    exact ⟨hkind, hmetadata⟩

private theorem kind_ofError (hd : s.Descending) (r : Ref) :
    (ofError s r).kind = if (s.nearest? r).isSome then .decorated else .standard := by
  rcases ofError_cases hd r with ⟨hn, hkind, -⟩ | ⟨t, d, hn, -, hkind, -⟩ <;> simp [hn, hkind]

/-- The message of an entry is the text of the error. -/
theorem message_ofError (hd : s.Descending) (r : Ref) : (ofError s r).message = s.text r := by
  rw [ofError_eq hd, layer]
  cases (s.nearest? r).bind s.decorated? <;> rfl

private theorem tells_ofError (hp : Possible h) (hg : (after h).Grounded) {r : Ref}
    (hr : r < (after h).next) : (ofError (after h) r).Tells (after h) r := by
  have hd := Store.descending_after hp
  have hfind : (∃ t, ((after h).decorated? t).isSome ∧ (after h).is r t = true) ↔
      (after h).nearest? r ≠ none := by
    rw [Ne, Store.nearest?_eq_none_iff hd]
    simp [Store.is_after hp hr, Option.isSome_iff_ne_none, and_comm]
  refine ⟨?_, ?_, fun hkind => ?_, fun hkind => ?_⟩
  · rw [message_ofError hd]
    exact Store.text?_eq_some_text hp hg hr
  · rw [hfind, kind_ofError hd]
    cases (after h).nearest? r <;> simp
  · rcases ofError_cases hd r with ⟨-, hstandard, -⟩ | ⟨t, d, hn, hdec, -, hframes, hmetadata⟩
    · exact absurd (hkind.symm.trans hstandard) nofun
    · obtain ⟨-, before, later, hwalk, hbefore⟩ := Store.nearest?_eq_some_iff.mp hn
      exact ⟨before, t, later, d, hwalk, hbefore, hdec, hframes, hmetadata⟩
  · rcases ofError_cases hd r with ⟨-, -, hnone⟩ | ⟨t, d, -, -, hdecorated, -⟩
    · exact hnone
    · exact absurd (hkind.symm.trans hdecorated) nofun

end Entry

namespace Store

/-- What is exported of an error: the entries of a line of errors. -/
structure Exported (s : Store) (r : Ref) (rs : List Ref) : Prop where
  /-- Each is the cause of the decorated error nearest to the one before it, or its source if there
  is none near; the last has nothing behind it. -/
  line : Line s.exportedCause? r rs
  entries : (Entry.ofError s r).levels = rs.map (Entry.ofError s)
  tells : ∀ q ∈ rs, (Entry.ofError s q).Tells s q
  /-- Decorated entries come first, then standard ones. -/
  kinds : ∃ m n, (Entry.ofError s r).levels.map (·.kind) =
    List.replicate m .decorated ++ List.replicate n .standard
  /-- Only errors in the chain of the first are exported, and none of them twice. -/
  is : ∀ q ∈ rs, s.is r q = true
  nodup : rs.Nodup

/-- Every error is exported with finitely many causes. -/
theorem exported_of_possible {h : History} (hp : Possible h) (hg : (after h).Grounded) {r : Ref}
    (hr : r < (after h).next) : ∃ rs, (after h).Exported r rs := by
  have hd := descending_after hp
  obtain ⟨rs, hl⟩ := exists_line_exported hd r
  have hreaches := hl.reaches hd
  refine ⟨rs, hl, Entry.levels_ofError hd hl, fun q hq => ?_, ?_, fun q hq => ?_, hl.nodup hd⟩
  · exact Entry.tells_ofError hp hg (lt_next_of_reaches hp hr (hreaches q hq))
  · obtain ⟨near, far, rfl, hnear, hfar⟩ := hl.exists_append hd
    refine ⟨near.length, far.length, ?_⟩
    rw [Entry.levels_ofError hd hl, List.map_map, List.map_append]
    congr 1
    · refine List.map_eq_replicate_iff.mpr fun q hq => ?_
      simp [Entry.kind_ofError hd, hnear q hq]
    · refine List.map_eq_replicate_iff.mpr fun q hq => ?_
      simp [Entry.kind_ofError hd, hfar q hq]
  · exact (is_after hp hr).mpr (hreaches q hq)

/-- A group with a member that is younger than itself is wrapped; its wrapper lies behind a node in
a joined error, and the wrapper of that in an envelope behind another node. -/
def exhibited : History :=
  [.link "top" 7, .wrap 5 "outer" [] 1, .join [1, 3, 4], .decorate "other" [] 0, .link "node" 2,
    .wrap 0 "failed" [] 0, .append 0 (some 1), .leaf "leaf" 0, .addGroup]

private theorem grounded_exhibited : (after exhibited).Grounded :=
  grounded_of_rank (fun r => if r = 1 then 0 else r + 1) (by decide)

/-- The entries of such an error. -/
theorem exported_exhibited :
    Possible exhibited ∧ (after exhibited).Grounded ∧ 8 < (after exhibited).next ∧
      ∃ rs, (after exhibited).Exported 8 rs :=
  ⟨by decide, grounded_exhibited, by decide,
    exported_of_possible (by decide) grounded_exhibited (by decide)⟩

example : (Entry.ofError (after exhibited) 8).levels.map (·.kind) =
    [.decorated, .decorated, .standard] := by
  decide

end Store

end Mishap
