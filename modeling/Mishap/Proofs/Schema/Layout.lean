import Mishap.Proofs.Schema.Tree
import Mathlib.Logic.Relation

/-!
# Layouts

How the text of a value may be laid out anew without changing what it is read as: the members of
a record may change places, members with unknown names may be put in, and members that hold their
default may be left out, at any depth of records in one another (`read?_of_relaid`). White space
does not occur in trees. A tree in which a record has a known member twice is read as nothing
(`read?_of_repeats`).
-/

namespace Mishap.Schema

open Json (Tree Outcome)
open Json.Tree (string? members? members?_cons enter?)
open FromTree (read? readWith? record? member? assembled?)

/-! ### Changes of layout -/

/-- One change in the layout of a tree that is read as a shape. Lists are changed in their items
and records in their members; dictionaries hold no records. -/
inductive Relayout : Shape → Tree → Tree → Prop
  /-- The members of a record stand in another order. -/
  | permuted {r : Record} {ms ms' : List (List Char × Tree)} (order : ms.Perm ms') :
    Relayout (.record r) (.object ms) (.object ms')
  /-- A member that the record does not know is put in, whatever it holds. -/
  | inserted {r : Record} {k : List Char} {name : String} {T : Tree}
    {ms : List (List Char × Tree)} (named : string? k = some name)
    (unknown : r.field? name = none) :
    Relayout (.record r) (.object ms) (.object ((k, T) :: ms))
  /-- A member that holds the default of its field is left out. -/
  | left {r : Record} {k : List Char} {f : RecordField} {d : Json}
    {ms : List (List Char × Tree)} (known : f ∈ r.fields) (named : string? k = some f.name)
    (default : f.default? = some d) :
    Relayout (.record r) (.object ((k, d.tree) :: ms)) (.object ms)
  /-- What a member of a record holds is laid out anew. -/
  | member {r : Record} {k : List Char} {f : RecordField} {T T' : Tree}
    {ms : List (List Char × Tree)} (known : f ∈ r.fields) (named : string? k = some f.name)
    (inner : Relayout f.shape T T') :
    Relayout (.record r) (.object ((k, T) :: ms)) (.object ((k, T') :: ms))
  | optional {shape : Shape} {T T' : Tree} (inner : Relayout shape T T') :
    Relayout (.optional shape) T T'
  | item {shape : Shape} {Ts Us : List Tree} {T T' : Tree} (inner : Relayout shape T T') :
    Relayout (.list shape) (.array (Ts ++ T :: Us)) (.array (Ts ++ T' :: Us))

/-- Any number of changes of layout. -/
def Relaid (shape : Shape) : Tree → Tree → Prop := Relation.ReflTransGen (Relayout shape)

/-- Somewhere in a tree that is read as a shape, a record has a known member twice. -/
inductive Repeats : Shape → Tree → Prop
  | here {r : Record} {f : RecordField} {m m' : List Char × Tree} {ms : List (List Char × Tree)}
    (known : f ∈ r.fields) (first : string? m.1 = some f.name) (second : string? m'.1 = some f.name)
    (both : [m, m'].Sublist ms) : Repeats (.record r) (.object ms)
  | member {r : Record} {f : RecordField} {k : List Char} {T : Tree}
    {ms : List (List Char × Tree)} (known : f ∈ r.fields) (named : string? k = some f.name)
    (mem : (k, T) ∈ ms) (inner : Repeats f.shape T) : Repeats (.record r) (.object ms)
  | optional {shape : Shape} {T : Tree} (inner : Repeats shape T) : Repeats (.optional shape) T
  | item {shape : Shape} {T : Tree} {Ts : List Tree} (mem : T ∈ Ts) (inner : Repeats shape T) :
    Repeats (.list shape) (.array Ts)

/-! ### Members in any order -/

section

variable {one : Shape → Tree → Option Json} {r : Record} {found : Dictionary Json} {name : String}
  {f : RecordField} {T : Tree}

private theorem member?_unknown (h : r.field? name = none) :
    member? one r found name T = some found := by
  rw [member?, h]

private theorem member?_found (h : r.field? name = some f) {v : Json}
    (hv : Dictionary.get? name found = some v) : member? one r found name T = none := by
  simp only [member?, h, hv, Option.isSome_some, if_true]

private theorem member?_free (h : r.field? name = some f)
    (hfree : Dictionary.get? name found = none) :
    member? one r found name T =
      (one f.shape T).map fun v => Dictionary.insert name v found := by
  simp only [member?, h, hfree, Option.isSome_none, Bool.false_eq_true, if_false]
  rfl

end

/-- A known member that is taken is found. -/
theorem member?_takes {one : Shape → Tree → Option Json} {r : Record} {f : RecordField}
    {name : String} (h : r.field? name = some f) {found found' : Dictionary Json} {T : Tree}
    (htaken : member? one r found name T = some found') :
    ∃ v, Dictionary.get? name found' = some v := by
  cases hfound : Dictionary.get? name found with
  | some v =>
    rw [member?_found h hfound] at htaken
    cases htaken
  | none =>
    rw [member?_free h hfound] at htaken
    obtain ⟨v, -, rfl⟩ := Option.map_eq_some_iff.mp htaken
    refine ⟨v, ?_⟩
    rw [Dictionary.get?_insert, if_pos rfl]

/-- A known member is not taken twice. -/
theorem member?_twice (one : Shape → Tree → Option Json) {r : Record} {f : RecordField}
    {name : String} (h : r.field? name = some f) (found : Dictionary Json) (T U : Tree) :
    ((member? one r found name T).bind fun found => member? one r found name U) = none := by
  cases htaken : member? one r found name T with
  | none => rfl
  | some found' =>
    obtain ⟨v, hv⟩ := member?_takes h htaken
    exact member?_found h hv

/-- Two known members are taken if neither was found before. -/
theorem member?_pair (one : Shape → Tree → Option Json) {r : Record} {f g : RecordField}
    {k l : String} (hne : k ≠ l) (hk : r.field? k = some f) (hl : r.field? l = some g)
    (found : Dictionary Json) (T U : Tree) :
    ((member? one r found k T).bind fun found => member? one r found l U) =
      if Dictionary.get? k found = none ∧ Dictionary.get? l found = none then
        (one f.shape T).bind fun v => (one g.shape U).map fun w =>
          Dictionary.insert l w (Dictionary.insert k v found)
      else none := by
  have hother : ∀ v, Dictionary.get? l (Dictionary.insert k v found) = Dictionary.get? l found :=
    fun v => by rw [Dictionary.get?_insert, if_neg hne]
  cases hfk : Dictionary.get? k found with
  | some v =>
    rw [member?_found hk hfk, if_neg fun h => nomatch h.1]
    rfl
  | none =>
    rw [member?_free hk hfk, Option.bind_map]
    cases hfl : Dictionary.get? l found with
    | some w =>
      rw [if_neg fun h => nomatch h.2]
      have hnone : ∀ v, member? one r (Dictionary.insert k v found) l U = none :=
        fun v => member?_found hl ((hother v).trans hfl)
      simp only [Function.comp_def, hnone]
      exact Option.bind_fun_none _
    | none =>
      rw [if_pos ⟨rfl, rfl⟩]
      congr 1
      funext v
      exact member?_free hl ((hother v).trans hfl)

/-- What two members add does not depend on their order. -/
theorem member?_comm (one : Shape → Tree → Option Json) (r : Record) (found : Dictionary Json)
    (k l : String) (T U : Tree) :
    ((member? one r found k T).bind fun found => member? one r found l U) =
      (member? one r found l U).bind fun found => member? one r found k T := by
  cases hk : r.field? k with
  | none =>
    simp only [member?_unknown hk, Option.bind_some]
    exact (Option.bind_fun_some _).symm
  | some f =>
    cases hl : r.field? l with
    | none =>
      simp only [member?_unknown hl, Option.bind_some]
      exact Option.bind_fun_some _
    | some g =>
      by_cases hne : k = l
      · subst hne
        rw [member?_twice one hk, member?_twice one hk]
      · rw [member?_pair one hne hk hl, member?_pair one (Ne.symm hne) hl hk]
        simp only [and_comm]
        split
        · cases one f.shape T <;> cases one g.shape U <;>
            simp [Dictionary.insert_comm (Ne.symm hne)]
        · rfl

/-- What the members of a record add does not depend on their order. -/
theorem members?_perm (one : Shape → Tree → Option Json) (r : Record)
    {ms ms' : List (List Char × Tree)} (h : ms.Perm ms') (found : Dictionary Json) :
    members? (member? one r) found ms = members? (member? one r) found ms' := by
  induction h generalizing found with
  | nil => rfl
  | @cons m ms ms' _ ih =>
    obtain ⟨k, T⟩ := m
    simp only [members?_cons, ih]
  | swap m m' ms =>
    obtain ⟨k, T⟩ := m
    obtain ⟨l, U⟩ := m'
    simp only [members?_cons]
    cases hk : string? k with
    | none => simp
    | some name =>
      cases hl : string? l with
      | none => simp
      | some name' =>
        simp only [Option.bind_some]
        rw [← Option.bind_assoc, member?_comm, Option.bind_assoc]
  | trans _ _ ih ih' => rw [ih, ih']

/-! ### Members left out -/

/-- Each default fits the shape of its field. -/
theorem fits_default {r : Record} {f : RecordField} {d : Json} (hf : f ∈ r.fields)
    (hd : f.default? = some d) : Fits f.shape d := by
  suffices h : ∀ f ∈ r.fields, ∀ d, f.default? = some d → Fits f.shape d from h f hf d hd
  -- The fields of each record are gone through one by one; a required field has no default.
  cases r <;> rw [Record.fields] <;>
    repeat' first
      | exact List.forall_mem_nil _
      | refine List.forall_mem_cons.mpr ⟨?_, ?_⟩
      | rintro d ⟨⟩
  all_goals first
    | exact .absent _
    | exact .list nofun
    | exact .dictionary .nil nofun
    | exact .text _
    | exact .flag _
    | exact .natural (n := 4) (by decide)
    | exact .natural (n := 64) (by decide)

/-- Each default is the same as itself. -/
theorem same_default {r : Record} {f : RecordField} {d : Json} (hf : f ∈ r.fields)
    (hd : f.default? = some d) : d.same d = true := by
  have hall : r.fields.all (fun f => f.default?.all fun d => d.same d) = true := by
    cases r <;> rfl
  have hfield := List.all_eq_true.mp hall f hf
  rwa [hd] at hfield

/-- What fits a shape is read from its tree as itself, if it is read at all. -/
theorem eq_of_read?_tree {shape : Shape} {v : Json} (hv : Fits shape v) {depth : Nat} {w : Json}
    (h : read? depth shape v.tree = some w) : w = v := by
  have hread := FromText.gives_read depth shape (Json.Tree.spells_prettyChars 0 v) .nil
  have hback := FromText.read_of_spells depth hv (Json.spells_prettyChars 0 v hv.integral) .nil
  rw [h] at hread
  have hread : FromText.read depth shape (v.prettyChars 0 ++ []) = .ok (w, []) := hread
  rw [hread] at hback
  by_cases hdepth : nesting v ≤ depth
  · cases hback.shallow hdepth
    rfl
  · obtain ⟨f, hf, -⟩ := hback.deep (by omega)
    exact absurd hf nofun

/-- A member that was entered before the others is found with them. -/
theorem members?_insert (one : Shape → Tree → Option Json) {r : Record} {name : String} (d : Json)
    {ms : List (List Char × Tree)} {found all : Dictionary Json}
    (hfree : Dictionary.get? name found = none)
    (h : members? (member? one r) (Dictionary.insert name d found) ms = some all) :
    ∃ others, members? (member? one r) found ms = some others ∧
      Dictionary.get? name others = none ∧ all = Dictionary.insert name d others := by
  induction ms generalizing found with
  | nil =>
    cases h
    exact ⟨found, rfl, hfree, rfl⟩
  | cons m ms ih =>
    obtain ⟨k, T⟩ := m
    rw [members?_cons] at h ⊢
    cases hk : string? k with
    | none =>
      rw [hk] at h
      exact absurd h nofun
    | some l =>
      rw [hk, Option.bind_some] at h
      rw [Option.bind_some]
      cases hl : r.field? l with
      | none =>
        rw [member?_unknown hl, Option.bind_some] at h ⊢
        exact ih hfree h
      | some g =>
        have hthere : Dictionary.get? name (Dictionary.insert name d found) = some d := by
          rw [Dictionary.get?_insert, if_pos rfl]
        by_cases hne : name = l
        · subst hne
          rw [member?_found hl hthere] at h
          exact absurd h nofun
        have hsame : Dictionary.get? l (Dictionary.insert name d found) =
            Dictionary.get? l found := by
          rw [Dictionary.get?_insert, if_neg hne]
        cases hfound : Dictionary.get? l found with
        | some v =>
          rw [member?_found hl (hsame.trans hfound)] at h
          exact absurd h nofun
        | none =>
          rw [member?_free hl (hsame.trans hfound)] at h
          rw [member?_free hl hfound]
          cases hv : one g.shape T with
          | none =>
            rw [hv] at h
            exact absurd h nofun
          | some v =>
            rw [hv, Option.map_some, Option.bind_some, Dictionary.insert_comm (Ne.symm hne)] at h
            rw [Option.map_some, Option.bind_some]
            refine ih ?_ h
            rw [Dictionary.get?_insert, if_neg (Ne.symm hne)]
            exact hfree

/-- A record is assembled alike whether a field is left out or holds its default. -/
theorem assemble_insert_default {fs : List RecordField} {f : RecordField} {d : Json}
    (hd : f.default? = some d) (hsame : d.same d = true) {found : Dictionary Json}
    (hfree : Dictionary.get? f.name found = none)
    (honly : ∀ g ∈ fs, g.name = f.name → g = f) :
    Record.assemble fs (Dictionary.insert f.name d found) = Record.assemble fs found := by
  induction fs with
  | nil => rfl
  | cons g fs ih =>
    have hrest := ih fun h hh => honly h (List.mem_cons_of_mem g hh)
    rw [Record.assemble, Record.assemble, Dictionary.get?_insert]
    by_cases hname : f.name = g.name
    · have hgf := honly g List.mem_cons_self hname.symm
      subst hgf
      rw [if_pos rfl, hfree, hd]
      simp only [hrest, Option.any_some, hsame, Bool.and_true]
    · rw [if_neg hname, hrest]

/-! ### Reading what is laid out anew -/

private theorem read?_object (depth : Nat) (r : Record) (ms : List (List Char × Tree)) :
    read? (depth + 1) (.record r) (.object ms) =
      (members? (member? (read? depth) r) [] ms).bind (assembled? r) := by
  simp only [read?, readWith?, record?, Option.bind_some]

private theorem read?_array (depth : Nat) (shape : Shape) (Ts : List Tree) :
    read? (depth + 1) (.list shape) (.array Ts) = (Ts.mapM (read? depth shape)).map .array := by
  simp only [read?, readWith?, Option.bind_some]

private theorem read?_optional (depth : Nat) (shape : Shape) {T : Tree} (hT : T ≠ .null) :
    read? depth (.optional shape) T = read? depth shape T := by
  cases T with
  | null => exact absurd rfl hT
  | _ => cases depth <;> simp only [read?, readWith?]

/-- A record that is read as something is read with a bracket to spare. -/
theorem exists_depth_of_object {depth : Nat} {r : Record} {ms : List (List Char × Tree)} {v : Json}
    (h : read? depth (.record r) (.object ms) = some v) : ∃ n, depth = n + 1 := by
  cases depth with
  | succ n => exact ⟨n, rfl⟩
  | zero =>
    simp only [read?, readWith?, record?, Option.bind_none] at h
    cases h

/-- A list that is read as something is read with a bracket to spare. -/
theorem exists_depth_of_array {depth : Nat} {shape : Shape} {Ts : List Tree} {v : Json}
    (h : read? depth (.list shape) (.array Ts) = some v) : ∃ n, depth = n + 1 := by
  cases depth with
  | succ n => exact ⟨n, rfl⟩
  | zero =>
    simp only [read?, readWith?, Option.bind_none] at h
    cases h

/-- A list of which one item is refused is refused. -/
theorem mapM_eq_none_of_mem {α β : Type} {f : α → Option β} {x : α} {xs : List α} (hx : x ∈ xs)
    (h : f x = none) : xs.mapM f = none := by
  induction xs with
  | nil => exact absurd hx List.not_mem_nil
  | cons y ys ih =>
    rw [List.mapM_cons]
    rcases List.mem_cons.mp hx with rfl | hmem
    · rw [h]
      rfl
    · rw [ih hmem]
      exact Option.bind_fun_none _

private theorem Relayout.ne_null {shape : Shape} {T T' : Tree} (h : Relayout shape T T') :
    T ≠ .null ∧ T' ≠ .null := by
  induction h with
  | optional _ ih => exact ih
  | _ => exact ⟨nofun, nofun⟩

/-- A change of layout does not change what a tree is read as. -/
theorem read?_of_relayout {shape : Shape} {T T' : Tree} (h : Relayout shape T T') {depth : Nat}
    {v : Json} (hv : read? depth shape T = some v) : read? depth shape T' = some v := by
  induction h generalizing depth v with
  | @permuted r ms ms' order =>
    obtain ⟨depth, rfl⟩ := exists_depth_of_object hv
    rw [read?_object] at hv ⊢
    rw [← members?_perm (read? depth) r order]
    exact hv
  | @inserted r k name T ms named unknown =>
    obtain ⟨depth, rfl⟩ := exists_depth_of_object hv
    rw [read?_object] at hv ⊢
    rw [members?_cons, named, Option.bind_some, member?_unknown unknown, Option.bind_some]
    exact hv
  | @left r k f d ms known named default =>
    obtain ⟨depth, rfl⟩ := exists_depth_of_object hv
    have hfield := Record.field?_of_mem known
    rw [read?_object] at hv ⊢
    rw [members?_cons, named, Option.bind_some,
      member?_free hfield (Dictionary.get?_nil f.name)] at hv
    cases hd : read? depth f.shape d.tree with
    | none =>
      rw [hd] at hv
      cases hv
    | some w =>
      have hw := eq_of_read?_tree (fits_default known default) hd
      subst hw
      rw [hd, Option.map_some, Option.bind_some] at hv
      obtain ⟨all, hall, hassembled⟩ := Option.bind_eq_some_iff.mp hv
      obtain ⟨others, hothers, hfree, rfl⟩ :=
        members?_insert (read? depth) w (Dictionary.get?_nil f.name) hall
      have honly : ∀ g ∈ r.fields, g.name = f.name → g = f := by
        intro g hg hname
        have hsame := Record.field?_of_mem hg
        rw [hname, hfield] at hsame
        exact (Option.some.inj hsame).symm
      rw [hothers, Option.bind_some]
      rwa [assembled?, assemble_insert_default default (same_default known default) hfree
        honly] at hassembled
  | @member r k f T T' ms known named inner ih =>
    obtain ⟨depth, rfl⟩ := exists_depth_of_object hv
    rw [read?_object, members?_cons, named, Option.bind_some,
      member?_free (Record.field?_of_mem known) (Dictionary.get?_nil f.name)] at hv ⊢
    cases hT : read? depth f.shape T with
    | none =>
      rw [hT] at hv
      cases hv
    | some w =>
      rw [ih hT, ← hT]
      exact hv
  | @optional shape T T' inner ih =>
    obtain ⟨hT, hT'⟩ := inner.ne_null
    rw [read?_optional depth shape hT] at hv
    rw [read?_optional depth shape hT']
    exact ih hv
  | @item shape Ts Us T T' inner ih =>
    obtain ⟨depth, rfl⟩ := exists_depth_of_array hv
    rw [read?_array] at hv ⊢
    cases hT : read? depth shape T with
    | none =>
      have hmem : T ∈ Ts ++ T :: Us := List.mem_append_right Ts List.mem_cons_self
      rw [mapM_eq_none_of_mem hmem hT] at hv
      cases hv
    | some w =>
      rw [List.mapM_append, List.mapM_cons] at hv ⊢
      rw [ih hT, ← hT]
      exact hv

/-- Any number of changes of layout do not change what a tree is read as. -/
theorem read?_of_relaid {shape : Shape} {T T' : Tree} (h : Relaid shape T T') {depth : Nat}
    {v : Json} (hv : read? depth shape T = some v) : read? depth shape T' = some v := by
  induction h with
  | refl => exact hv
  | tail _ step ih => exact read?_of_relayout step ih

/-! ### Repeated members -/

/-- Members are refused where one of them is, in each state that those before it can leave. -/
theorem members?_eq_none {σ : Type} {one : σ → String → Tree → Option σ} {P : σ → Prop}
    (hkeep : ∀ state name T state', P state → one state name T = some state' → P state')
    {m : List Char × Tree} {ms : List (List Char × Tree)} (hm : m ∈ ms) {name : String}
    (hname : string? m.1 = some name) (hrefused : ∀ state, P state → one state name m.2 = none)
    {state : σ} (hstate : P state) : members? one state ms = none := by
  induction ms generalizing state with
  | nil => exact absurd hm List.not_mem_nil
  | cons m' ms ih =>
    obtain ⟨k, T⟩ := m'
    rw [members?_cons]
    rcases List.mem_cons.mp hm with rfl | hmem
    · rw [hname, Option.bind_some, hrefused state hstate, Option.bind_none]
    · cases string? k with
      | none => rfl
      | some l =>
        rw [Option.bind_some]
        cases hnext : one state l T with
        | none => rfl
        | some state' => exact ih hmem (hkeep state l T state' hstate hnext)

/-- What was found stays found. -/
theorem member?_keeps {one : Shape → Tree → Option Json} {r : Record} {name : String}
    (found : Dictionary Json) (l : String) (T : Tree) (found' : Dictionary Json)
    (hfound : ∃ v, Dictionary.get? name found = some v)
    (h : member? one r found l T = some found') : ∃ v, Dictionary.get? name found' = some v := by
  cases hl : r.field? l with
  | none =>
    rw [member?_unknown hl] at h
    cases h
    exact hfound
  | some f =>
    by_cases hname : l = name
    · subst hname
      exact member?_takes hl h
    · cases hfree : Dictionary.get? l found with
      | some v =>
        rw [member?_found hl hfree] at h
        cases h
      | none =>
        rw [member?_free hl hfree] at h
        obtain ⟨v, -, rfl⟩ := Option.map_eq_some_iff.mp h
        rw [Dictionary.get?_insert, if_neg hname]
        exact hfound

/-- A record is refused where a known member stands twice. -/
theorem members?_of_twice (one : Shape → Tree → Option Json) {r : Record} {f : RecordField}
    {name : String} (hf : r.field? name = some f) {m m' : List Char × Tree}
    (hm : string? m.1 = some name) (hm' : string? m'.1 = some name)
    {ms : List (List Char × Tree)} (h : [m, m'].Sublist ms) (found : Dictionary Json) :
    members? (member? one r) found ms = none := by
  induction ms generalizing found with
  | nil => cases h
  | cons m₀ ms ih =>
    obtain ⟨k, T⟩ := m₀
    rw [members?_cons]
    cases h with
    | cons _ hrest =>
      cases string? k with
      | none => rfl
      | some l =>
        rw [Option.bind_some]
        cases member? one r found l T with
        | none => rfl
        | some found' => exact ih hrest found'
    | cons_cons _ hrest =>
      rw [hm, Option.bind_some]
      cases htaken : member? one r found name T with
      | none => rfl
      | some found' =>
        refine members?_eq_none (P := fun found => ∃ v, Dictionary.get? name found = some v)
          member?_keeps (List.singleton_sublist.mp hrest) hm' ?_ (member?_takes hf htaken)
        rintro state ⟨v, hv⟩
        exact member?_found hf hv

private theorem Repeats.ne_null {shape : Shape} {T : Tree} (h : Repeats shape T) : T ≠ .null := by
  induction h with
  | optional _ ih => exact ih
  | _ => exact nofun

/-- A tree in which a record has a known member twice is read as nothing. -/
theorem read?_of_repeats {shape : Shape} {T : Tree} (h : Repeats shape T) (depth : Nat) :
    read? depth shape T = none := by
  induction h generalizing depth with
  | @here r f m m' ms known first second both =>
    refine Option.eq_none_iff_forall_ne_some.mpr fun v hv => ?_
    obtain ⟨depth, rfl⟩ := exists_depth_of_object hv
    rw [read?_object, members?_of_twice _ (Record.field?_of_mem known) first second both] at hv
    cases hv
  | @member r f k T ms known named mem inner ih =>
    refine Option.eq_none_iff_forall_ne_some.mpr fun v hv => ?_
    obtain ⟨depth, rfl⟩ := exists_depth_of_object hv
    have hrefused : ∀ found, True → member? (read? depth) r found f.name T = none := by
      intro found _
      have hfield := Record.field?_of_mem known
      cases hfree : Dictionary.get? f.name found with
      | some v => exact member?_found hfield hfree
      | none =>
        rw [member?_free hfield hfree, ih depth]
        rfl
    rw [read?_object,
      members?_eq_none (fun _ _ _ _ _ _ => trivial) mem named hrefused trivial] at hv
    cases hv
  | @optional shape T inner ih =>
    rw [read?_optional depth shape inner.ne_null]
    exact ih depth
  | @item shape T Ts mem inner ih =>
    refine Option.eq_none_iff_forall_ne_some.mpr fun v hv => ?_
    obtain ⟨depth, rfl⟩ := exists_depth_of_array hv
    rw [read?_array, mapM_eq_none_of_mem mem (ih depth)] at hv
    cases hv

end Mishap.Schema
