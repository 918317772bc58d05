import Mishap.Store.Display

/-!
# Texts

A text exists if it can be put together layer by layer. There is one new text in each layer but the
last, so there are no more layers than errors, and the text of an error is put together from the
texts of others (`text?_eq_textOver`), whatever refers to what. A group of several errors shows how
many they are, and a line for each with its number (`showsMembers_iff`).
-/

namespace Mishap.Store

/-! ### The text of a group -/

/-- Lines for some texts in their order, each with its number before it, from a number on. -/
inductive Numbered : Nat → List String → String → Prop
  | nil (n : Nat) : Numbered n [] ""
  | cons {n : Nat} {t lines : String} {ts : List String} (rest : Numbered (n + 1) ts lines) :
      Numbered n (t :: ts) (String.ofList (Text.decimal n) ++ ": " ++ t ++ "\n" ++ lines)

/-- A text shows a group whose members have these texts: nothing if there are none, the text of the
one member, or the number of members before a line for each of them, numbered from one on. -/
inductive ShowsMembers : List String → String → Prop
  | none : ShowsMembers [] ""
  | one (t : String) : ShowsMembers [t] t
  | several {ts : List String} {lines : String} (several : 2 ≤ ts.length)
      (numbered : Numbered 1 ts lines) :
      ShowsMembers ts (String.ofList (Text.decimal ts.length) ++ " errors occurred:\n" ++ lines)

private theorem numbered_iff {n : Nat} {ts : List String} {lines : String} :
    Numbered (n + 1) ts lines ↔ lines = String.join ((ts.zipIdx n).map fun (t, i) =>
      String.ofList (Text.decimal (i + 1)) ++ ": " ++ t ++ "\n") := by
  induction ts generalizing n lines with
  | nil =>
    constructor
    · rintro ⟨⟩
      rfl
    · rintro rfl
      exact .nil _
  | cons t ts ih =>
    rw [List.zipIdx_cons, List.map_cons, String.join_cons]
    constructor
    · rintro (- | hrest)
      rw [← ih.mp hrest]
    · rintro rfl
      exact .cons (ih.mpr rfl)

/-- Exactly the text of a group shows its members. -/
theorem showsMembers_iff {ts : List String} {t : String} :
    ShowsMembers ts t ↔ t = groupText ts := by
  constructor
  · rintro (- | - | ⟨hseveral, hnumbered⟩)
    · rfl
    · rfl
    · obtain ⟨t₁, t₂, ts, rfl⟩ : ∃ t₁ t₂ rest, ts = t₁ :: t₂ :: rest := by
        match ts, hseveral with
        | t₁ :: t₂ :: rest, _ => exact ⟨t₁, t₂, rest, rfl⟩
      rw [numbered_iff.mp hnumbered]
      rfl
  · rintro rfl
    match ts with
    | [] => exact .none
    | [t] => exact .one t
    | t₁ :: t₂ :: ts => exact .several (Nat.le_add_left 2 ts.length) (numbered_iff.mpr rfl)

example : groupText ["lost", "late: lost"] = "2 errors occurred:\n1: lost\n2: late: lost\n" := by
  decide

/-- All of a list have texts if each has the one at its position. -/
theorem texts?_eq_some_iff {one : Ref → Option String} {rs : List Ref} {ts : List String} :
    texts? one rs = some ts ↔ rs.map one = ts.map some := by
  induction rs generalizing ts with
  | nil => cases ts <;> simp [texts?]
  | cons r rs ih =>
    simp only [texts?, Option.bind_eq_bind, Option.bind_eq_some_iff, Option.some.injEq, ih]
    cases ts with
    | nil => simp
    | cons t ts => simp [eq_comm]

/-! ### Layers -/

/-- One layer of a text, over the texts of what it includes. -/
def textOver (s : Store) (one : Ref → Option String) (r : Ref) : Option String :=
  match s.body? r with
  | none => none
  | some (.leaf m) => some m
  | some (.system m) => some m
  | some (.linked m _) => some m
  | some (.veiled inner _) => one inner
  | some (.envelope inner) => (one inner).map ("newtype: " ++ ·)
  | some (.decorated d) =>
    match d.cause? with
    | none => some d.message
    | some c => (one c).map fun t => d.message ++ ": " ++ t
  | some (.joined parts) => (texts? one parts).map (String.intercalate "\n")
  | some (.group g) => (texts? one g.members).map groupText

/-- One more layer is put together over the layers before it. -/
theorem textFrom_succ (s : Store) (fuel : Nat) :
    s.textFrom (fuel + 1) = s.textOver (s.textFrom fuel) :=
  rfl

private theorem texts?_mono {one one' : Ref → Option String}
    (h : ∀ q t, one q = some t → one' q = some t) {rs : List Ref} {ts : List String}
    (hts : texts? one rs = some ts) : texts? one' rs = some ts := by
  induction rs generalizing ts with
  | nil => exact hts
  | cons r rs ih =>
    simp only [texts?, Option.bind_eq_bind, Option.bind_eq_some_iff] at hts ⊢
    obtain ⟨t, ht, ts', hts', heq⟩ := hts
    exact ⟨t, h r t ht, ts', ih hts', heq⟩

private theorem textOver_mono {s : Store} {one one' : Ref → Option String}
    (h : ∀ q t, one q = some t → one' q = some t) {r : Ref} {t : String}
    (ht : s.textOver one r = some t) : s.textOver one' r = some t := by
  have hmap : ∀ {f : String → String} {q : Ref}, (one q).map f = some t →
      (one' q).map f = some t := by
    intro f q hq
    obtain ⟨u, hu, rfl⟩ := Option.map_eq_some_iff.mp hq
    rw [h q u hu, Option.map_some]
  have htexts : ∀ {f : List String → String} {rs : List Ref}, (texts? one rs).map f = some t →
      (texts? one' rs).map f = some t := by
    intro f rs hrs
    obtain ⟨us, hus, rfl⟩ := Option.map_eq_some_iff.mp hrs
    rw [texts?_mono h hus, Option.map_some]
  unfold textOver at ht ⊢
  cases hb : s.body? r with
  | none => rw [hb] at ht; exact absurd ht nofun
  | some b =>
    rw [hb] at ht
    cases b with
    | leaf m => exact ht
    | system m => exact ht
    | linked m source => exact ht
    | veiled inner source? => exact h inner t ht
    | envelope inner => exact hmap ht
    | decorated d =>
      dsimp only at ht ⊢
      cases hc : d.cause? with
      | none => rw [hc] at ht; exact ht
      | some c => rw [hc] at ht; exact hmap ht
    | joined parts => exact htexts ht
    | group g => exact htexts ht

/-- More layers give the same text. -/
theorem textFrom_mono (s : Store) (fuel : Nat) {r : Ref} {t : String}
    (h : s.textFrom fuel r = some t) : s.textFrom (fuel + 1) r = some t := by
  induction fuel generalizing r t with
  | zero => exact absurd h nofun
  | succ fuel ih => exact textOver_mono (fun _ _ => ih) h

/-! ### Enough layers -/

/-- How many errors have a text of a number of layers. -/
private def texted (s : Store) (fuel : Nat) : Nat :=
  (List.range s.next).countP fun r => (s.textFrom fuel r).isSome

private theorem countP_lt_countP {l : List Ref} {f g : Ref → Bool}
    (hle : ∀ r ∈ l, f r = true → g r = true) {r : Ref} (hr : r ∈ l) (hf : f r = false)
    (hg : g r = true) : l.countP f < l.countP g := by
  induction l with
  | nil => exact absurd hr List.not_mem_nil
  | cons q l ih =>
    have htail := List.countP_mono_left fun x hx => hle x (List.mem_cons_of_mem q hx)
    have hhead := hle q List.mem_cons_self
    rw [List.countP_cons, List.countP_cons]
    rcases List.mem_cons.mp hr with rfl | hr
    · rw [hf, hg]
      simp only [Bool.false_eq_true, if_false, if_true]
      omega
    · have hlt := ih (fun x hx => hle x (List.mem_cons_of_mem q hx)) hr
      split <;> split <;> grind

private theorem texted_lt (s : Store) (fuel : Nat)
    (h : s.textFrom fuel ≠ s.textFrom (fuel + 1)) : s.texted fuel < s.texted (fuel + 1) := by
  -- A layer that changes anything has a new text of an error of the store.
  obtain ⟨r, hr⟩ := Classical.not_forall.mp fun hall => h (funext hall)
  have hold : s.textFrom fuel r = none := by
    cases ht : s.textFrom fuel r with
    | none => rfl
    | some t => exact absurd (ht.trans (textFrom_mono s fuel ht).symm) hr
  have hnew : (s.textFrom (fuel + 1) r).isSome = true := by
    rw [Option.isSome_iff_ne_none]
    exact fun hnone => hr (hold.trans hnone.symm)
  have hlt : r < s.next := by
    apply Nat.lt_of_not_le
    intro hge
    rw [textFrom_succ, textOver, body?_eq_none_of_le hge] at hnew
    exact absurd hnew nofun
  refine countP_lt_countP (fun q _ hq => ?_) (List.mem_range.mpr hlt) ?_ hnew
  · obtain ⟨t, ht⟩ := Option.isSome_iff_exists.mp hq
    rw [textFrom_mono s fuel ht]
    rfl
  · rw [hold]
    rfl

private theorem stable_or_texted (s : Store) (fuel : Nat) :
    s.textFrom fuel = s.textFrom (fuel + 1) ∨ fuel + 1 ≤ s.texted (fuel + 1) := by
  -- Either one more layer changes nothing, or each layer so far had a new text.
  induction fuel with
  | zero =>
    by_cases h : s.textFrom 0 = s.textFrom (0 + 1)
    · exact .inl h
    · exact .inr (Nat.lt_of_le_of_lt (Nat.zero_le _) (texted_lt s 0 h))
  | succ fuel ih =>
    by_cases h : s.textFrom (fuel + 1) = s.textFrom (fuel + 1 + 1)
    · exact .inl h
    · rcases ih with hstable | hle
      · exact absurd (congrArg s.textOver hstable) h
      · exact .inr (Nat.lt_of_le_of_lt hle (texted_lt s (fuel + 1) h))

/-- There are no more layers than errors. -/
theorem textFrom_next (s : Store) : s.textFrom s.next = s.textFrom (s.next + 1) := by
  rcases stable_or_texted s s.next with hstable | hle
  · exact hstable
  · have hmax : s.texted (s.next + 1) ≤ (List.range s.next).length := List.countP_le_length
    rw [List.length_range] at hmax
    omega

/-- The text of an error is put together from the texts of others. -/
theorem text?_eq_textOver (s : Store) : s.text? = s.textOver s.text? :=
  textFrom_next s

/-- A group shows the texts of its members, numbered if they are several. -/
theorem text?_group {s : Store} {r : Ref} {g : Group} (h : s.body? r = some (.group g)) :
    s.text? r = (texts? s.text? g.members).map groupText := by
  rw [text?_eq_textOver, textOver, h, ← text?_eq_textOver]

/-- A joined error shows the texts of its parts, one a line. -/
theorem text?_joined {s : Store} {r : Ref} {parts : List Ref}
    (h : s.body? r = some (.joined parts)) :
    s.text? r = (texts? s.text? parts).map (String.intercalate "\n") := by
  rw [text?_eq_textOver, textOver, h, ← text?_eq_textOver]

end Mishap.Store
