import Mathlib.Data.List.Nodup
import Mishap.Log.Filter

/-!
# What a filter lets through

The settings of a log are written as the text of a filter, and the text is read back. For settings
with plain levels and plain names of components (`LogSettings.Plain`) what was read says what the
settings say (`read?_directives`): the component with the longest name that a target begins with
decides about the events of the target, and the default level where there is none. The order of the
components is of no consequence (`allows_of_plain`).
-/

namespace Mishap

/-- The word for a level in settings. -/
def Level.word : Level → String
  | error => "error"
  | warn => "warn"
  | info => "info"
  | debug => "debug"
  | trace => "trace"

/-- The level of a word. -/
def Level.ofWord? (w : String) : Option Level :=
  [error, warn, info, debug, trace].find? (·.word == w)

private theorem Level.word_of_ofWord? {w : String} {l : Level} (h : ofWord? w = some l) :
    l.word = w := by
  have hbeq : (l.word == w) = true := List.find?_some (p := fun k : Level => k.word == w) h
  exact beq_iff_eq.mp hbeq

namespace LogSettings

/-- A character of the name of a component. -/
def isNameChar (c : Char) : Bool := c.isAlphanum || c == '_' || c == ':' || c == '-'

/-- The levels of the settings are levels, and the names of the components are plain and stay
distinct with underscores in place of dashes. -/
structure Plain (s : LogSettings) : Prop where
  level : (Level.ofWord? s.level).isSome
  levels : ∀ c ∈ s.components, (Level.ofWord? c.2).isSome
  named : ∀ c ∈ s.components, c.1 ≠ ""
  names : ∀ c ∈ s.components, c.1.toList.all isNameChar
  distinct : (s.components.map fun c => normalName c.1).Nodup

/-- The targets that begin with the name of a component are its own. -/
def Covers (component target : String) : Prop := (normalName component).toList <+: target.toList

instance (component target : String) : Decidable (Covers component target) :=
  inferInstanceAs (Decidable (_ <+: _))

/-- The settings give a level to the events of a target: that of the component with the longest name
among those that cover the target, or the default level if there is none. -/
inductive Governs (s : LogSettings) (target : String) : Level → Prop
  | component {c : String × String} {l : Level} (there : c ∈ s.components)
    (covers : Covers c.1 target) (level : Level.ofWord? c.2 = some l)
    (longest : ∀ d ∈ s.components, Covers d.1 target →
      (normalName d.1).length ≤ (normalName c.1).length) : Governs s target l
  | default {l : Level} (none : ∀ c ∈ s.components, ¬ Covers c.1 target)
    (level : Level.ofWord? s.level = some l) : Governs s target l

/-- The settings give one level at most. -/
theorem Governs.unique {s : LogSettings} (hs : s.Plain) {target : String} {l l' : Level}
    (h : s.Governs target l) (h' : s.Governs target l') : l = l' := by
  cases h with
  | @component c _ there covers level longest =>
    cases h' with
    | @component d _ there' covers' level' longest' =>
      have hlength : (normalName c.1).length = (normalName d.1).length :=
        Nat.le_antisymm (longest' c there covers) (longest d there' covers')
      have hname : normalName c.1 = normalName d.1 := by
        have hlists : (normalName c.1).toList = (normalName d.1).toList := by
          rcases List.prefix_or_prefix_of_prefix covers covers' with hpre | hpre
          · exact hpre.eq_of_length hlength
          · exact (hpre.eq_of_length hlength.symm).symm
        exact String.toList_inj.mp hlists
      have heq : c = d := List.inj_on_of_nodup_map hs.distinct there there' hname
      subst heq
      exact Option.some.inj (level.symm.trans level')
    | default none _ => exact absurd covers (none c there)
  | default none level =>
    cases h' with
    | component there covers _ _ => exact absurd covers (none _ there)
    | default _ level' => exact Option.some.inj (level.symm.trans level')

/-- Settings with the components in another order give the same levels. -/
theorem Governs.perm {s s' : LogSettings} (hlevel : s'.level = s.level)
    (hperm : s'.components.Perm s.components) {target : String} {l : Level}
    (h : s.Governs target l) : s'.Governs target l := by
  cases h with
  | component there covers level longest =>
    exact .component (hperm.mem_iff.mpr there) covers level fun d hd =>
      longest d (hperm.mem_iff.mp hd)
  | default none level =>
    exact .default (fun c hc => none c (hperm.mem_iff.mp hc)) (hlevel ▸ level)

private theorem Plain.perm {s s' : LogSettings} (hs : s.Plain) (hlevel : s'.level = s.level)
    (hperm : s'.components.Perm s.components) : s'.Plain where
  level := hlevel ▸ hs.level
  levels c hc := hs.levels c (hperm.mem_iff.mp hc)
  named c hc := hs.named c (hperm.mem_iff.mp hc)
  names c hc := hs.names c (hperm.mem_iff.mp hc)
  distinct := (hperm.map _).nodup_iff.mpr hs.distinct

end LogSettings

/-! ### Reading directives -/

namespace Filter

/-- The parts of a text are its parts at the first comma. -/
theorem splitCommas_append {a : List Char} (ha : ',' ∉ a) (s : List Char) :
    splitCommas (a ++ ',' :: s) = a :: splitCommas s := by
  induction a with
  | nil => rfl
  | cons c a ih =>
    have hc : c ≠ ',' := fun heq => ha (heq ▸ List.mem_cons_self)
    have hrest := ih fun hm => ha (List.mem_cons_of_mem c hm)
    rw [splitCommas] at hrest ⊢
    rw [List.cons_append, List.foldr_cons, hrest, if_neg hc]

private theorem splitCommas_of_not_mem {a : List Char} (ha : ',' ∉ a) : splitCommas a = [a] := by
  induction a with
  | nil => rfl
  | cons c a ih =>
    have hc : c ≠ ',' := fun heq => ha (heq ▸ List.mem_cons_self)
    have hrest := ih fun hm => ha (List.mem_cons_of_mem c hm)
    rw [splitCommas] at hrest ⊢
    rw [List.foldr_cons, hrest, if_neg hc]

/-- A list of texts with commas between them is divided into the texts. -/
theorem splitCommas_flatMap {a : List Char} {parts : List (List Char)} (ha : ',' ∉ a)
    (hparts : ∀ p ∈ parts, ',' ∉ p) :
    splitCommas (a ++ parts.flatMap (',' :: ·)) = a :: parts := by
  induction parts generalizing a with
  | nil =>
    rw [List.flatMap_nil, List.append_nil]
    exact splitCommas_of_not_mem ha
  | cons p parts ih =>
    rw [List.flatMap_cons, List.cons_append, splitCommas_append ha]
    rw [ih (hparts p List.mem_cons_self) fun q hq => hparts q (List.mem_cons_of_mem p hq)]

end Filter

namespace Directive

/-- A text without blanks at its ends is its own bare text. -/
theorem Source.ofText_eq {s : List Char} (hfirst : ∀ c ∈ s.head?, Text.isBlank c = false)
    (hlast : ∀ c ∈ s.getLast?, Text.isBlank c = false) : Source.ofText s = ⟨s, s⟩ := by
  have hskip : ∀ t : List Char, (∀ c ∈ t.head?, Text.isBlank c = false) →
      Text.skipBlanks t = t := by
    intro t ht
    cases t with
    | nil => rfl
    | cons c t => exact List.dropWhile_cons_of_neg (by simp [ht c rfl])
  rw [ofText, hskip s hfirst, hskip s.reverse (by rwa [List.head?_reverse]), List.reverse_reverse]

/-- A lone level is the default. -/
theorem read?_word (l : Level) :
    read? l.word.toList = some (.directive ⟨none, none, some l⟩) := by
  cases l <;> decide +kernel

private theorem thresholdAfter?_word (l : Level) :
    thresholdAfter? l.word.toList = some (some l) := by
  cases l <;> decide +kernel

/-- A word has a last character, which is no blank. -/
theorem exists_getLast?_word (l : Level) :
    ∃ c, l.word.toList.getLast? = some c ∧ Text.isBlank c = false := by
  cases l <;> exact ⟨_, rfl, by decide⟩

private theorem not_comma_word (l : Level) : ',' ∉ l.word.toList := by
  cases l <;> decide +kernel

/-- A name in front of an equals sign and a level. -/
theorem read?_component {name : List Char} {l : Level} (hne : name ≠ [])
    (hstart : ∀ c ∈ name.head?, mayStart c = true ∧ Text.isBlank c = false)
    (hchars : ∀ c ∈ name, c ≠ '=' ∧ c ≠ '[') :
    read? (name ++ '=' :: l.word.toList) =
      some (.directive ⟨some (String.ofList name), none, some l⟩) := by
  generalize htext : name ++ '=' :: l.word.toList = text
  have hhead : text.head? = name.head? := by
    rw [← htext, List.head?_append_of_ne_nil _ hne]
  have hsource : Source.ofText text = ⟨text, text⟩ := by
    refine Source.ofText_eq (fun d hd => (hstart d (hhead ▸ hd)).2) (fun d hd => ?_)
    obtain ⟨c, hc, hblank⟩ := exists_getLast?_word l
    rw [← htext, List.getLast?_append, List.getLast?_cons, hc] at hd
    cases hd
    exact hblank
  -- The name ends at the equals sign, and the level stands behind it.
  have htake : text.takeWhile (fun c => c != '=' && c != '[') = name := by
    rw [← htext, List.takeWhile_append_of_pos fun c hc => by simp [hchars c hc]]
    exact List.append_nil name
  have hdrop : text.drop name.length = '=' :: l.word.toList := by
    rw [← htext, List.drop_left]
  have hname : (Source.mk text text).part 0 name.length = name := by
    have hwhole : (Source.mk text text).rest 0 = text := (Text.cut_append [] text).2
    rw [Source.part, hwhole, ← htext, List.take_left, List.drop_zero]
    exact (Text.cut_append name _).1
  have hlevel : (Source.mk text text).rest (name.length + 1) = l.word.toList := by
    have hsplit : text = name ++ ['='] ++ l.word.toList := by rw [← htext]; simp
    have hlength : name.length + 1 = (name ++ ['=']).length := by simp
    rw [Source.rest, hlength, hsplit, List.take_left]
    exact (Text.cut_append _ _).2
  have hthreshold : (Source.mk text text).thresholdAt? name.length = some (some l) := by
    rw [Source.thresholdAt?, hdrop]
    exact hlevel ▸ thresholdAfter?_word l
  rw [read?, hsource]
  dsimp only
  cases text with
  | nil => exact absurd (List.append_eq_nil_iff.mp htext).1 hne
  | cons c rest =>
    have hmay : mayStart c = true := (hstart c (hhead ▸ rfl)).1
    simp only [hmay, Bool.not_true, Bool.false_eq_true, if_false, htake, hname, hdrop, hthreshold,
      Option.map_some]

/-- A character of the name of a component, with an underscore for a dash, can stand in a directive
and at its start. -/
theorem nameChar_spec {c : Char} (h : LogSettings.isNameChar c = true) :
    let d := if c = '-' then '_' else c
    (mayStart d = true ∧ Text.isBlank d = false) ∧ (d ≠ '=' ∧ d ≠ '[') ∧ d ≠ ',' := by
  have hsmall : c.toNat < 128 := by
    delta LogSettings.isNameChar Char.isAlphanum Char.isAlpha Char.isUpper Char.isLower
      Char.isDigit at h
    simp only [Bool.or_eq_true, Bool.and_eq_true, decide_eq_true_eq, beq_iff_eq,
      UInt32.le_iff_toNat_le, ge_iff_le] at h
    rcases h with ((((⟨-, h⟩ | ⟨-, h⟩) | ⟨-, h⟩) | rfl) | rfl) | rfl
    · exact Nat.lt_of_le_of_lt h (by decide)
    · exact Nat.lt_of_le_of_lt h (by decide)
    · exact Nat.lt_of_le_of_lt h (by decide)
    all_goals decide
  have hascii : ∀ n < 128, LogSettings.isNameChar (Char.ofNat n) = true →
      let d := if Char.ofNat n = '-' then '_' else Char.ofNat n
      (mayStart d = true ∧ Text.isBlank d = false) ∧ (d ≠ '=' ∧ d ≠ '[') ∧ d ≠ ',' := by
    decide +kernel
  have hc := hascii c.toNat hsmall
  rw [Char.ofNat_toNat] at hc
  exact hc h

/-- The directive of a component is one part of a filter, and is read as what it says. -/
theorem read?_directive {c : String × String} {l : Level} (hnamed : c.1 ≠ "")
    (hname : c.1.toList.all LogSettings.isNameChar) (hlevel : Level.ofWord? c.2 = some l) :
    ',' ∉ (LogSettings.directive c.1 c.2).toList ∧
      read? (LogSettings.directive c.1 c.2).toList =
        some (.directive ⟨some (LogSettings.normalName c.1), none, some l⟩) := by
  have htext : (LogSettings.directive c.1 c.2).toList =
      (LogSettings.normalName c.1).toList ++ '=' :: l.word.toList := by
    rw [Level.word_of_ofWord? hlevel, LogSettings.directive, String.toList_append,
      String.toList_append]
    simp
  have hchars : ∀ d ∈ (LogSettings.normalName c.1).toList,
      (mayStart d = true ∧ Text.isBlank d = false) ∧ (d ≠ '=' ∧ d ≠ '[') ∧ d ≠ ',' := by
    intro d hd
    rw [LogSettings.normalName, String.toList_ofList] at hd
    obtain ⟨e, he, rfl⟩ := List.mem_map.mp hd
    exact nameChar_spec (List.all_eq_true.mp hname e he)
  have hne : (LogSettings.normalName c.1).toList ≠ [] := by
    rw [LogSettings.normalName, String.toList_ofList, Ne, List.map_eq_nil_iff]
    exact fun hnil => hnamed (String.toList_eq_nil_iff.mp hnil)
  rw [htext, read?_component hne (fun d hd => (hchars d (List.mem_of_mem_head? hd)).1)
    (fun d hd => (hchars d hd).2.1), String.ofList_toList]
  refine ⟨fun hcomma => ?_, rfl⟩
  rcases List.mem_append.mp hcomma with hcomma | hcomma
  · exact (hchars ',' hcomma).2.2 rfl
  · rcases List.mem_cons.mp hcomma with heq | hcomma
    · exact absurd heq (by decide)
    · exact not_comma_word l hcomma

end Directive

namespace LogSettings

/-- The directives of settings: the default, then one for each component. -/
def asDirectives (s : LogSettings) : Filter :=
  ⟨none, none, Level.ofWord? s.level⟩ ::
    s.components.map fun c => ⟨some (normalName c.1), none, Level.ofWord? c.2⟩

end LogSettings

namespace Filter

/-- Where each item is read, so is the list. -/
theorem mapM_map_eq_map {α β γ : Type} {f : α → β} {g : β → Option γ} {k : α → γ} {xs : List α}
    (h : ∀ x ∈ xs, g (f x) = some (k x)) : (xs.map f).mapM g = some (xs.map k) := by
  induction xs with
  | nil => rfl
  | cons x xs ih =>
    rw [List.map_cons, List.mapM_cons, h x List.mem_cons_self,
      ih fun y hy => h y (List.mem_cons_of_mem x hy)]
    rfl

/-- The text of plain settings is read as what the settings say. -/
theorem read?_directives {s : LogSettings} (hs : s.Plain) :
    read? s.directives = some s.asDirectives := by
  obtain ⟨l, hl⟩ := Option.isSome_iff_exists.mp hs.level
  have hlevel : s.level = l.word := (Level.word_of_ofWord? hl).symm
  have hcomponent : ∀ c ∈ s.components, ',' ∉ (LogSettings.directive c.1 c.2).toList ∧
      Directive.read? (LogSettings.directive c.1 c.2).toList =
        some (.directive ⟨some (LogSettings.normalName c.1), none, Level.ofWord? c.2⟩) := by
    intro c hc
    obtain ⟨lc, hlc⟩ := Option.isSome_iff_exists.mp (hs.levels c hc)
    exact hlc ▸ Directive.read?_directive (hs.named c hc) (hs.names c hc) hlc
  have hsplit : splitCommas s.directives.toList =
      s.level.toList :: s.components.map fun c => (LogSettings.directive c.1 c.2).toList := by
    have hcommas : s.directives.toList = s.level.toList ++
        (s.components.map fun c => (LogSettings.directive c.1 c.2).toList).flatMap (',' :: ·) := by
      rw [LogSettings.directives, String.toList_append, String.toList_join, List.flatMap_map,
        List.flatMap_map]
      exact congrArg _ (List.flatMap_congr fun c _ => String.toList_append)
    refine hcommas ▸ splitCommas_flatMap (hlevel ▸ Directive.not_comma_word l) fun p hp => ?_
    obtain ⟨c, hc, rfl⟩ := List.mem_map.mp hp
    exact (hcomponent c hc).1
  have hfirst : Directive.read? s.level.toList =
      some (.directive ⟨none, none, Level.ofWord? s.level⟩) := by
    rw [hl, hlevel]
    exact Directive.read?_word l
  have hall : ∀ p ∈ splitCommas s.directives.toList, (!p.isEmpty) = true := by
    intro p hp
    rw [hsplit] at hp
    have hread : (Directive.read? p).isSome := by
      rcases List.mem_cons.mp hp with rfl | hp
      · rw [hfirst]
        rfl
      · obtain ⟨c, hc, rfl⟩ := List.mem_map.mp hp
        rw [(hcomponent c hc).2]
        rfl
    cases p with
    | nil => exact absurd hread (by decide)
    | cons _ _ => rfl
  have hreadings : (splitCommas s.directives.toList).mapM Directive.read? =
      some (s.asDirectives.map .directive) := by
    rw [hsplit, List.mapM_cons, hfirst, mapM_map_eq_map fun c hc => (hcomponent c hc).2,
      LogSettings.asDirectives, List.map_cons, List.map_map]
    rfl
  rw [read?, List.filter_eq_self.mpr hall, hreadings]
  simp [List.filterMap_map]

/-! ### The deciding directive -/

/-- Of directives that ask for no field the last of the longest decides. -/
theorem foldl_stronger {ds : List Directive} (hds : ∀ d ∈ ds, d.field? = none) (best : Directive)
    (hbest : best.field? = none) :
    ∃ m, ds.foldl stronger (some best) = some m ∧ m ∈ best :: ds ∧
      ∀ d ∈ best :: ds, d.size ≤ m.size := by
  induction ds generalizing best with
  | nil =>
    refine ⟨best, rfl, List.mem_cons_self, fun d hd => ?_⟩
    exact Nat.le_of_eq (congrArg Directive.size (List.mem_singleton.mp hd))
  | cons d ds ih =>
    have hd := hds d List.mem_cons_self
    have hrest : ∀ e ∈ ds, e.field? = none := fun e he => hds e (List.mem_cons_of_mem d he)
    have hyields : best.yieldsTo d = decide (best.size ≤ d.size) := by
      rw [Directive.yieldsTo, hbest, Bool.eq_iff_iff]
      simp [Nat.le_iff_lt_or_eq]
    rw [List.foldl_cons, stronger, hyields]
    by_cases hle : best.size ≤ d.size
    · obtain ⟨m, hm, hmem, hmax⟩ := ih hrest d hd
      refine ⟨m, by simpa [hle] using hm, List.mem_cons_of_mem best hmem, fun e he => ?_⟩
      rcases List.mem_cons.mp he with rfl | he
      · exact Nat.le_trans hle (hmax d List.mem_cons_self)
      · exact hmax e he
    · obtain ⟨m, hm, hmem, hmax⟩ := ih hrest best hbest
      refine ⟨m, by simpa [hle] using hm, ?_, fun e he => ?_⟩
      · rcases List.mem_cons.mp hmem with rfl | hmem
        · exact List.mem_cons_self
        · exact List.mem_cons_of_mem best (List.mem_cons_of_mem d hmem)
      · rcases List.mem_cons.mp he with rfl | he
        · exact hmax e List.mem_cons_self
        · rcases List.mem_cons.mp he with rfl | he
          · exact Nat.le_trans (Nat.le_of_not_le hle) (hmax best List.mem_cons_self)
          · exact hmax e (List.mem_cons_of_mem best he)

/-- Of two names that a text begins with, the one with more bytes has more characters. -/
theorem length_le_of_byteSize_le {a b t : String} (ha : a.toList <+: t.toList)
    (hb : b.toList <+: t.toList) (h : a.utf8ByteSize ≤ b.utf8ByteSize) : a.length ≤ b.length := by
  rcases List.prefix_or_prefix_of_prefix ha hb with hpre | ⟨rest, hrest⟩
  · exact hpre.length_le
  · have hab : a = b ++ String.ofList rest := by
      rw [← String.toList_inj, String.toList_append, String.toList_ofList, hrest]
    rw [hab, String.utf8ByteSize_append] at h
    have hempty : String.ofList rest = "" := String.utf8ByteSize_eq_zero_iff.mp (by omega)
    have heq : a = b := by rw [hab, hempty, String.append_empty]
    exact Nat.le_of_eq (congrArg String.length heq)

/-- What plain settings say decides as they do. -/
theorem deciding?_asDirectives {s : LogSettings} (hs : s.Plain) (target : String)
    (fields : List String) :
    ∃ l d, s.Governs target l ∧ s.asDirectives.deciding? target fields = some d ∧
      d.threshold = some l := by
  have hcovers : ∀ c : String × String, Directive.appliesTo target fields
      ⟨some (LogSettings.normalName c.1), none, Level.ofWord? c.2⟩ = true ↔
        LogSettings.Covers c.1 target := by
    intro c
    simp [Directive.appliesTo, LogSettings.Covers]
  let applying := (s.components.map fun c =>
    (⟨some (LogSettings.normalName c.1), none, Level.ofWord? c.2⟩ : Directive)).filter
      (Directive.appliesTo target fields)
  have hmem : ∀ d, d ∈ applying ↔ ∃ c ∈ s.components, LogSettings.Covers c.1 target ∧
      d = ⟨some (LogSettings.normalName c.1), none, Level.ofWord? c.2⟩ := by
    intro d
    rw [List.mem_filter, List.mem_map]
    constructor
    · rintro ⟨⟨c, hc, rfl⟩, happlies⟩
      exact ⟨c, hc, (hcovers c).mp happlies, rfl⟩
    · rintro ⟨c, hc, hcovered, rfl⟩
      exact ⟨⟨c, hc, rfl⟩, (hcovers c).mpr hcovered⟩
  have hfields : ∀ d ∈ applying, d.field? = none := by
    intro d hd
    obtain ⟨c, -, -, rfl⟩ := (hmem d).mp hd
    rfl
  obtain ⟨m, hm, hin, hmax⟩ := foldl_stronger hfields ⟨none, none, Level.ofWord? s.level⟩ rfl
  have hdeciding : s.asDirectives.deciding? target fields = some m := hm
  rcases List.mem_cons.mp hin with rfl | hin
  · -- The default decides only where no name does, since every name is longer than none.
    obtain ⟨l, hl⟩ := Option.isSome_iff_exists.mp hs.level
    refine ⟨l, _, .default (fun c hc hcovered => ?_) hl, hdeciding, hl⟩
    have hle := hmax _ (List.mem_cons_of_mem _ ((hmem _).mpr ⟨c, hc, hcovered, rfl⟩))
    exact absurd hle (Nat.not_succ_le_zero _)
  · obtain ⟨c, hc, hcovered, rfl⟩ := (hmem m).mp hin
    obtain ⟨l, hl⟩ := Option.isSome_iff_exists.mp (hs.levels c hc)
    refine ⟨l, _, .component hc hcovered hl fun d hd hcovered' => ?_, hdeciding, hl⟩
    have hle := hmax _ (List.mem_cons_of_mem _ ((hmem _).mpr ⟨d, hd, hcovered', rfl⟩))
    exact length_le_of_byteSize_le hcovered' hcovered (Nat.le_of_succ_le_succ hle)

/-- The filter of plain settings lets through an event whose level is no more verbose than the one
that the settings give to its target. They give one to every target, whatever the order of the
components. -/
theorem allows_of_plain {s : LogSettings} (hs : s.Plain) (e : Event) :
    (read? s.directives).isSome ∧
      (∃ l, s.Governs e.target l) ∧
      (∀ l, s.Governs e.target l →
        ((ofSettings s).allows e = true ↔ e.level.verbosity ≤ l.verbosity)) ∧
      ∀ s' : LogSettings, s'.level = s.level → s'.components.Perm s.components →
        (ofSettings s').allows e = (ofSettings s).allows e := by
  have hallows : ∀ {s : LogSettings}, s.Plain → ∃ l, s.Governs e.target l ∧
      (ofSettings s).allows e = decide (e.level.verbosity ≤ l.verbosity) := by
    intro s hs
    obtain ⟨l, d, hgoverns, hdeciding, hthreshold⟩ :=
      deciding?_asDirectives hs e.target e.fieldNames
    refine ⟨l, hgoverns, ?_⟩
    rw [ofSettings, read?_directives hs, Option.getD_some, allows, hdeciding, Option.any_some,
      hthreshold]
    rfl
  obtain ⟨l, hgoverns, heq⟩ := hallows hs
  refine ⟨by rw [read?_directives hs]; rfl, ⟨l, hgoverns⟩, fun l' hgoverns' => ?_,
    fun s' hlevel hperm => ?_⟩
  · rw [heq, hgoverns.unique hs hgoverns', decide_eq_true_iff]
  · obtain ⟨l', hgoverns', heq'⟩ := hallows (hs.perm hlevel hperm)
    have hl := (hgoverns.perm hlevel hperm).unique (hs.perm hlevel hperm) hgoverns'
    rw [heq, heq', hl]

/-- Two components of which the name of one begins with that of the other. -/
def nestedSettings : LogSettings :=
  { level := "warn", json := false,
    components := [("faultline-core", "debug"), ("faultline_core::circuit", "error")] }

/-- An event that says nothing but its level and where it comes from. -/
def bareEvent (level : Level) (target : String) : Event :=
  { level, target, message := "", fields := [] }

/-- A setting for part of a component stands over that for the whole of it. -/
theorem allows_nestedSettings :
    nestedSettings.Plain ∧
      (ofSettings nestedSettings).allows (bareEvent .debug "faultline_core::group") = true ∧
      (ofSettings nestedSettings).allows (bareEvent .warn "faultline_core::circuit_breaker") =
        false := by
  have hplain : nestedSettings.Plain :=
    ⟨by decide, by decide, by decide, by decide, by decide⟩
  have hshort : nestedSettings.Governs "faultline_core::group" .debug :=
    .component (c := ("faultline-core", "debug")) List.mem_cons_self (by decide) rfl (by decide)
  have hlong : nestedSettings.Governs "faultline_core::circuit_breaker" .error :=
    .component (c := ("faultline_core::circuit", "error"))
      (List.mem_cons_of_mem _ List.mem_cons_self) (by decide) rfl (by decide)
  refine ⟨hplain, ?_, ?_⟩
  · exact ((allows_of_plain hplain (bareEvent .debug _)).2.2.1 .debug hshort).mpr (by decide)
  · rw [← Bool.not_eq_true, (allows_of_plain hplain (bareEvent .warn _)).2.2.1 .error hlong]
    decide

end Filter

end Mishap
