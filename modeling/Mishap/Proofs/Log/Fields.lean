import Mathlib.Algebra.Group.Nat.Even
import Mishap.Effect
import Mishap.Proofs.Dictionary

/-!
# Fields of records

An alternating list of names and values is read two at a time, so its fields are those of its pairs,
by number (`fieldsOfFlat_eq`), and what stands behind an even number of items is read for itself
(`fieldsOfFlat_append`). In the object of the fields each name has the value of the last pair that
names it (`fields_paired`).
-/

namespace Mishap

/-- The field that a pair of an alternating list gives: its first part has to be a text. -/
def pairAt? (kv : List Json) (i : Nat) : Option LogField := do
  let key ← kv[2 * i]?.bind Json.asString?
  let value ← kv[2 * i + 1]?
  some (key, value)

/-- Fields as an alternating list of names and values. -/
def flatOfFields (fields : List LogField) : List Json := fields.flatMap fun f => [.string f.1, f.2]

private theorem Json.asString?_eq_some_iff {v : Json} {t : String} :
    v.asString? = some t ↔ v = .string t := by
  cases v <;> simp [asString?]

private theorem pairAt?_eq_some_iff {kv : List Json} {i : Nat} {key : String} {v : Json} :
    pairAt? kv i = some (key, v) ↔
      kv[2 * i]? = some (.string key) ∧ kv[2 * i + 1]? = some v := by
  simp only [pairAt?, Option.bind_eq_bind, Option.bind_eq_some_iff, Json.asString?_eq_some_iff,
    Option.some.injEq, Prod.mk.injEq]
  constructor
  · rintro ⟨_, ⟨_, hkey, rfl⟩, _, hvalue, rfl, rfl⟩
    exact ⟨hkey, hvalue⟩
  · rintro ⟨hkey, hvalue⟩
    exact ⟨key, ⟨_, hkey, rfl⟩, v, hvalue, rfl, rfl⟩

/-- A pair is there only if both of its parts are. -/
theorem lt_of_pairAt? {kv : List Json} {i : Nat} {f : LogField} (h : pairAt? kv i = some f) :
    i < kv.length / 2 := by
  obtain ⟨hvalue, -⟩ := List.getElem?_eq_some_iff.mp (pairAt?_eq_some_iff.mp h).2
  omega

/-- Behind the first pair the numbers go on by one. -/
theorem pairAt?_succ (x y : Json) (kv : List Json) (i : Nat) :
    pairAt? (x :: y :: kv) (i + 1) = pairAt? kv i := by
  rw [pairAt?, pairAt?, Nat.mul_add]
  rfl

private theorem fieldsOfFlat_cons_cons (x y : Json) (kv : List Json) :
    fieldsOfFlat (x :: y :: kv) = (pairAt? (x :: y :: kv) 0).toList ++ fieldsOfFlat kv := by
  cases x <;> rfl

private theorem fieldsOfFlat_singleton (x : Json) : fieldsOfFlat [x] = [] := by
  cases x <;> rfl

/-- The fields are those of the pairs, in their order. -/
theorem fieldsOfFlat_eq :
    ∀ kv : List Json, fieldsOfFlat kv = (List.range (kv.length / 2)).filterMap (pairAt? kv)
  | [] => rfl
  | [x] => by
    rw [fieldsOfFlat_singleton, List.length_singleton]
    rfl
  | x :: y :: kv => by
    have hlength : (x :: y :: kv).length / 2 = kv.length / 2 + 1 :=
      Nat.add_div_right kv.length Nat.two_pos
    have hrest : pairAt? (x :: y :: kv) ∘ Nat.succ = pairAt? kv := funext (pairAt?_succ x y kv)
    rw [fieldsOfFlat_cons_cons, fieldsOfFlat_eq kv, hlength, List.range_succ_eq_map,
      List.filterMap_cons, List.filterMap_map, hrest]
    cases pairAt? (x :: y :: kv) 0 <;> rfl

example : fieldsOfFlat [.nat 1, .string "a", .string "b", .nat 2, .string "c"] =
    [("b", .nat 2)] := by
  rfl

/-- Behind an even number of items the pairs begin anew. -/
theorem fieldsOfFlat_append :
    ∀ {kv : List Json}, Even kv.length → ∀ kv', fieldsOfFlat (kv ++ kv') =
      fieldsOfFlat kv ++ fieldsOfFlat kv'
  | [], _, _ => rfl
  | [_], h, _ => absurd h Nat.not_even_one
  | x :: y :: kv, h, kv' => by
    have heven : Even kv.length := by
      rw [List.length_cons, List.length_cons, Nat.even_add_one, Nat.even_add_one, not_not] at h
      exact h
    have hfirst : pairAt? (x :: y :: (kv ++ kv')) 0 = pairAt? (x :: y :: kv) 0 := rfl
    rw [List.cons_append, List.cons_append, fieldsOfFlat_cons_cons, fieldsOfFlat_append heven,
      hfirst, fieldsOfFlat_cons_cons, List.append_assoc]

private theorem fieldsOfFlat_flatOfFields (fields : List LogField) :
    fieldsOfFlat (flatOfFields fields) = fields := by
  induction fields with
  | nil => rfl
  | cons f fields ih => exact congrArg (f :: ·) ih

/-- In the object of the fields a name has the value of the last pair that names it. -/
theorem member?_fieldsOfFlat {kv : List Json} {key : String} {v : Json} :
    (fieldsToJson (fieldsOfFlat kv)).member? key = some v ↔
      ∃ i, pairAt? kv i = some (key, v) ∧ ∀ j, i < j → ∀ w, pairAt? kv j ≠ some (key, w) := by
  change Dictionary.get? key (Dictionary.insertAll (fieldsOfFlat kv) []) = some v ↔ _
  rw [Dictionary.get?_insertAll_eq, Dictionary.get?_nil, Option.or_none, fieldsOfFlat_eq,
    Dictionary.get?_reverse_filterMap]
  constructor
  · rintro ⟨i, -, hv, hlater⟩
    exact ⟨i, hv, fun j hj w hw => hlater j hj (lt_of_pairAt? hw) w hw⟩
  · rintro ⟨i, hv, hlater⟩
    exact ⟨i, lt_of_pairAt? hv, hv, fun j hj _ => hlater j hj⟩

/-- The names in the object are those of the pairs. -/
theorem mem_names_fieldsOfFlat {kv : List Json} {key : String} :
    key ∈ (Dictionary.ofEntries (fieldsOfFlat kv)).map (·.1) ↔
      ∃ i v, pairAt? kv i = some (key, v) := by
  have hpaired : key ∈ (fieldsOfFlat kv).map (·.1) ↔ ∃ i v, pairAt? kv i = some (key, v) := by
    rw [List.mem_map]
    constructor
    · rintro ⟨⟨_, v⟩, hmem, rfl⟩
      rw [fieldsOfFlat_eq, List.mem_filterMap] at hmem
      obtain ⟨i, -, hi⟩ := hmem
      exact ⟨i, v, hi⟩
    · rintro ⟨i, v, hi⟩
      refine ⟨(key, v), ?_, rfl⟩
      rw [fieldsOfFlat_eq, List.mem_filterMap]
      exact ⟨i, List.mem_range.mpr (lt_of_pairAt? hi), hi⟩
  rw [← hpaired, ← not_iff_not, ← Dictionary.get?_eq_none_iff, Dictionary.ofEntries,
    Dictionary.get?_insertAll_eq, Dictionary.get?_nil, Option.or_none,
    Dictionary.get?_eq_none_iff, List.map_reverse, List.mem_reverse]

/-- How an alternating list of names and values is read. -/
structure Paired (kv : List Json) : Prop where
  /-- Its fields are those of its pairs, in order: a pair gives one if its first part is a text. -/
  pairs : fieldsOfFlat kv = (List.range (kv.length / 2)).filterMap (pairAt? kv)
  pair : ∀ i key v, pairAt? kv i = some (key, v) ↔
    kv[2 * i]? = some (.string key) ∧ kv[2 * i + 1]? = some v
  /-- A last item without a partner gives nothing. -/
  unpaired : Even kv.length → ∀ v, fieldsOfFlat (kv ++ [v]) = fieldsOfFlat kv
  append : Even kv.length → ∀ kv', fieldsOfFlat (kv ++ kv') = fieldsOfFlat kv ++ fieldsOfFlat kv'
  /-- Their object has the names of the pairs, each once. -/
  names : ∃ d, fieldsToJson (fieldsOfFlat kv) = .object d ∧ (d.map (·.1)).Nodup ∧
    ∀ key, key ∈ d.map (·.1) ↔ ∃ i v, pairAt? kv i = some (key, v)
  /-- A name stands there with the value of its last pair. -/
  last : ∀ key v, (fieldsToJson (fieldsOfFlat kv)).member? key = some v ↔
    ∃ i, pairAt? kv i = some (key, v) ∧ ∀ j, i < j → ∀ w, pairAt? kv j ≠ some (key, w)

/-- Alternating lists are read pair by pair, and fields are read back from their own list. -/
theorem fields_paired :
    (∀ kv, Paired kv) ∧ ∀ fields, fieldsOfFlat (flatOfFields fields) = fields := by
  refine ⟨fun kv => ?_, fieldsOfFlat_flatOfFields⟩
  constructor
  case pairs => exact fieldsOfFlat_eq kv
  case pair => exact fun i key v => pairAt?_eq_some_iff
  case unpaired =>
    intro heven v
    rw [fieldsOfFlat_append heven, fieldsOfFlat_singleton, List.append_nil]
  case append => exact fieldsOfFlat_append
  case names =>
    have hascending := Dictionary.ascending_ofEntries (fieldsOfFlat kv)
    exact ⟨_, rfl, hascending.nodup, fun key => mem_names_fieldsOfFlat⟩
  case last => exact fun key v => member?_fieldsOfFlat

end Mishap
