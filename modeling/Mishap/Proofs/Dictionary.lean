import Mishap.Dictionary

/-!
# Dictionaries in order

Writing keeps the keys in order, so that a dictionary of any entries has no key twice
(`Ascending.insert`, `ascending_ofEntries`), and under two keys either may be written first
(`insert_comm`). Entries whose keys ascend stay as they are when they are written one after the
other into an empty dictionary (`ofEntries_of_ascending`). Where no key stands twice, what is found
after writing entries is what is found among them (`get?_insertAll`); else it is the last that was
written (`get?_insertAll_eq`). Changing every value leaves the keys alone (`get?_mapValues`,
`mapValues_erase`).
-/

namespace Mishap.Dictionary

variable {α β : Type}

/-- The keys ascend, so that none stands twice. -/
def Ascending (d : Dictionary α) : Prop := d.Pairwise fun e f => e.1 < f.1

instance (d : Dictionary α) : Decidable (Ascending d) :=
  inferInstanceAs (Decidable (List.Pairwise _ _))

/-- Keys in order are all different. -/
theorem Ascending.nodup {d : Dictionary α} (h : Ascending d) : (d.map (·.1)).Nodup := by
  rw [List.Nodup, List.pairwise_map]
  refine List.Pairwise.imp (fun {e f} hlt heq => ?_) h
  rw [heq] at hlt
  exact String.lt_irrefl _ hlt

/-- A key has no value exactly if it is not among the keys. -/
theorem get?_eq_none_iff {key : String} {d : Dictionary α} :
    get? key d = none ↔ key ∉ d.map (·.1) := by
  induction d with
  | nil => simp
  | cons e rest ih =>
    obtain ⟨k, v⟩ := e
    rw [get?, List.map_cons, List.mem_cons, not_or, ← ih]
    by_cases h : k = key
    · simp [h]
    · simp [h, Ne.symm h]

/-- After writing there is the new entry and nothing that was not there before. -/
theorem mem_insert {key : String} {value : α} {d : Dictionary α} {e : String × α}
    (h : e ∈ insert key value d) : e = (key, value) ∨ e ∈ d := by
  induction d with
  | nil => exact .inl (List.mem_singleton.mp h)
  | cons f rest ih =>
    obtain ⟨k, v⟩ := f
    rw [insert] at h
    split at h
    · exact (List.mem_cons.mp h).imp_right (List.mem_cons_of_mem _)
    split at h
    · exact List.mem_cons.mp h
    · rcases List.mem_cons.mp h with rfl | h
      · exact .inr List.mem_cons_self
      · exact (ih h).imp_right (List.mem_cons_of_mem _)

/-- Writing keeps the keys in order. -/
theorem Ascending.insert {d : Dictionary α} (h : Ascending d) (key : String) (value : α) :
    Ascending (d.insert key value) := by
  induction d with
  | nil => exact List.pairwise_singleton _ _
  | cons f rest ih =>
    obtain ⟨k, v⟩ := f
    obtain ⟨hfirst, hrest⟩ := List.pairwise_cons.mp h
    rw [Dictionary.insert]
    split
    · next heq =>
      subst heq
      exact List.pairwise_cons.mpr ⟨hfirst, hrest⟩
    · next hne =>
      split
      · next hlt =>
        refine List.pairwise_cons.mpr ⟨fun e he => ?_, h⟩
        rcases List.mem_cons.mp he with rfl | he
        · exact hlt
        · exact String.lt_trans hlt (hfirst e he)
      · next hle =>
        have hlt : k < key := Std.lt_of_le_of_ne (String.not_lt.mp hle) hne
        refine List.pairwise_cons.mpr ⟨fun e he => ?_, ih hrest⟩
        rcases mem_insert he with rfl | he
        · exact hlt
        · exact hfirst e he

private theorem insert_comm_of_lt {k l : String} (hlt : k < l) (v w : α) (d : Dictionary α) :
    insert k v (insert l w d) = insert l w (insert k v d) := by
  have hnot : ¬ l < k := String.lt_asymm hlt
  have hne : k ≠ l := fun heq => String.lt_irrefl l (heq ▸ hlt)
  induction d with
  | nil => simp [insert, hne, hne.symm, hlt, hnot]
  | cons e rest ih =>
    obtain ⟨m, x⟩ := e
    by_cases hk : m = k
    · subst hk
      simp [insert, hne, hnot]
    by_cases hl : m = l
    · subst hl
      simp only [insert, if_neg hk, if_neg hne, if_neg hnot, if_pos hlt, if_true]
    by_cases hkm : k < m
    · by_cases hlm : l < m
      · simp [insert, hk, hl, hkm, hlm, hne, hne.symm, hlt, hnot]
      · simp [insert, hk, hl, hkm, hlm, hne, hnot]
    · have hlm : ¬ l < m := fun h => hkm (String.lt_trans hlt h)
      simp [insert, hk, hl, hkm, hlm, ih]

/-- Under two different keys either may be written first. -/
theorem insert_comm {k l : String} (hne : k ≠ l) (v w : α) (d : Dictionary α) :
    insert k v (insert l w d) = insert l w (insert k v d) := by
  by_cases hlt : k < l
  · exact insert_comm_of_lt hlt v w d
  · have hgt : l < k := Std.lt_of_le_of_ne (String.not_lt.mp hlt) hne.symm
    exact (insert_comm_of_lt hgt w v d).symm

/-- Keys stay in order, whatever is inserted. -/
theorem Ascending.insertAll {d : Dictionary α} (h : Ascending d) (entries : List (String × α)) :
    Ascending (d.insertAll entries) := by
  induction entries generalizing d with
  | nil => exact h
  | cons e rest ih => exact ih (h.insert e.1 e.2)

/-- Whatever the entries are, the dictionary made of them has its keys in order. -/
theorem ascending_ofEntries (entries : List (String × α)) : Ascending (ofEntries entries) :=
  Ascending.insertAll List.Pairwise.nil entries

/-- What is taken out leaves the other keys in order. -/
theorem Ascending.erase {d : Dictionary α} (h : Ascending d) (key : String) :
    Ascending (d.erase key) :=
  List.Pairwise.filter _ h

/-- Changed values leave the keys in order. -/
theorem Ascending.mapValues {d : Dictionary α} (h : Ascending d) (f : α → β) :
    Ascending (d.mapValues f) :=
  List.pairwise_map.mpr h

/-- Each entry is found under its key. -/
theorem get?_of_mem {d : Dictionary α} (h : (d.map (·.1)).Nodup) {e : String × α} (he : e ∈ d) :
    get? e.1 d = some e.2 := by
  induction d with
  | nil => exact absurd he List.not_mem_nil
  | cons f rest ih =>
    obtain ⟨k, v⟩ := f
    obtain ⟨hfirst, hrest⟩ := List.nodup_cons.mp h
    rcases List.mem_cons.mp he with rfl | hmem
    · exact if_pos rfl
    · have hkey : e.1 ∈ rest.map (·.1) := List.mem_map_of_mem hmem
      have hne : k ≠ e.1 := fun heq => hfirst (heq ▸ hkey)
      rw [get?, if_neg hne]
      exact ih hrest hmem

/-- A key above all others is written at the end. -/
theorem insert_of_lt {key : String} {value : α} {d : Dictionary α} (h : ∀ e ∈ d, e.1 < key) :
    insert key value d = d ++ [(key, value)] := by
  induction d with
  | nil => rfl
  | cons e rest ih =>
    obtain ⟨k, v⟩ := e
    have hlt : k < key := h (k, v) List.mem_cons_self
    have hne : k ≠ key := by
      rintro rfl
      exact String.lt_irrefl k hlt
    rw [insert, if_neg hne, if_neg (String.lt_asymm hlt),
      ih fun e he => h e (List.mem_cons_of_mem _ he), List.cons_append]

/-- Entries that go on ascending are written at the end. -/
theorem insertAll_of_ascending {entries d : Dictionary α} (h : Ascending (d ++ entries)) :
    insertAll entries d = d ++ entries := by
  induction entries generalizing d with
  | nil => exact (List.append_nil d).symm
  | cons e rest ih =>
    obtain ⟨key, value⟩ := e
    have hlast : ∀ f ∈ d, f.1 < key := fun f hf =>
      (List.pairwise_append.mp h).2.2 f hf (key, value) List.mem_cons_self
    have hmoved : d ++ (key, value) :: rest = d ++ [(key, value)] ++ rest := by simp
    rw [hmoved] at h ⊢
    rw [insertAll, List.foldl_cons, insert_of_lt hlast]
    exact ih h

/-- A dictionary with its keys in order is made of its own entries. -/
theorem ofEntries_of_ascending {d : Dictionary α} (h : Ascending d) : ofEntries d = d :=
  insertAll_of_ascending h

/-- Where no key stands twice among the entries that are written, each of them is found. -/
theorem get?_insertAll {entries : List (String × α)} (h : (entries.map (·.1)).Nodup) (key : String)
    (d : Dictionary α) :
    get? key (insertAll entries d) = (get? key entries).or (get? key d) := by
  induction entries generalizing d with
  | nil => rfl
  | cons e rest ih =>
    obtain ⟨k, v⟩ := e
    obtain ⟨hfirst, hrest⟩ := List.nodup_cons.mp h
    rw [insertAll, List.foldl_cons]
    refine (ih hrest _).trans ?_
    rw [get?_insert, get?]
    split
    · next heq =>
      rw [← heq, get?_eq_none_iff.mpr hfirst, Option.none_or, Option.some_or]
    · rfl

/-- What is found in a new dictionary of entries is what is found among them. -/
theorem get?_ofEntries {entries : List (String × α)} (h : (entries.map (·.1)).Nodup)
    (key : String) : get? key (ofEntries entries) = get? key entries := by
  rw [ofEntries, get?_insertAll h, get?_nil, Option.or_none]

private theorem get?_append (key : String) (d d' : Dictionary α) :
    get? key (d ++ d') = (get? key d).or (get? key d') := by
  induction d with
  | nil => rfl
  | cons e rest ih =>
    rw [List.cons_append, get?, get?, ih]
    split <;> rfl

/-- Of the entries that are written under a key the last one stands. -/
theorem get?_insertAll_eq (entries : List (String × α)) (key : String) (d : Dictionary α) :
    get? key (insertAll entries d) = (get? key entries.reverse).or (get? key d) := by
  induction entries generalizing d with
  | nil => rfl
  | cons e rest ih =>
    rw [insertAll, List.foldl_cons]
    refine (ih _).trans ?_
    rw [get?_insert, List.reverse_cons, get?_append, Option.or_assoc]
    congr 1
    rw [get?]
    split <;> rfl

/-- Among numbered entries, looked through from behind, the last one of a key is found. -/
theorem get?_reverse_filterMap {f : Nat → Option (String × α)} {n : Nat} {key : String} {v : α} :
    get? key ((List.range n).filterMap f).reverse = some v ↔
      ∃ i < n, f i = some (key, v) ∧ ∀ j, i < j → j < n → ∀ w, f j ≠ some (key, w) := by
  induction n with
  | zero => simp
  | succ n ih =>
    have hsplit : ((List.range (n + 1)).filterMap f).reverse =
        (f n).toList ++ ((List.range n).filterMap f).reverse := by
      rw [List.range_succ, List.filterMap_append, List.reverse_append]
      cases hf : f n <;> simp [hf]
    rw [hsplit, get?_append]
    by_cases hlast : ∃ w, f n = some (key, w)
    · obtain ⟨w, hw⟩ := hlast
      have hfound : get? key (f n).toList = some w := by rw [hw]; exact if_pos rfl
      rw [hfound, Option.some_or]
      constructor
      · rintro ⟨⟩
        exact ⟨n, Nat.lt_succ_self n, hw, fun j hj hj' => by omega⟩
      · rintro ⟨i, hi, hv, hlater⟩
        rcases Nat.lt_succ_iff_lt_or_eq.mp hi with hlt | rfl
        · exact absurd hw (hlater n hlt (Nat.lt_succ_self n) w)
        · cases hw.symm.trans hv
          rfl
    · have hmissed : get? key (f n).toList = none := by
        cases hf : f n with
        | none => rfl
        | some e =>
          have hne : e.1 ≠ key := fun heq => hlast ⟨e.2, by rw [hf, ← heq]⟩
          exact if_neg hne
      rw [hmissed, Option.none_or, ih]
      constructor
      · rintro ⟨i, hi, hv, hlater⟩
        refine ⟨i, Nat.lt_succ_of_lt hi, hv, fun j hj hj' w hw => ?_⟩
        rcases Nat.lt_succ_iff_lt_or_eq.mp hj' with hlt | rfl
        · exact hlater j hj hlt w hw
        · exact hlast ⟨w, hw⟩
      · rintro ⟨i, hi, hv, hlater⟩
        rcases Nat.lt_succ_iff_lt_or_eq.mp hi with hlt | rfl
        · exact ⟨i, hlt, hv, fun j hj hj' => hlater j hj (Nat.lt_succ_of_lt hj')⟩
        · exact absurd ⟨v, hv⟩ hlast

/-- A key has the changed value of what it had. -/
theorem get?_mapValues (f : α → β) (key : String) (d : Dictionary α) :
    get? key (mapValues f d) = (get? key d).map f := by
  induction d with
  | nil => rfl
  | cons e rest ih =>
    obtain ⟨k, v⟩ := e
    change (if k = key then some (f v) else get? key (mapValues f rest)) = _
    rw [get?, ih]
    split <;> rfl

/-- Changing the values and erasing a key go in either order. -/
theorem mapValues_erase (f : α → β) (key : String) (d : Dictionary α) :
    mapValues f (erase key d) = erase key (mapValues f d) := by
  simp [mapValues, erase, List.filter_map, Function.comp_def]

end Mishap.Dictionary
