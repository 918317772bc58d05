import Mishap.Proofs.Json.Tree

/-!
# Skipped parts

A part of a text that is skipped is passed as a whole, whatever its tree is (`skipValue_of_spells`).
How deep it is does not count, since the steps are bounded by its length alone.
-/

namespace Mishap.Json.Tree

open Reader (Blank Stops comma)

/-- What is due in a list or an object before its next part. -/
def due (first : Bool) : Reader.Due := if first then .firstOrEnd else .commaOrEnd

variable {w w' : List Char}

private theorem skipFrom_end_square (hw : Blank w) (first : Bool) (fuel : Nat)
    (outer : List Reader.Bracket) (s : List Char) :
    Reader.skipFrom (fuel + 1) (due first) (.square :: outer) (w ++ ']' :: s) =
      Reader.skipFrom fuel .commaOrEnd outer s := by
  cases first <;>
    · simp only [due, Bool.false_eq_true, if_true, if_false, Reader.skipFrom,
        Reader.skipSpace_append_cons hw (show Reader.isSpace ']' = false from rfl)]

private theorem skipFrom_end_curly (hw : Blank w) (first : Bool) (fuel : Nat)
    (outer : List Reader.Bracket) (s : List Char) :
    Reader.skipFrom (fuel + 1) (due first) (.curly :: outer) (w ++ '\x7d' :: s) =
      Reader.skipFrom fuel .commaOrEnd outer s := by
  cases first <;>
    · simp only [due, Bool.false_eq_true, if_true, if_false, Reader.skipFrom,
        Reader.skipSpace_append_cons hw (show Reader.isSpace '\x7d' = false from rfl)]

/-- Before an item its comma is passed, if one is due. -/
theorem skipFrom_item (hw : Blank w) (hw' : Blank w') (first : Bool) {c : Char}
    (hspace : Reader.isSpace c = false) (hclose : c ≠ ']') (fuel : Nat)
    (outer : List Reader.Bracket) (s : List Char) :
    ∃ v, Blank v ∧ Reader.skipFrom (fuel + 2) (due first) (.square :: outer)
        (w ++ comma first ++ w' ++ c :: s) =
      Reader.skipFrom fuel .value (.square :: outer) (v ++ c :: s) := by
  cases first with
  | true =>
    refine ⟨[], .nil, ?_⟩
    rw [due, if_pos rfl, Reader.skipFrom.eq_def]
    simp only [Reader.skipSpace_first hw hw' hspace]
    split
    · next heq _ => cases heq
    · next heq _ => cases heq
    · next heq _ => exact absurd (List.cons.inj heq).1 hclose
    · next hbracket => cases hbracket
    · rfl
  | false =>
    refine ⟨w', hw', ?_⟩
    rw [due, if_neg Bool.false_ne_true, Reader.skipFrom.eq_def]
    simp only [Reader.skipSpace_comma hw]
    rfl

/-- Before a member its comma is passed, if one is due, and then its name. -/
theorem skipFrom_member (hw : Blank w) (hw' : Blank w') (first : Bool) {k v : List Char}
    (hk : Content k) (hv : Blank v) (fuel : Nat) (outer : List Reader.Bracket) (s : List Char) :
    Reader.skipFrom (fuel + 2) (due first) (.curly :: outer)
        (w ++ comma first ++ w' ++ '"' :: (k ++ '"' :: (v ++ ':' :: s))) =
      Reader.skipFrom fuel .value (.curly :: outer) s := by
  have hquote : Reader.isSpace '"' = false := rfl
  have hname : Reader.skipFrom (fuel + 1) .part (.curly :: outer)
      ('"' :: (k ++ '"' :: (v ++ ':' :: s))) =
        Reader.skipFrom fuel .value (.curly :: outer) s := by
    rw [Reader.skipFrom, Reader.skipSpace_cons rfl]
    simp only [Reader.skipString_append hk, Reader.colon_append hv, bind, Except.bind]
  cases first with
  | true =>
    rw [due, if_pos rfl, Reader.skipFrom.eq_def]
    simp only [Reader.skipSpace_first hw hw' hquote]
    exact hname
  | false =>
    rw [due, if_neg Bool.false_ne_true, Reader.skipFrom.eq_def]
    simp only [Reader.skipSpace_comma hw]
    have hblank : Reader.skipFrom (fuel + 1) .part (.curly :: outer)
        (w' ++ '"' :: (k ++ '"' :: (v ++ ':' :: s))) = Reader.skipFrom (fuel + 1) .part
          (.curly :: outer) ('"' :: (k ++ '"' :: (v ++ ':' :: s))) := by
      rw [Reader.skipFrom, Reader.skipFrom, Reader.skipSpace_append hw']
    exact hblank.trans hname

/-- A skipped part that opens no bracket is passed as a whole. -/
theorem skipScalar_of_spells {T : Tree} {t : List Char} (h : T.Spells t) {s : List Char}
    (hs : Stops s) (harray : ∀ Ts, T ≠ .array Ts) (hobject : ∀ ms, T ≠ .object ms) :
    Reader.skipScalar (t ++ s) = .ok s := by
  cases T with
  | array Ts => exact absurd rfl (harray Ts)
  | object ms => exact absurd rfl (hobject ms)
  | null =>
    rw [Spells] at h
    subst h
    rfl
  | bool b =>
    rw [Spells] at h
    subst h
    cases b <;> rfl
  | string x =>
    rw [Spells] at h
    obtain ⟨hx, rfl⟩ := h
    rw [List.append_assoc, List.cons_append, List.singleton_append]
    exact Reader.skipString_append hx s
  | number n =>
    rw [Spells] at h
    obtain ⟨hn, rfl⟩ := h
    cases hn with
    | minus unsigned => exact Reader.skipNumber_append unsigned hs
    | plain unsigned =>
      have hnumber := Reader.skipNumber_append unsigned hs
      obtain ⟨c, t', rfl, hc⟩ := unsigned.exists_cons
      obtain ⟨hword, hquote⟩ := (tells_number (c :: t') (.inr hc)).of_number
      have hminus : c ≠ '-' := Text.of_isDigit (P := fun c => c ≠ '-') (by decide) hc
      rw [List.cons_append] at hnumber ⊢
      rw [Reader.skipScalar.eq_def]
      simp only [hword, if_neg hquote, if_neg hminus, if_pos hc]
      exact hnumber

/-- A scalar takes one step. -/
theorem skipFrom_scalar {T : Tree} {t : List Char} (h : T.Spells t) {s : List Char}
    (hs : Stops s) (harray : ∀ Ts, T ≠ .array Ts) (hobject : ∀ ms, T ≠ .object ms)
    (hw : Blank w) (fuel : Nat) (outer : List Reader.Bracket) :
    Reader.skipFrom (fuel + 1) .value outer (w ++ (t ++ s)) =
      Reader.skipFrom fuel .commaOrEnd outer s := by
  have hscalar := skipScalar_of_spells h hs harray hobject
  obtain ⟨c, t, rfl, htells⟩ := tells_of_spells h
  have hopens := htells.ne_open harray hobject
  rw [List.cons_append] at hscalar ⊢
  rw [Reader.skipFrom, Reader.skipSpace_append_cons hw htells.space]
  split
  · next heq => exact absurd (List.cons.inj heq).1 hopens.1
  · next heq => exact absurd (List.cons.inj heq).1 hopens.2
  · rw [hscalar]
    rfl

private theorem skipFrom_of_scalar {T : Tree} {t : List Char} (h : T.Spells t)
    (harray : ∀ Ts, T ≠ .array Ts) (hobject : ∀ ms, T ≠ .object ms) : ∃ n,
      n + 2 ≤ 3 * t.length ∧ ∀ w s, Blank w → Stops s → ∀ fuel outer,
        Reader.skipFrom (fuel + n) .value outer (w ++ (t ++ s)) =
          Reader.skipFrom fuel .commaOrEnd outer s := by
  obtain ⟨c, t', heq, -⟩ := tells_of_spells h
  refine ⟨1, ?_, fun w s hw hs fuel outer => skipFrom_scalar h hs harray hobject hw fuel outer⟩
  rw [heq, List.length_cons]
  omega

mutual

/-- The steps for a part are fewer than thrice its characters. -/
theorem skipFrom_of_spells : (T : Tree) → (t : List Char) → T.Spells t → ∃ n,
    n + 2 ≤ 3 * t.length ∧ ∀ w s, Blank w → Stops s → ∀ fuel outer,
      Reader.skipFrom (fuel + n) .value outer (w ++ (t ++ s)) =
        Reader.skipFrom fuel .commaOrEnd outer s
  | .array Ts, t, h => by
    rw [Spells] at h
    obtain ⟨u, hu, rfl⟩ := h
    obtain ⟨n, hn, hitems⟩ := skipFrom_of_spellsItems true Ts u hu
    refine ⟨n + 1, by simp only [List.length_append, List.length_cons, List.length_nil]; omega,
      fun w s hw _ fuel outer => ?_⟩
    rw [← Nat.add_assoc, Reader.skipFrom, List.append_assoc, List.cons_append,
      Reader.skipSpace_append_cons hw rfl]
    exact hitems s fuel outer
  | .object ms, t, h => by
    rw [Spells] at h
    obtain ⟨u, hu, rfl⟩ := h
    obtain ⟨n, hn, hmembers⟩ := skipFrom_of_spellsMembers true ms u hu
    refine ⟨n + 1, by simp only [List.length_append, List.length_cons, List.length_nil]; omega,
      fun w s hw _ fuel outer => ?_⟩
    rw [← Nat.add_assoc, Reader.skipFrom, List.append_assoc, List.cons_append,
      Reader.skipSpace_append_cons hw rfl]
    exact hmembers s fuel outer
  | .null, t, h => skipFrom_of_scalar h nofun nofun
  | .bool _, t, h => skipFrom_of_scalar h nofun nofun
  | .number _, t, h => skipFrom_of_scalar h nofun nofun
  | .string _, t, h => skipFrom_of_scalar h nofun nofun

private theorem skipFrom_of_spellsItems : (first : Bool) → (Ts : List Tree) → (u : List Char) →
    SpellsItems first Ts u → ∃ n, n ≤ 3 * u.length + 1 ∧ ∀ s fuel outer,
      Reader.skipFrom (fuel + n) (due first) (.square :: outer) (u ++ ']' :: s) =
        Reader.skipFrom fuel .commaOrEnd outer s
  | first, [], u, h => by
    rw [SpellsItems] at h
    exact ⟨1, by omega, fun s fuel outer => skipFrom_end_square h first fuel outer s⟩
  | first, T :: Ts, u, h => by
    rw [SpellsItems] at h
    obtain ⟨w, w', t, rest, hw, hw', hT, hTs, rfl⟩ := h
    obtain ⟨n, hn, hitem⟩ := skipFrom_of_spells T t hT
    obtain ⟨m, hm, hitems⟩ := skipFrom_of_spellsItems false Ts rest hTs
    refine ⟨m + n + 2, by simp only [List.length_append]; omega, fun s fuel outer => ?_⟩
    have hrest := fun v hv =>
      hitem v _ hv (stops_of_spellsItems hTs s) (fuel + m) (.square :: outer)
    obtain ⟨c, t', rfl, htells⟩ := tells_of_spells hT
    obtain ⟨v, hv, hnext⟩ := skipFrom_item hw hw' first htells.space htells.close
      (fuel + m + n) outer (t' ++ (rest ++ ']' :: s))
    rw [Reader.item_append]
    refine Eq.trans ?_ (hnext.trans ((hrest v hv).trans (hitems s fuel outer)))
    congr 1
    omega

private theorem skipFrom_of_spellsMembers : (first : Bool) → (ms : List (List Char × Tree)) →
    (u : List Char) → SpellsMembers first ms u → ∃ n, n ≤ 3 * u.length + 1 ∧ ∀ s fuel outer,
      Reader.skipFrom (fuel + n) (due first) (.curly :: outer) (u ++ '\x7d' :: s) =
        Reader.skipFrom fuel .commaOrEnd outer s
  | first, [], u, h => by
    rw [SpellsMembers] at h
    exact ⟨1, by omega, fun s fuel outer => skipFrom_end_curly h first fuel outer s⟩
  | first, (k, T) :: ms, u, h => by
    rw [SpellsMembers] at h
    obtain ⟨w, w', v, v', t, rest, hw, hw', hv, hv', hk, hT, hms, rfl⟩ := h
    obtain ⟨n, hn, hvalue⟩ := skipFrom_of_spells T t hT
    obtain ⟨m, hm, hmembers⟩ := skipFrom_of_spellsMembers false ms rest hms
    refine ⟨m + n + 2, by simp only [List.length_append, List.length_cons]; omega,
      fun s fuel outer => ?_⟩
    have hrest := hvalue v' _ hv' (stops_of_spellsMembers hms s) (fuel + m) (.curly :: outer)
    have hnext := skipFrom_member hw hw' first hk hv (fuel + m + n) outer
      (v' ++ (t ++ (rest ++ '\x7d' :: s)))
    rw [member_append]
    refine Eq.trans ?_ (hnext.trans (hrest.trans (hmembers s fuel outer)))
    congr 1
    omega

end

/-- Whatever the tree of a part is, however deep, the part is skipped as a whole. -/
theorem skipValue_of_spells {T : Tree} {t : List Char} (h : T.Spells t) {w s : List Char}
    (hw : Blank w) (hs : Stops s) : Reader.skipValue (w ++ (t ++ s)) = .ok s := by
  obtain ⟨n, hn, hskip⟩ := skipFrom_of_spells T t h
  have hfuel : 3 * (w ++ (t ++ s)).length + 3 =
      3 * (w ++ (t ++ s)).length + 2 - n + 1 + n := by
    simp only [List.length_append]
    omega
  rw [Reader.skipValue, hfuel, hskip w s hw hs, Reader.skipFrom]
  exact nofun

end Mishap.Json.Tree
