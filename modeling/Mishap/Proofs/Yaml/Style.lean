import Mishap.Proofs.Yaml.Block
import Mishap.Proofs.Yaml.Meaning
import Mishap.Proofs.Yaml.Plain
import Mishap.Proofs.Yaml.Quoted

/-!
# The styles of written scalars

The style that the writer chooses suits the text (`suits_styleOf`), so that the reader of that style
gives the text back. A key that stands before its colon takes less than the bytes within which the
reader looks for the colon (`byteSize_scalarChars_le`).
-/

namespace Mishap.Yaml

open Writer

/-- A style in which a text can be read back. -/
def Suits : Style → List Char → Prop
  | .plain, s => Unquoted s ∧ Plain.meaning s = .text
  | .single, s => Printable s ∧ '\n' ∉ s ∧ Steady s
  | .double, _ => True
  | .literal, s => s ≠ [] ∧ Printable s ∧ '\n' ∈ s

private theorem printable_of_special {s : List Char} (h : (Traits.of s).special = false) :
    Printable s :=
  fun c hc => by simpa using List.any_eq_false.mp h c hc

private theorem steady_of_allowsSingle {s : List Char} (h : (Traits.of s).allowsSingle = true) :
    Steady s := by
  simp only [Traits.allowsSingle, Bool.not_eq_true', Bool.or_eq_false_iff] at h
  obtain ⟨⟨hbreakSpace, hspaceBreak⟩, -⟩ := h
  intro a x y t heq
  have hspace := Traits.anyInner_eq_false hspaceBreak heq
  have hbreak := Traits.anyInner_eq_false hbreakSpace heq
  simp only [Bool.and_eq_false_iff, beq_eq_false_iff_ne] at hspace hbreak
  refine ⟨fun ⟨hx, hy⟩ => ?_, fun ⟨hx, hy⟩ => ?_⟩
  · exact hspace.elim (· hx) fun hnot => absurd (hy.symm.trans hnot) nofun
  · exact hbreak.elim (fun hnot => absurd (hx.symm.trans hnot) nofun) (· hy)

/-- The writer chooses a style that suits the text. -/
theorem suits_styleOf (s : List Char) : Suits (styleOf s) s := by
  unfold styleOf
  dsimp only
  split
  · next hempty =>
    rw [List.isEmpty_iff.mp hempty]
    exact ⟨nofun, nofun, fun a x y t heq => absurd heq (by simp)⟩
  · next hne =>
    have hne' : s ≠ [] := fun heq => hne (List.isEmpty_iff.mpr heq)
    split
    · next hline =>
      split
      · next hallows =>
        simp only [Traits.allowsLiteral, Bool.not_eq_true', Bool.or_eq_false_iff] at hallows
        exact ⟨hne', printable_of_special hallows.2, by simpa using hline⟩
      · trivial
    · next hline =>
      split
      · next hplain =>
        obtain ⟨hquotes, hallows⟩ := Bool.and_eq_true _ _ ▸ hplain
        refine ⟨unquoted_of_allowsPlain hne' hallows, ?_⟩
        simp only [needsQuotes, Bool.not_eq_true', Bool.or_eq_false_iff] at hquotes
        exact Classical.byContradiction fun hother => absurd hquotes.1 (by simp [hother])
      · split
        · next hallows =>
          have hspecial := hallows
          simp only [Traits.allowsSingle, Bool.not_eq_true', Bool.or_eq_false_iff] at hspecial
          exact ⟨printable_of_special hspecial.2, by simpa using hline,
            steady_of_allowsSingle hallows⟩
        · trivial

/-- A text of one line is no block. -/
theorem styleOf_ne_literal {s : List Char} (h : '\n' ∉ s) : styleOf s ≠ .literal := by
  intro heq
  have hsuits := suits_styleOf s
  rw [heq] at hsuits
  exact h hsuits.2.2

/-! ### Keys before their colon -/

private theorem byteSize_toList (s : String) : Text.byteSize s.toList = s.utf8ByteSize := by
  have hlist : ∀ t : List Char, Text.byteSize t = (String.ofList t).utf8ByteSize := by
    intro t
    induction t with
    | nil => rfl
    | cons c t ih =>
      rw [Text.byteSize_cons, ih, String.ofList_cons, String.utf8ByteSize_append,
        String.utf8ByteSize_singleton]
  rw [hlist, String.ofList_toList]

private theorem byteSize_flatMap_le {enc : Char → List Char}
    (h : ∀ c, Text.byteSize (enc c) ≤ 6 * c.utf8Size) (s : List Char) :
    Text.byteSize (s.flatMap enc) ≤ 6 * Text.byteSize s := by
  induction s with
  | nil => exact Nat.zero_le _
  | cons c s ih =>
    have hc := h c
    rw [List.flatMap_cons, Text.byteSize_append, Text.byteSize_cons]
    omega

private theorem byteSize_singleChar_le (c : Char) :
    Text.byteSize (singleChar c) ≤ 6 * c.utf8Size := by
  unfold singleChar
  split
  · next heq =>
    subst heq
    decide
  · rw [Text.byteSize_cons]
    change c.utf8Size + 0 ≤ _
    omega

private theorem byteSize_doubleChar_le (c : Char) :
    Text.byteSize (doubleChar c) ≤ 6 * c.utf8Size := by
  rcases doubleChar_cases c with ⟨heq, -⟩ | ⟨e, heq, -, hlength, hchars, -⟩
  · rw [heq, Text.byteSize_cons]
    change c.utf8Size + 0 ≤ _
    omega
  · have hascii : Text.byteSize e = e.length := by
      clear heq hlength
      induction e with
      | nil => rfl
      | cons d e ih =>
        have hd : d.utf8Size = 1 := Char.utf8Size_eq_one_iff.mpr (by
          have hhigh := (hchars d List.mem_cons_self).2
          exact UInt32.le_iff_toNat_le.mpr (Nat.le_of_lt_succ (Nat.lt_succ_of_lt hhigh)))
        rw [Text.byteSize_cons, ih fun x hx => hchars x (List.mem_cons_of_mem d hx), hd,
          List.length_cons, Nat.add_comm]
    have hback : '\\'.utf8Size = 1 := by decide
    have hpos := c.utf8Size_pos
    rw [heq, Text.byteSize_cons, hascii, hback]
    omega

/-- A key that stands before its colon takes less than the bytes within which the reader looks for
the colon. -/
theorem byteSize_scalarChars_le {k : String} (h : isSimpleKey k = true) (indent : Nat) :
    Text.byteSize (scalarChars indent k.toList) ≤ 1024 := by
  rw [isSimpleKey, Bool.and_eq_true, decide_eq_true_eq, Bool.not_eq_true', ← byteSize_toList] at h
  obtain ⟨hsize, hbreaks⟩ := h
  have hnone : ∀ c ∈ k.toList, isBreak c = false := by simpa using hbreaks
  have hline : '\n' ∉ k.toList := fun hc => absurd (hnone _ hc) (by decide)
  have hquotes : ∀ q body, Text.byteSize [q] = 1 → Text.byteSize body ≤ 6 * Text.byteSize k.toList →
      Text.byteSize (q :: body ++ [q]) ≤ 1024 := by
    intro q body hq hbody
    have hcons : q :: body ++ [q] = [q] ++ body ++ [q] := rfl
    rw [hcons, Text.byteSize_append, Text.byteSize_append, hq]
    omega
  unfold scalarChars
  split
  · omega
  · have hbody := singleBody_append indent hnone []
    rw [List.append_nil] at hbody
    refine hquotes '\'' _ rfl ?_
    rw [hbody]
    simpa [singleBody] using byteSize_flatMap_le byteSize_singleChar_le k.toList
  · exact hquotes '"' _ rfl (byteSize_flatMap_le byteSize_doubleChar_le k.toList)
  · next hstyle => exact absurd hstyle (styleOf_ne_literal hline)

end Mishap.Yaml
