import Mishap.Proofs.Json.Numeral
import Mishap.Text.Bytes

/-!
# Contents of strings

What may stand between the quotes of a string of JSON text: plain characters, short escapes, and
codes of four hexadecimal digits. A code may be half of a character, which a reader refuses without
its other half but skips all the same. Whatever follows a string, the reader makes the same of it
(`Reader.settles_stringTail`), and it is skipped as a whole (`Reader.skipString_append`). Each
written string has a content (`content_escaped`).
-/

namespace Mishap.Json

/-- The characters between the quotes of a string of JSON text. -/
inductive Content : List Char → Prop
  | nil : Content []
  | plain {c : Char} {t : List Char} (quote : c ≠ '"') (backslash : c ≠ '\\')
    (visible : ¬ c.toNat < 0x20) (rest : Content t) : Content (c :: t)
  | short {c : Char} {t : List Char} (known : c ∈ ['"', '\\', '/', 'b', 'f', 'n', 'r', 't'])
    (rest : Content t) : Content ('\\' :: c :: t)
  | code {h t : List Char} (four : h.length = 4)
    (hex : ∀ c ∈ h, (Text.hexValue? c).isSome = true) (rest : Content t) :
    Content ('\\' :: 'u' :: (h ++ t))

namespace Reader

/-! ### Escapes -/

/-- Four digits are a code, whatever follows them. -/
theorem fourHex_append {h : List Char} (four : h.length = 4)
    (hex : ∀ c ∈ h, (Text.hexValue? c).isSome = true) :
    ∃ n, ∀ s, fourHex (h ++ s) = .ok n := by
  match h, four with
  | [a, b, c, d], _ =>
    simp only [List.mem_cons, List.not_mem_nil, or_false, forall_eq_or_imp, forall_eq,
      Option.isSome_iff_exists] at hex
    obtain ⟨⟨x, hx⟩, ⟨y, hy⟩, ⟨z, hz⟩, ⟨w, hw⟩⟩ := hex
    have hsize : ¬ Text.byteSize [a, b, c, d] < 4 := by
      have ha := a.utf8Size_pos
      have hb := b.utf8Size_pos
      have hc := c.utf8Size_pos
      have hd := d.utf8Size_pos
      simp only [Text.byteSize_cons]
      omega
    refine ⟨((x * 16 + y) * 16 + z) * 16 + w, fun s => ?_⟩
    have htake : ([a, b, c, d] ++ s).take 4 = [a, b, c, d] := rfl
    rw [fourHex, htake, if_neg hsize]
    simp only [List.map_cons, List.map_nil, hx, hy, hz, hw]

/-- Behind the first half of a character only the code of the second half is taken. -/
theorem lowSurrogate_append (high : Nat) {t : List Char} (ht : Content t) :
    (∀ s, ∃ f, lowSurrogate high (t ++ '"' :: s) = .error f) ∨
      ∃ c h t', t = '\\' :: 'u' :: (h ++ t') ∧ h.length = 4 ∧ Content t' ∧
        ∀ s, lowSurrogate high (t ++ '"' :: s) = .ok c := by
  cases ht with
  | nil => exact .inl fun s => ⟨_, rfl⟩
  | @plain c t quote backslash visible rest =>
    refine .inl fun s => ?_
    rw [List.cons_append]
    unfold lowSurrogate
    split
    · next heq => exact absurd heq nofun
    · next heq => exact absurd (List.cons.inj heq).1 backslash
    · exact ⟨_, rfl⟩
  | @short c t known rest =>
    refine .inl fun s => ?_
    have hc : c ≠ 'u' := by
      rintro rfl
      exact absurd known (by decide)
    rw [List.cons_append, List.cons_append, lowSurrogate]
    · exact ⟨_, rfl⟩
    · exact nofun
    · intro u heq
      exact hc (List.cons.inj heq).1
  | @code h t four hex rest =>
    obtain ⟨low, hlow⟩ := fourHex_append four hex
    have hread : ∀ s, lowSurrogate high ('\\' :: 'u' :: (h ++ t) ++ '"' :: s) =
        if 0xDC00 ≤ low ∧ low ≤ 0xDFFF then
          .ok (Char.ofNat (0x10000 + (high - 0xD800) * 0x400 + (low - 0xDC00)))
        else refuseHere .loneSurrogate ((h ++ (t ++ '"' :: s)).drop 4) := by
      intro s
      rw [List.cons_append, List.cons_append, List.append_assoc, lowSurrogate]
      simp only [hlow]
      rfl
    by_cases hrange : 0xDC00 ≤ low ∧ low ≤ 0xDFFF
    · exact .inr ⟨_, h, t, rfl, four, rest, fun s => (hread s).trans (if_pos hrange)⟩
    · exact .inl fun s => ⟨_, (hread s).trans (if_neg hrange)⟩

/-- A code stands for a character, together with the code behind it where it is half of one, or it
is refused. -/
theorem escape_code {h t : List Char} (four : h.length = 4)
    (hex : ∀ c ∈ h, (Text.hexValue? c).isSome = true) (ht : Content t) :
    (∀ s, ∃ f, escape ('u' :: (h ++ t) ++ '"' :: s) = .error f) ∨
      ∃ c e t', 'u' :: (h ++ t) = e ++ t' ∧ t'.length ≤ t.length ∧ Content t' ∧
        ∀ s, escape ('u' :: (h ++ t) ++ '"' :: s) = .ok (c, e.length) := by
  obtain ⟨n, hn⟩ := fourHex_append four hex
  have hread : ∀ s, escape ('u' :: (h ++ t) ++ '"' :: s) =
      if 0xDC00 ≤ n ∧ n ≤ 0xDFFF then refuseHere .loneSurrogate (t ++ '"' :: s)
      else if 0xD800 ≤ n ∧ n ≤ 0xDBFF then (lowSurrogate n (t ++ '"' :: s)).map fun c => (c, 11)
      else .ok (Char.ofNat n, 5) := by
    intro s
    rw [List.cons_append, List.append_assoc, escape]
    simp only [hn, ← four, List.drop_left]
    rfl
  by_cases hlow : 0xDC00 ≤ n ∧ n ≤ 0xDFFF
  · exact .inl fun s => ⟨_, (hread s).trans (if_pos hlow)⟩
  by_cases hhigh : 0xD800 ≤ n ∧ n ≤ 0xDBFF
  · rcases lowSurrogate_append n ht with hrefused | ⟨c, h', t', rfl, four', ht', hpair⟩
    · refine .inl fun s => ?_
      obtain ⟨f, hf⟩ := hrefused s
      refine ⟨f, ?_⟩
      rw [hread, if_neg hlow, if_pos hhigh, hf]
      rfl
    · refine .inr ⟨c, 'u' :: (h ++ '\\' :: 'u' :: h'), t', by simp, by simp; omega, ht',
        fun s => ?_⟩
      rw [hread, if_neg hlow, if_pos hhigh, hpair]
      simp [four, four', Except.map]
  · refine .inr ⟨Char.ofNat n, 'u' :: h, t, rfl, Nat.le_refl _, ht, fun s => ?_⟩
    rw [hread, if_neg hlow, if_neg hhigh, List.length_cons, four]

private theorem escape_short {c : Char} (known : c ∈ ['"', '\\', '/', 'b', 'f', 'n', 'r', 't']) :
    ∃ d, ∀ s, escape (c :: s) = .ok (d, 1) := by
  simp only [List.mem_cons, List.not_mem_nil, or_false] at known
  rcases known with rfl | rfl | rfl | rfl | rfl | rfl | rfl | rfl <;> exact ⟨_, fun s => rfl⟩

/-! ### Reading strings -/

/-- Whatever follows a string, the reader takes all of it and makes the same of it. -/
theorem settles_stringTail {t : List Char} (ht : Content t) :
    ∃ x?, ∀ s, Gives (stringTail (t ++ '"' :: s)) x? s := by
  induction hlength : t.length using Nat.strongRecOn generalizing t with
  | ind n ih =>
    subst hlength
    cases ht with
    | nil =>
      refine ⟨some [], fun s => ?_⟩
      rw [List.nil_append, stringTail, if_pos rfl]
      rfl
    | @plain c t quote backslash visible rest =>
      obtain ⟨x?, hx⟩ := ih t.length (Nat.lt_succ_self _) rest rfl
      refine ⟨x?.map (c :: ·), fun s => ?_⟩
      rw [List.cons_append, stringTail, if_neg quote, if_neg backslash, if_neg visible]
      exact (hx s).map _
    | @short c t known rest =>
      obtain ⟨d, hd⟩ := escape_short known
      obtain ⟨x?, hx⟩ := ih t.length (by simp only [List.length_cons]; omega) rest rfl
      refine ⟨x?.map (d :: ·), fun s => ?_⟩
      rw [List.cons_append, List.cons_append, stringTail, if_neg (by decide), if_pos rfl]
      simp only [hd]
      exact (hx s).map _
    | @code h t four hex rest =>
      rcases escape_code four hex rest with hrefused | ⟨c, e, t', heq, hle, ht', hreads⟩
      · refine ⟨none, fun s => ?_⟩
        obtain ⟨f, hf⟩ := hrefused s
        rw [List.cons_append, stringTail, if_neg (by decide), if_pos rfl, hf]
        exact ⟨f, rfl⟩
      · obtain ⟨x?, hx⟩ := ih t'.length (by simp; omega) ht' rfl
        refine ⟨x?.map (c :: ·), fun s => ?_⟩
        rw [List.cons_append, stringTail, if_neg (by decide), if_pos rfl, hreads]
        simp only [heq, List.append_assoc, List.drop_left]
        exact (hx s).map _

/-! ### Skipping strings -/

/-- A string is skipped as a whole. -/
theorem skipString_append {t : List Char} (ht : Content t) (s : List Char) :
    skipString (t ++ '"' :: s) = .ok s := by
  induction ht with
  | nil => rw [List.nil_append, skipString, if_pos rfl]
  | plain quote backslash visible _ ih =>
    rw [List.cons_append, skipString, if_neg quote, if_neg backslash, if_neg visible]
    exact ih
  | @short c t known _ ih =>
    have hlength : escapeLength (c :: (t ++ '"' :: s)) = .ok 1 := by
      have hc : c ≠ 'u' := by
        rintro rfl
        exact absurd known (by decide)
      rw [escapeLength, if_pos known]
      exact hc
    rw [List.cons_append, List.cons_append, skipString, if_neg (by decide), if_pos rfl, hlength]
    exact ih
  | @code h t four hex _ ih =>
    obtain ⟨n, hn⟩ := fourHex_append four hex
    have hlength : escapeLength ('u' :: (h ++ (t ++ '"' :: s))) = .ok 5 := by
      rw [escapeLength, hn]
      rfl
    rw [List.cons_append, List.cons_append, List.append_assoc, skipString, if_neg (by decide),
      if_pos rfl, hlength]
    have hdrop : ('u' :: (h ++ (t ++ '"' :: s))).drop 5 = t ++ '"' :: s := by
      rw [List.drop_succ_cons, ← four, List.drop_left]
    simp only [hdrop]
    exact ih

end Reader

/-! ### Written strings -/

/-- Two contents of a string, one behind the other, are one. -/
theorem Content.append {t u : List Char} (ht : Content t) (hu : Content u) : Content (t ++ u) := by
  induction ht with
  | nil => exact hu
  | plain quote backslash visible _ ih => exact .plain quote backslash visible ih
  | short known _ ih => exact .short known ih
  | code four hex _ ih =>
    rw [List.cons_append, List.cons_append, List.append_assoc]
    exact .code four hex ih

private theorem content_escapeChar (c : Char) : Content (escapeChar c) := by
  unfold escapeChar
  split
  · exact .short (by decide) .nil
  · exact .short (by decide) .nil
  · exact .short (by decide) .nil
  · exact .short (by decide) .nil
  · exact .short (by decide) .nil
  · exact .short (by decide) .nil
  · exact .short (by decide) .nil
  · next quote backslash _ _ _ _ _ =>
    split
    · next hlow =>
      have hdigits : ∀ n < 0x20, (Text.padLeft '0' 4 (Text.hex n)).length = 4 ∧
          (Text.padLeft '0' 4 (Text.hex n)).all (fun d => (Text.hexValue? d).isSome) = true := by
        decide
      obtain ⟨four, hex⟩ := hdigits c.toNat hlow
      have hcode := Content.code four (fun d hd => List.all_eq_true.mp hex d hd) .nil
      rwa [List.append_nil] at hcode
    · next hhigh => exact .plain quote backslash hhigh .nil

/-- Every written string has a content. -/
theorem content_escaped (cs : List Char) : Content (cs.flatMap escapeChar) := by
  induction cs with
  | nil => exact .nil
  | cons c cs ih => exact (content_escapeChar c).append ih

end Mishap.Json
