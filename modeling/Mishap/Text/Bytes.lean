/-!
# Lengths in bytes

How many bytes a text takes in UTF-8, and a text cut at a number of bytes.
-/

namespace Mishap.Text

/-- The number of bytes that a text takes. -/
def byteSize (s : List Char) : Nat := s.foldl (fun n c => n + c.utf8Size) 0

/-- The characters that lie within the first bytes. -/
def takeBytes : Nat → List Char → List Char
  | _, [] => []
  | n, c :: s => if c.utf8Size ≤ n then c :: takeBytes (n - c.utf8Size) s else []

/-- The characters that do not lie within the first bytes. -/
def dropBytes : Nat → List Char → List Char
  | _, [] => []
  | n, c :: s => if c.utf8Size ≤ n then dropBytes (n - c.utf8Size) s else c :: s

/-- A cut loses nothing. -/
theorem takeBytes_append_dropBytes (n : Nat) (s : List Char) :
    takeBytes n s ++ dropBytes n s = s := by
  induction s generalizing n with
  | nil => rfl
  | cons c s ih =>
    simp only [takeBytes, dropBytes]
    split
    · rw [List.cons_append, ih]
    · rfl

/-- The bytes of two texts are those of each. -/
theorem byteSize_append (a b : List Char) : byteSize (a ++ b) = byteSize a + byteSize b := by
  have hfrom : ∀ (n : Nat) (s : List Char),
      s.foldl (fun n c => n + c.utf8Size) n = n + byteSize s := by
    intro n s
    induction s generalizing n with
    | nil => rfl
    | cons c s ih =>
      rw [byteSize, List.foldl_cons, List.foldl_cons, ih, ih (0 + _), Nat.zero_add, Nat.add_assoc]
  rw [byteSize, List.foldl_append, hfrom, hfrom, Nat.zero_add]

/-- The bytes of a text are those of its first character and those of the others. -/
theorem byteSize_cons (c : Char) (s : List Char) : byteSize (c :: s) = c.utf8Size + byteSize s :=
  (byteSize_append [c] s).trans (congrArg (· + byteSize s) (Nat.zero_add _))

/-- A cut behind a part gives the part and the rest. -/
theorem cut_append (a b : List Char) :
    takeBytes (byteSize a) (a ++ b) = a ∧ dropBytes (byteSize a) (a ++ b) = b := by
  induction a with
  | nil =>
    cases b with
    | nil => exact ⟨rfl, rfl⟩
    | cons c b =>
      have hpos : ¬ c.utf8Size ≤ 0 := Nat.not_le.mpr c.utf8Size_pos
      exact ⟨if_neg hpos, if_neg hpos⟩
  | cons c a ih =>
    have hle : c.utf8Size ≤ byteSize (c :: a) := by rw [byteSize_cons]; omega
    have hrest : byteSize (c :: a) - c.utf8Size = byteSize a := by rw [byteSize_cons]; omega
    rw [List.cons_append, takeBytes, dropBytes, if_pos hle, if_pos hle, hrest, ih.1, ih.2]
    exact ⟨rfl, rfl⟩

end Mishap.Text
