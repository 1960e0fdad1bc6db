/-!
# Bytes of a text

Positions in a source are counted in the bytes of its UTF-8 form.

Main results:

* `byteLength_append`: the bytes of two texts in a row add up;
* `byteLength_toList`: they are the bytes of the text as a string;
* `append_inj_of_byteLength`: a text can be cut in only one way behind so many bytes.
-/

namespace Stencil.Text

def byteLength : List Char → Nat
  | [] => 0
  | c :: cs => c.utf8Size + byteLength cs

@[simp]
theorem byteLength_nil : byteLength [] = 0 := rfl

@[simp]
theorem byteLength_cons (c : Char) (cs : List Char) :
    byteLength (c :: cs) = c.utf8Size + byteLength cs := rfl

@[simp]
theorem byteLength_append (as bs : List Char) :
    byteLength (as ++ bs) = byteLength as + byteLength bs := by
  induction as with
  | nil => simp
  | cons a as ih => simp [ih, Nat.add_assoc]

/-- A text has at least as many bytes as characters, so one that is not empty has a byte. -/
theorem length_le_byteLength (cs : List Char) : cs.length ≤ byteLength cs := by
  induction cs with
  | nil => simp
  | cons c cs ih =>
    have := c.utf8Size_pos
    simp only [List.length_cons, byteLength_cons]
    omega

theorem byteLength_eq_utf8ByteSize (cs : List Char) :
    byteLength cs = (String.ofList cs).utf8ByteSize := by
  induction cs with
  | nil => rfl
  | cons c cs ih =>
    rw [byteLength_cons, ih, String.ofList_cons, String.utf8ByteSize_append,
      String.utf8ByteSize_singleton]

theorem byteLength_toList (s : String) : byteLength s.toList = s.utf8ByteSize := by
  rw [byteLength_eq_utf8ByteSize, String.ofList_toList]

theorem eq_nil_of_byteLength_eq_zero {cs : List Char} (h : byteLength cs = 0) : cs = [] := by
  have := length_le_byteLength cs
  exact List.length_eq_zero_iff.1 (by omega)

/-- Between two characters of a text there is a valid position of the string. -/
theorem isValid_byteLength (front behind : List Char) :
    (⟨byteLength front⟩ : String.Pos.Raw).IsValid (String.ofList (front ++ behind)) := by
  rw [String.Pos.Raw.isValid_ofList]
  exact ⟨front.length, by simp [byteLength_eq_utf8ByteSize]⟩

/-- A text can be cut in only one way behind so many bytes. -/
theorem append_inj_of_byteLength {as bs cs ds : List Char} (h : as ++ bs = cs ++ ds)
    (hbytes : byteLength as = byteLength cs) : as = cs ∧ bs = ds := by
  rcases List.append_eq_append_iff.1 h with ⟨between, hcs, hbs⟩ | ⟨between, has, hds⟩
  · rw [hcs, byteLength_append] at hbytes
    obtain rfl := eq_nil_of_byteLength_eq_zero (show byteLength between = 0 by omega)
    exact ⟨by simpa using hcs.symm, by simpa using hbs⟩
  · rw [has, byteLength_append] at hbytes
    obtain rfl := eq_nil_of_byteLength_eq_zero (show byteLength between = 0 by omega)
    exact ⟨by simpa using has, by simpa using hds.symm⟩

end Stencil.Text
