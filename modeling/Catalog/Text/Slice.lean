/-!
# Slices of a text

A part of a text can be given by two places counted in bytes. A character may take several bytes and
is never cut: a place inside one gives no slice.

* `Text.slice?` is the part of a string between two places;
* `Text.slice?_eq_some_iff` says which part that is, and when there is none;
* `Text.slice?_append` joins slices that follow each other, and `Text.slice?_whole` is the string
  itself.
-/

namespace Catalog.Text

open String (Pos.Raw)

/-- The part of a string between two places counted in bytes; none if a place is behind the end or
inside a character, or if they are in the wrong order. -/
def slice? (s : String) (start stop : Nat) : Option String :=
  if h : Pos.Raw.IsValid s ⟨start⟩ ∧ Pos.Raw.IsValid s ⟨stop⟩ then
    (s.slice? (s.pos ⟨start⟩ h.1) (s.pos ⟨stop⟩ h.2)).map String.Slice.copy
  else none

variable {s t u : String} {start middle stop : Nat}

theorem isValid_append (front back : String) :
    Pos.Raw.IsValid (front ++ back) ⟨front.utf8ByteSize⟩ :=
  Pos.Raw.isValid_iff_exists_append.mpr ⟨front, back, rfl, rfl⟩

/-- A slice has as many bytes in front of it as it starts at. -/
theorem slice?_eq_some_iff :
    slice? s start stop = some t ↔
      ∃ front back, s = front ++ t ++ back ∧ front.utf8ByteSize = start ∧
        start + t.utf8ByteSize = stop := by
  constructor
  · intro h
    rw [slice?] at h
    split at h
    · obtain ⟨part, hpart, ht⟩ := Option.map_eq_some_iff.mp h
      rw [String.slice?] at hpart
      split at hpart
      · next hle =>
        cases hpart
        obtain ⟨front, back, hstart, hstop⟩ := String.copy_slice_eq_iff_splits.mp ⟨hle, ht⟩
        have hstart := congrArg Pos.Raw.byteIdx hstart.offset_eq_rawEndPos
        refine ⟨front, back, hstop.eq_append, hstart.symm, ?_⟩
        have hstop := congrArg Pos.Raw.byteIdx hstop.offset_eq_rawEndPos
        simp only [String.offset_pos, String.byteIdx_rawEndPos,
          String.utf8ByteSize_append] at hstart hstop
        omega
      · cases hpart
    · cases h
  · rintro ⟨front, back, rfl, rfl, rfl⟩
    have hstart : Pos.Raw.IsValid (front ++ t ++ back) ⟨front.utf8ByteSize⟩ := by
      rw [String.append_assoc]
      exact isValid_append front (t ++ back)
    have hstop : Pos.Raw.IsValid (front ++ t ++ back) ⟨front.utf8ByteSize + t.utf8ByteSize⟩ := by
      rw [← String.utf8ByteSize_append]
      exact isValid_append (front ++ t) back
    obtain ⟨hle, hcopy⟩ := String.copy_slice_eq_iff_splits.mpr
      ⟨front, back, ⟨String.append_assoc, String.offset_pos (h := hstart)⟩,
        ⟨rfl, (String.offset_pos (h := hstop)).trans (by simp [String.rawEndPos])⟩⟩
    rw [slice?, dif_pos ⟨hstart, hstop⟩, String.slice?, dif_pos hle, Option.map_some, hcopy]

/-- Two ways to cut a string after as many bytes are the same. -/
theorem append_inj_of_utf8ByteSize {front back other rest : String}
    (h : front ++ back = other ++ rest) (hsize : front.utf8ByteSize = other.utf8ByteSize) :
    front = other ∧ back = rest := by
  have hfront : ((front ++ back).pos ⟨front.utf8ByteSize⟩ (isValid_append front back)).Splits front
      back := ⟨rfl, rfl⟩
  refine hfront.eq ⟨h, ?_⟩
  rw [String.offset_pos, hsize]
  rfl

theorem slice?_append (h : slice? s start middle = some t) (h' : slice? s middle stop = some u) :
    slice? s start stop = some (t ++ u) := by
  obtain ⟨front, back, hs, hstart, hmiddle⟩ := slice?_eq_some_iff.mp h
  obtain ⟨front', back', hs', hmiddle', hstop⟩ := slice?_eq_some_iff.mp h'
  -- both cut the string at the place in the middle
  have hcut : front ++ t ++ back = front' ++ (u ++ back') := by rw [← hs, hs', String.append_assoc]
  obtain ⟨_, hback⟩ := append_inj_of_utf8ByteSize hcut (by rw [String.utf8ByteSize_append]; omega)
  refine slice?_eq_some_iff.mpr ⟨front, back', ?_, hstart, ?_⟩
  · rw [hs, hback, String.append_assoc, String.append_assoc, String.append_assoc]
  · rw [String.utf8ByteSize_append]
    omega

theorem slice?_whole (s : String) : slice? s 0 s.utf8ByteSize = some s :=
  slice?_eq_some_iff.mpr ⟨"", "", by rw [String.empty_append, String.append_empty], rfl,
    Nat.zero_add _⟩

end Catalog.Text
