/-
Parts of a text by byte positions. A part is cut out between two positions if they
are in order, inside of the text and not in the middle of a character (`IsSlice`).
What stands between a beginning and an ending of a text is cut out by their sizes,
and that there is something between them is told by the sizes too: the two do not
overlap exactly if they are no larger together than the text
(`hasRoom_iff_exists_between`).
-/
import ImportResolution.Proofs.Text.Segments

namespace ImportResolution.Text

open String.Pos.Raw (isValid_iff_exists_append)

variable {s start ending part : String}

-- =============================================================== slices

/-- The part of a text between two byte positions: they are in order, neither lies
beyond the text or inside a character, and the part has the bytes between them. -/
structure IsSlice (s : String) (first last : Nat) (part : String) : Prop where
  ordered : first ≤ last
  first_valid : (⟨first⟩ : String.Pos.Raw).IsValid s
  last_valid : (⟨last⟩ : String.Pos.Raw).IsValid s
  bytes : s.toByteArray.extract first last = part.toByteArray

/-- What stands between a beginning and an ending is cut out by their sizes. -/
theorem isSlice_between (start part ending : String) :
    IsSlice (start ++ part ++ ending) start.utf8ByteSize
      ((start ++ part ++ ending).utf8ByteSize - ending.utf8ByteSize) part := by
  have hlast : (start ++ part ++ ending).utf8ByteSize - ending.utf8ByteSize
      = (start ++ part).utf8ByteSize := by
    rw [String.utf8ByteSize_append (s := start ++ part), Nat.add_sub_cancel]
  rw [hlast]
  refine ⟨?_, ?_, ?_, ?_⟩
  · rw [String.utf8ByteSize_append]
    exact Nat.le_add_right ..
  · exact isValid_iff_exists_append.mpr ⟨start, part ++ ending, String.append_assoc, rfl⟩
  · exact isValid_iff_exists_append.mpr ⟨start ++ part, ending, rfl, rfl⟩
  · -- the bytes after the beginning start with those of the part
    have hrest := ByteArray.extract_append_size_add (a := start.toByteArray)
      (b := part.toByteArray ++ ending.toByteArray) (i := 0) (j := part.utf8ByteSize)
    rw [String.size_toByteArray, Nat.add_zero,
      ByteArray.extract_append_eq_left String.size_toByteArray.symm] at hrest
    rw [String.append_assoc, String.toByteArray_append, String.toByteArray_append,
      String.utf8ByteSize_append, hrest]

-- =============================================================== overlap

/-- The text begins and ends in these, and is no smaller than the two together. -/
def HasRoom (s start ending : String) : Prop :=
  start.utf8ByteSize + ending.utf8ByteSize ≤ s.utf8ByteSize ∧ startsWith s start = true ∧
    endsWith s ending = true

/-- A beginning and an ending that are no larger together than the text do not
overlap in it. -/
theorem hasRoom_iff_exists_between :
    HasRoom s start ending ↔ ∃ part, s = start ++ part ++ ending := by
  constructor
  · rintro ⟨hsize, hstart, hending⟩
    obtain ⟨rest, hrest⟩ := exists_append_of_startsWith hstart
    obtain ⟨before, hbefore⟩ := exists_append_of_endsWith hending
    have hboth : start.toList ++ rest.toList = before.toList ++ ending.toList := by
      rw [← String.toList_append, ← String.toList_append, ← hrest, hbefore]
    rcases List.append_eq_append_iff.mp hboth with ⟨part, -, hpart⟩ | ⟨shared, hshared, -⟩
    · refine ⟨String.ofList part, ?_⟩
      rw [hrest, String.append_assoc, String.append_right_inj, ← String.toList_inj,
        String.toList_append, String.toList_ofList, hpart]
    · -- what they share is counted twice, so it is empty
      have hstarts : start = before ++ String.ofList shared := by
        rw [← String.toList_inj, String.toList_append, String.toList_ofList, hshared]
      have hempty : String.ofList shared = "" := by
        rw [hbefore, hstarts, String.utf8ByteSize_append, String.utf8ByteSize_append] at hsize
        exact String.utf8ByteSize_eq_zero_iff.mp (by omega)
      exact ⟨"", by rw [hbefore, hstarts, hempty, String.append_empty, String.append_empty]⟩
  · rintro ⟨part, rfl⟩
    refine ⟨?_, startsWith_iff.mpr ?_, endsWith_iff.mpr ?_⟩
    · rw [String.utf8ByteSize_append, String.utf8ByteSize_append]
      omega
    · rw [String.append_assoc, String.toList_append]
      exact List.prefix_append _ _
    · rw [String.toList_append]
      exact List.suffix_append _ _

end ImportResolution.Text
