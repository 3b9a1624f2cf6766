/-
UnwindTables.Text.Pieces — the parts of a text between two characters of a kind.

* `Text.pieces` — the parts before, between and after the separators in a text. There is always one
  more of them than there are separators, and some may be empty.
-/

namespace UnwindTables.Text

/-- The parts of a text around a separator. -/
def pieces (separator : Char) (text : String) : List String :=
  (text.toList.splitOn separator).map String.ofList

variable {separator : Char}

/-- A separator ends one piece and begins another. -/
theorem pieces_append (front back : String) :
    pieces separator (front ++ String.singleton separator ++ back) =
      pieces separator front ++ pieces separator back := by
  have hchars : (front ++ String.singleton separator ++ back).toList =
      front.toList ++ separator :: back.toList := by
    simp
  rw [pieces, hchars, List.splitOn_append_cons_self, List.map_append, pieces, pieces]

/-- Pieces that are put together with separators are the pieces again. -/
theorem pieces_intercalate {texts : List String} (h : ∀ text ∈ texts, separator ∉ text.toList)
    (hne : texts ≠ []) :
    pieces separator ((String.singleton separator).intercalate texts) = texts := by
  have hsplit : (((String.singleton separator).intercalate texts).toList).splitOn separator =
      texts.map String.toList := by
    rw [String.toList_intercalate, String.toList_singleton]
    refine List.splitOn_intercalate separator ?_ (by simpa using hne)
    intro part hpart
    obtain ⟨text, htext, rfl⟩ := List.mem_map.mp hpart
    exact h text htext
  rw [pieces, hsplit, List.map_map]
  exact (List.map_congr_left fun _ _ => String.ofList_toList).trans (List.map_id _)

/-- A text without separators is one piece. -/
theorem pieces_of_not_mem {text : String} (h : separator ∉ text.toList) :
    pieces separator text = [text] := by
  have hpieces := pieces_intercalate (List.forall_mem_singleton.mpr h) (List.cons_ne_nil text [])
  rwa [String.intercalate_singleton] at hpieces

end UnwindTables.Text
