/-!
# Lines of text

A text is written as a list of lines, each ended by a line feed.
-/

namespace SoapTypes.Text

/-- The lines one after the other, a line feed behind each. -/
def unlines (ls : List String) : String :=
  String.join (ls.map (· ++ "\n"))

theorem toList_unlines (ls : List String) :
    (unlines ls).toList = ls.flatMap (fun l => l.toList ++ ['\n']) := by
  simp [unlines, List.flatMap_map]

theorem unlines_append (ls ms : List String) : unlines (ls ++ ms) = unlines ls ++ unlines ms := by
  apply String.toList_injective
  simp [toList_unlines]

end SoapTypes.Text
