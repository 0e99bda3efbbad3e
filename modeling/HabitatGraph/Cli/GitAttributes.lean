import HabitatGraph.Core.Schema
import HabitatGraph.Core.Text

/-! # The routing line

Merges of `graph.json` are routed by a line of `.gitattributes`. Two commands add it,
one by appending, one by writing the whole text anew: they look for it and separate it
from what is there in the same way, and find it afterwards.
-/

namespace HabitatGraph

open DelimitedChunks Utf8Lines

/-- The line that routes merges of `graph.json` through the driver. -/
def gitattributesLine : String := "graph.json merge=habitat-graph"

/-- Some line of the text is the one looked for, between blanks. -/
def linePresent (haystack needle : String) : Bool :=
  (textLines haystack.toList).any fun l => trim (String.ofList l) == needle

/-- What has to stand between a text and a line added to it. -/
def lineSeparator (existing : String) : String :=
  if existing.isEmpty || existing.toList.getLast? == some '\n' then "" else "\n"

/-- The bytes with the line added, unless a line of theirs is it. -/
def withLine (bytes : List UInt8) : List UInt8 :=
  if linePresent (fromUtf8Lossy bytes) gitattributesLine then bytes
  else bytes ++ encode (lineSeparator (fromUtf8Lossy bytes) ++ gitattributesLine ++ "\n").toList

/-- The text to write anew is the one to append to, with what separates the line. -/
theorem separated_eq (text : String) :
    (if !text.isEmpty && text.toList.getLast? != some '\n' then text ++ "\n" else text) =
      text ++ lineSeparator text := by
  unfold lineSeparator
  cases hempty : text.isEmpty with
  | true => simp
  | false =>
      by_cases hlast : text.toList.getLast? = some '\n'
      · simp [hlast]
      · simp [hlast]

/-! ## The line is found where it was added -/

/-- A text that its last line ends leaves nothing after it. -/
theorem cut_snd_lineSeparator (existing : String) :
    (cut '\n' (existing ++ lineSeparator existing).toList).2 = [] := by
  rw [String.toList_append]
  unfold lineSeparator
  split
  next hsep =>
    rw [Bool.or_eq_true, String.isEmpty_iff, beq_iff_eq] at hsep
    rcases hsep with rfl | hlast
    · rfl
    · obtain ⟨front, hfront⟩ := List.getLast?_eq_some_iff.mp hlast
      rw [hfront, String.toList_empty, List.append_nil, cut_append,
        cut_append_cons (notMem_cut_snd front)]
      rfl
  next =>
    rw [cut_append, show ("\n" : String).toList = ['\n'] from rfl,
      cut_append_cons (notMem_cut_snd existing.toList)]
    rfl

theorem linePresent_added (existing : String) :
    linePresent (existing ++ lineSeparator existing ++ gitattributesLine ++ "\n")
      gitattributesLine := by
  have hline : '\n' ∉ gitattributesLine.toList := by decide
  rw [linePresent, String.toList_append, String.toList_append (t := gitattributesLine),
    textLines, List.append_assoc, cut_append, cut_snd_lineSeparator, List.nil_append,
    show ("\n" : String).toList = ['\n'] from rfl, cut_append_cons hline]
  simp only [List.map_append, List.any_append, List.map_cons, List.any_cons, Bool.or_eq_true]
  exact .inl (.inr (.inl (by decide)))

end HabitatGraph
