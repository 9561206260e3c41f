import TypedConfig.Section.Body
import TypedConfig.Format.Line

/-!
# What sections write

A section is written as its header and a line for each option. A hook that writes a section gives a
draft, which is the text or the failure to give one.
-/

namespace TypedConfig

/-- A text to be written, or the reason why there is none. -/
abbrev Draft := Except Failure String

/-- The line of an option with its current value. -/
def Cell.lineText (c : Cell) : String :=
  Line.optionText c.name c.fileText

namespace Body

/-- The section with all its options, in the order of their names. -/
def text (b : Body) : String :=
  Line.headerText b.name ++ String.join (b.entries.map fun e => e.lineText)

end Body

end TypedConfig
