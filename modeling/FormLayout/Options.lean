/-!
The options of reading and compiling tables.
-/

namespace FormLayout

structure Options where
  /-- The label of the tab that a layout without one gets. -/
  defaultTabLabel : String := "general"
  /-- The type that stands for the whole table; none for the first one. -/
  baseTypeKey : Option String := none
  /-- Whether palettes compare without blanks and empty parts at the end of items. -/
  canonicalPalettes : Bool := true
  deriving DecidableEq, Repr

end FormLayout
