import FormLayout.Form.Tree
import FormLayout.ShowItem
/-!
Writing a form tree as a layout: one show item, and one more for each palette.
-/

namespace FormLayout

/-- A layout as it is stored: a show item and the show items of palettes. -/
structure Layout where
  showItem : String
  palettes : Palettes
  deriving DecidableEq, Repr

namespace Layout

def tabItem (tab : Node) : Item := Item.trimEnd (SpecialToken.tab.dashed :: tab.slots)

def fieldItem (field : Node) : Item := Item.trimEnd (field.id :: field.slots)

/-- A palette's name comes last, after at least one slot. -/
def paletteItem (palette : Node) (name : String) : Item :=
  SpecialToken.palette.dashed :: ((if palette.slots.isEmpty then [""] else palette.slots) ++ [name])

/-- The item of a node in a tab. Line breaks have none there. -/
def itemInTab? (n : Node) : Option Item :=
  match n.content with
  | .field _ => some (fieldItem n)
  | .palette name => some (paletteItem n name)
  | .tab | .lineBreak => none

def itemInPalette? (n : Node) : Option Item :=
  match n.content with
  | .field _ => some (fieldItem n)
  | .lineBreak => some [SpecialToken.lineBreak.dashed]
  | .tab | .palette _ => none

end Layout

namespace FormTree

def itemsOfTab (t : FormTree) (tab : Node) : List Item :=
  Layout.tabItem tab :: (t.childNodes tab.id).filterMap Layout.itemInTab?

def paletteShowItem (t : FormTree) (palette : Node) : String :=
  ShowItem.text ((t.childNodes palette.id).filterMap Layout.itemInPalette?)

/-- The palettes of the tabs with their show items. -/
def palettes (t : FormTree) : Palettes :=
  Entries.ofList <| (t.tabNodes.flatMap fun tab => t.childNodes tab.id).filterMap fun n =>
    n.palette?.map fun name => (name, t.paletteShowItem n)

def layout (t : FormTree) : Layout :=
  ⟨ShowItem.text (t.tabNodes.flatMap t.itemsOfTab), t.palettes⟩

end FormTree

end FormLayout
