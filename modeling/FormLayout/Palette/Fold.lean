import FormLayout.Document.Value
import FormLayout.Palette.Reference
import FormLayout.ShowItem
/-!
Folding the palettes of a derived type into the shared ones. A name that is taken by another layout
gives way to a name made of the type's key and the palette's.
-/

namespace FormLayout.Palette

/-- Equality of layouts; in canonical comparison blanks and empty parts at the end do not count. -/
def sameLayout (canonical : Bool) (a b : String) : Bool :=
  a == b || (canonical && ShowItem.canonical a == ShowItem.canonical b)

/-- The shared palettes, the type's show item, and the pairs of old and new names. -/
structure Fold where
  shared : Palettes
  showItem : String
  renamed : List (String × String)
  deriving Inhabited

def renamedId (typeKey name : String) : String := typeKey ++ "-" ++ name

/-- Whether a palette already has this layout. -/
def holds (canonical : Bool) (shared : Palettes) (name layout : String) : Bool :=
  match shared.get? name with
  | some existing => sameLayout canonical existing layout
  | none => false

/-- Takes in one palette of the type. -/
def Fold.add (canonical : Bool) (typeKey : String) (f : Fold) (name layout : String) : Fold :=
  if holds canonical f.shared name layout then f
  else if !f.shared.has name then { f with shared := f.shared.put name layout }
  else
    let other := renamedId typeKey name
    { shared :=
        if holds canonical f.shared other layout then f.shared else f.shared.put other layout
      showItem := renameReference f.showItem name other
      renamed := f.renamed ++ [(name, other)] }

def fold (canonical : Bool) (typeKey : String) (shared own : Palettes) (showItem : String) : Fold :=
  own.foldl (fun f e => f.add canonical typeKey e.1 e.2) ⟨shared, showItem, []⟩

end FormLayout.Palette
