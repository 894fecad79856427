import SynapsNotes.Downloads.Storage
import SynapsNotes.Foundation.Text
import SynapsNotes.Framework.Dictionary

/-!
# Custom models

The items a user adds to the catalog: what the form accepts and makes of its
fields, the store that keeps them, and the catalog of built-in and custom
items, in which a custom item replaces a built-in one of its id.
-/

namespace SynapsNotes.Downloads

open Framework

/-- The fields of `AddCustomModelSheet`. -/
structure AddCustomModelSheet where
  kind : ModelKind
  name : String
  url : String
  filename : String
  id : String
  sha256 : String

namespace AddCustomModelSheet

def canSave (P : Platform) (sheet : AddCustomModelSheet) : Bool :=
  !(trimmed sheet.name).isEmpty && "http".toList.isPrefixOf (trimmed sheet.url).toList &&
    P.isGGUFName sheet.filename && !(trimmed sheet.id).isEmpty

/-- The item that `save` adds. -/
def item (sheet : AddCustomModelSheet) : ModelCatalogItem where
  id := trimmed sheet.id
  kind := sheet.kind
  name := trimmed sheet.name
  filename := trimmed sheet.filename
  auxiliaryFilename := none
  auxiliaryURL := none
  auxiliarySha256 := none
  url := trimmed sheet.url
  sha256 := if (trimmed sheet.sha256).isEmpty then none else some sheet.sha256

end AddCustomModelSheet

namespace CustomModelStore

def add (item : ModelCatalogItem) (items : List ModelCatalogItem) : List ModelCatalogItem :=
  match items.findIdx? fun i => i.id == item.id with
  | some idx => items.set idx item
  | none => items ++ [item]

def remove (id : ModelId) (items : List ModelCatalogItem) : List ModelCatalogItem :=
  items.filter fun i => i.id != id

/-- What the settings do to the store. -/
inductive Edit
  | add (sheet : AddCustomModelSheet)
  | remove (id : ModelId)

def edit (P : Platform) (items : List ModelCatalogItem) : Edit → List ModelCatalogItem
  | .add sheet => if sheet.canSave P then add sheet.item items else items
  | .remove id => remove id items

/-- The items of a store that was empty, after some edits. -/
def items (P : Platform) (edits : List Edit) : List ModelCatalogItem := edits.foldl (edit P) []

end CustomModelStore

/-- `ModelCatalogStore.items`, by id. -/
def ModelCatalogStore.items (builtin custom : List ModelCatalogItem) : AList fun _ : ModelId => ModelCatalogItem :=
  indexedFrom ModelCatalogItem.id (indexed ModelCatalogItem.id builtin) custom

end SynapsNotes.Downloads
