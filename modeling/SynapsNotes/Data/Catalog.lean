/-!
# The model catalog

The entries of the catalog, with the fields that loading and downloading
read.
-/

namespace SynapsNotes

abbrev ModelId := String

inductive ModelKind
  | chat
  | embedding
  | ocr
  | vl
  deriving DecidableEq

structure ModelCatalogItem where
  id : ModelId
  kind : ModelKind
  name : String
  filename : String
  auxiliaryFilename : Option String
  auxiliaryURL : Option String
  auxiliarySha256 : Option String
  url : String
  sha256 : Option String
  deriving DecidableEq

end SynapsNotes
