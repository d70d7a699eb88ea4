/-!
# Catalog errors

What can be wrong with a mapping, and what a planner or a cascade can
fail to find in it. `CatalogError.message` is the wording.
-/

namespace EntityMap

/-- Why an entity has no single key column. -/
inductive KeyFault where
  | missing
  | composite
  deriving DecidableEq, Repr

/-- What is wrong with a lookup. -/
inductive LookupFault where
  | unmapped (entity : String)
  | key (entity : String) (fault : KeyFault)
  | noMember (entity member : String)
  | valueIsKey
  deriving DecidableEq, Repr

/-- What breaks a rule that a definition must keep. -/
inductive DefinitionFault where
  | noEntities
  | duplicateMember (entity member : String)
  | nullableKey (entity member : String)
  | duplicateNavigation (entity name : String)
  | foreignRelationship (entity name : String)
  | targetNotKey (entity name target : String)
  deriving DecidableEq, Repr

inductive CatalogError where
  | unmappedEntity (entity : String)
  | unknownMember (entity member : String)
  | unknownRelationship (entity name : String)
  | key (entity : String) (fault : KeyFault)
  | duplicateEntity (entity : String)
  | invalidMemberRef (text : String)
  | unknownEnumeration (name : String)
  | invalidLookup (entity member : String) (fault : LookupFault)
  | invalid (fault : DefinitionFault)
  /-- The text of the mapping is no mapping. -/
  | malformed
  deriving DecidableEq, Repr

namespace KeyFault

def message (entity : String) : KeyFault → String
  | missing => "Entity `" ++ entity ++ "` declares no primary key"
  | composite =>
    "Entity `" ++ entity ++ "` has a composite primary key; a single key column is required here"

end KeyFault

namespace LookupFault

def message : LookupFault → String
  | unmapped entity => "entity `" ++ entity ++ "` is not mapped"
  | key entity fault => fault.message entity
  | noMember entity member => "`" ++ entity ++ "` has no member `" ++ member ++ "`"
  | valueIsKey => "the lookup value member must not be the key"

end LookupFault

namespace DefinitionFault

def message : DefinitionFault → String
  | noEntities => "Mapping must contain at least one entity"
  | duplicateMember entity member =>
    "Duplicate member `" ++ member ++ "` on entity `" ++ entity ++ "`"
  | nullableKey entity member =>
    "Primary key `" ++ entity ++ "." ++ member ++ "` cannot be nullable"
  | duplicateNavigation entity name =>
    "Navigation member `" ++ name ++ "` on entity `" ++ entity ++ "` is declared twice"
  | foreignRelationship entity name =>
    "Relationship `" ++ entity ++ "." ++ name ++ "` does not touch its declaring entity"
  | targetNotKey entity name target =>
    "Relationship `" ++ entity ++ "." ++ name ++ "` must target the primary key of `" ++ target ++
      "`"

end DefinitionFault

namespace CatalogError

def message : CatalogError → String
  | unmappedEntity entity => "No table map found for entity `" ++ entity ++ "`"
  | unknownMember entity member =>
    "Entity `" ++ entity ++ "` has no mapped member `" ++ member ++ "`"
  | unknownRelationship entity name =>
    "Entity `" ++ entity ++ "` has no relationship named `" ++ name ++ "`"
  | key entity fault => fault.message entity
  | duplicateEntity entity => "Entity `" ++ entity ++ "` is mapped more than once"
  | invalidMemberRef text =>
    "Invalid column reference `" ++ text ++ "` (expected `Entity.Member`)"
  | unknownEnumeration name => "No enumeration named `" ++ name ++ "` is declared"
  | invalidLookup entity member fault =>
    "Invalid lookup on `" ++ entity ++ "." ++ member ++ "`: " ++ fault.message
  | invalid fault => "Invalid mapping: " ++ fault.message
  | malformed => "Failed to parse mapping"

end CatalogError

end EntityMap
