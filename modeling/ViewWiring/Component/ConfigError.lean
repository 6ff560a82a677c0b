import ViewWiring.Binding.Wiring
import ViewWiring.Component.Definition

namespace ViewWiring.Component

open Address Binding

inductive ConfigError
  | conflict (c : Conflict)
  | duplicateMember (member : String)
  | missingPath (member : String) (kind : AnnotationKind)
  | missingSelector (member : String) (kind : AnnotationKind)
  | invalidSelector (member selector : String) (cause : Malformed)
  | invalidPath (member path : String) (cause : Malformed)
  | repeatOnMethod (member : String)
  | repeatOnNonCollection (member : String) (found : FieldType)
  | unknownHandler (name : String)
  | missingHandler (member : String)
  | placeholderOutsideRepeat (member : String) (path : Path) (selector : Selector)
  deriving DecidableEq, Repr

def ConfigError.message : ConfigError → String
  | conflict c => c.message
  | duplicateMember member => "member `" ++ member ++ "` is declared twice"
  | missingPath member kind => "`" ++ member ++ "`: " ++ kind.name ++ " annotation requires a path"
  | missingSelector member kind =>
      "`" ++ member ++ "`: " ++ kind.name ++
        " annotation has no selector and no event annotation to inherit one from"
  | invalidSelector member selector cause =>
      "`" ++ member ++ "`: invalid selector `" ++ selector ++ "`: " ++ cause.message
  | invalidPath member path cause =>
      "`" ++ member ++ "`: invalid path `" ++ path ++ "`: " ++ cause.message
  | repeatOnMethod member => "`" ++ member ++ "`: viewFor is only valid on fields"
  | repeatOnNonCollection member found =>
      "`" ++ member ++ "`: viewFor requires a collection field, found " ++ found.name
  | unknownHandler name => "handler `" ++ name ++ "` does not match any method"
  | missingHandler member => "method `" ++ member ++ "` has bindings but no handler"
  | placeholderOutsideRepeat member path selector =>
      "`" ++ member ++ "`: path `" ++ path.text ++ "` has more placeholders than repeated scopes around `" ++
        selector.text ++ "`"

end ViewWiring.Component
