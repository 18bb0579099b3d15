import LineScript.Text.Quoted

/-! Why a settings document is not accepted. -/
namespace LineScript

inductive SettingsError where
  /-- It cannot be read, or does not have the form of settings. -/
  | refused
  /-- A collection, of the type named, is compared with other keys. -/
  | unusableKey (typeName : Text)
  | badColor (mode : Text)
  | emptyExtension
  deriving DecidableEq

namespace SettingsError

def message : SettingsError → Text
  | .refused => "yaml: ..."
  | .unusableKey t => Text.cat ["runtime error: hash of unhashable type ", t]
  | .badColor mode => Text.cat ["color must be auto, always or never, got ", Text.quote mode]
  | .emptyExtension => "extensions cannot contain an empty entry"

def isFatal : SettingsError → Bool
  | .unusableKey _ => true
  | _ => false

end SettingsError

end LineScript
