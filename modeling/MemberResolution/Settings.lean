import MemberResolution.Toml.Document

/-!
# Settings

A run of the member resolution has two settings, which can be read from a TOML
text. What the text does not mention keeps its default; keys that mean nothing
here are passed over.
-/

namespace MemberResolution
set_option autoImplicit false

structure Settings where
  /-- The name of the static method that the main class is given. -/
  entryMethod : String := "main"
  /-- Whether to report classes whose bases run into a cycle that they are not part of. -/
  reportAncestorCycles : Bool := true
  deriving DecidableEq

/-- Why settings could not be read. -/
inductive SettingsError where
  /-- There is no file at `path`, or it does not hold text. -/
  | unreadable (path : String)
  /-- The text is no TOML document, or a setting has a value of the wrong type. -/
  | malformed
  deriving DecidableEq

namespace SettingsError

def message : SettingsError → String
  | unreadable path => "failed to read resolver config `" ++ path ++ "`"
  | malformed => "invalid resolver config"

/-- The name under which tools know the kind of error. -/
def toolName : SettingsError → String
  | unreadable _ => "mjc_resolve::config_io"
  | malformed => "mjc_resolve::config_parse"

end SettingsError

namespace Settings

/-- The setting under a key, or its default where the key is missing; `none` if the value is of the wrong type. -/
def setting? {α : Type} (key : String) (read : Toml.Value → Option α) (default : α) (entries : Toml.Entries) :
    Option α :=
  (entries.lookup key).elim (some default) read

/-- The settings in a root table; `none` if one has a value of the wrong type. -/
def ofEntries? (entries : Toml.Entries) : Option Settings := do
  let defaults : Settings := {}
  return {
    entryMethod := ← setting? "entry_method" Toml.Value.string? defaults.entryMethod entries
    reportAncestorCycles :=
      ← setting? "report_ancestor_cycles" Toml.Value.boolean? defaults.reportAncestorCycles entries }

/-- The settings that a TOML text gives. -/
def ofToml (text : String) : Except SettingsError Settings :=
  match (Toml.readDocument? text).bind ofEntries? with
  | some settings => .ok settings
  | none => .error .malformed

/-- The settings in the file at `path`, given what the file holds, if it is there. -/
def ofFile (path : String) (contents : Option ByteArray) : Except SettingsError Settings :=
  match contents.bind String.fromUTF8? with
  | some text => ofToml text
  | none => .error (.unreadable path)

end Settings
end MemberResolution
