import Steward.Settings.Basic
import Steward.Toml.Printer

/-!
# Settings as text

The text of settings is a settings file that reads back as the same settings.
-/

namespace Steward.Settings

/-- Settings as a settings file, section by section. -/
def toText (s : Settings) : String := String.ofList (Toml.print s.sections)

end Steward.Settings
