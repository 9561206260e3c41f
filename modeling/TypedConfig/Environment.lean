import TypedConfig.Palette
import TypedConfig.Settings

/-!
# What the files of a registry share
-/

namespace TypedConfig

/-- The directory of the files, the colors that options may take, and the settings. -/
structure Environment where
  dir : String
  palette : Palette := Palette.basic
  settings : Settings := {}

/-- What stands after the last dot of a file's name. -/
def fileExtension : String := ".conf"

/-- What a file's name ends with while it is being written. -/
def temporaryExtension : String := ".weechattmp"

/-- The path under which a file is prepared before it takes the place of the one at `path`. -/
def temporaryPath (path : String) : String :=
  path ++ temporaryExtension

end TypedConfig
