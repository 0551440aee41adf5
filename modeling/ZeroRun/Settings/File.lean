import ZeroRun.Document.Value
import ZeroRun.Settings.Document
import ZeroRun.Settings.Written

/-!
Settings out of the files of a directory.
-/
namespace ZeroRun.Settings

/-- The names under which settings are looked for; the first one that is there counts. -/
def fileNames : List String :=
  [".vass-reach.yml", ".vass-reach.yaml"]

/-- The settings in the text of a file. A blank document leaves everything at its default. -/
def ofText (text : String) : Except Error Settings := do
  let document ← Document.ofText text
  if (document.resolve document.root).isBlank then return {} else ofDocument document

/-- The settings in a file of a directory, given as names and texts. -/
def ofFile (files : List (String × String)) (name : String) : Except Error Settings :=
  match files.lookup name with
  | some text => ofText text
  | none => .error .unreadable

/-- The settings of a directory. -/
def load (files : List (String × String)) : Except Error Settings :=
  match fileNames.find? fun name => (files.lookup name).isSome with
  | some name => ofFile files name
  | none => .ok {}

/-- Do the written settings read back as the same settings? -/
def readsBack (settings : Settings) : Except Error Bool :=
  do return (← ofText (← settings.toText)) == settings

end ZeroRun.Settings
