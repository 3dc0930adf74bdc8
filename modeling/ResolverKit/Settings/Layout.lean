import ResolverKit.Code.Layout
import ResolverKit.Settings.Text

/-!
# Settings of the layout

Generated code is laid out as a project lays out its own code, if a file in the working directory
says so.  Of the settings in such a file only two matter here; the others are for other tools.
-/

namespace ResolverKit.Settings

open Code (LayoutOptions)
open ConfigText (Atom Value)

/-- The files that may hold the settings; the first that is there counts. -/
def layoutFiles : List String :=
  [".prettierrc", ".prettierrc.json", ".prettierrc.yaml", ".prettierrc.yml"]

def readLayout (entries : List (Atom × Value)) : Checked LayoutOptions :=
  let width :=
    optional ["tabWidth", "tab_width"] readNatural LayoutOptions.standard.tabWidth entries
  let tabs := optional ["useTabs", "use_tabs"] readBoolean LayoutOptions.standard.useTabs entries
  match width, tabs with
  | .ok w, .ok t => .ok ⟨w, t⟩
  | _, _ => .error (width.problems ++ tabs.problems)

/-- The layout that the value of a file asks for; an empty file asks for nothing. -/
def layoutOf (path : String) (v : Value) : Except SettingsError LayoutOptions :=
  let invalid (detail : String) : SettingsError :=
    .invalid path ("Invalid prettier configuration " ++ path ++ ": " ++ detail)
  if v.isNothing then .ok .standard
  else
    match v with
    | .mapping entries =>
      (readLayout entries).mapError fun ps => invalid ("; ".intercalate (ps.map Problem.text))
    | _ => .error (invalid "expected a mapping")

/-- The layout that the first settings file in a directory asks for; nothing if there is none. -/
def loadLayout (t : FileTree) (dir : String) : Except SettingsError (Option LayoutOptions) :=
  let base := if dir = "" then t.cwdPath else dir
  match (layoutFiles.map (Path.join base)).find? t.isFile with
  | none => .ok none
  | some path => do
    let malformed := "Invalid prettier configuration " ++ path ++ ": " ++ diagnostic
    return some (← layoutOf path (← readFile t path malformed))

end ResolverKit.Settings
