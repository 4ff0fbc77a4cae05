/-
ModuleAtlas/Resolution.lean

From the specifier of an import to the file it means.
-/
import ModuleAtlas.FileTree

namespace ModuleAtlas.Resolution

/-- The suffixes of sources that a specifier with the suffix of an output can mean. -/
def sourceSuffixes : String → List String
  | ".js" => [".ts", ".tsx"]
  | ".jsx" => [".tsx"]
  | ".mjs" => [".mts"]
  | ".cjs" => [".cts"]
  | _ => []

/-- The paths that a base can mean, the likelier first: itself, with a suffix
added, as the source of an output, and as a folder with an index. -/
def candidates (base : String) (extensions : List String) : List String :=
  let (stem, suffix) := Path.splitSuffix base
  base :: extensions.map (base ++ ·) ++ (sourceSuffixes suffix).map (stem ++ ·)
    ++ extensions.map fun e => Path.join base ("index" ++ e)

/-- The path that a specifier points to from a folder, before any suffix is tried. -/
def base (folder specifier : String) : String :=
  if Path.isAbsolute specifier then Path.normalize specifier
  else Path.normalize (Path.join folder specifier)

/-- The file that a specifier means in a folder. -/
def resolve (t : FileTree) (extensions : List String) (folder specifier : String) :
    Option String :=
  (candidates (base folder specifier) extensions).find? t.hasFile

/-- What specifiers were found to mean, by folder and specifier. -/
structure Cache where
  known : List ((String × String) × Option String) := []
deriving DecidableEq, Repr, Inhabited

/-- What is known about a specifier in a folder. -/
def Cache.get? (c : Cache) (folder specifier : String) : Option (Option String) :=
  (c.known.find? fun k => k.1 == (folder, specifier)).map Prod.snd

/-- What a specifier means in a folder: what is known, or else what is found, which
is known from then on. -/
def Cache.resolve (c : Cache) (t : FileTree) (extensions : List String)
    (folder specifier : String) : Option String × Cache :=
  match c.get? folder specifier with
  | some found => (found, c)
  | none =>
    let found := Resolution.resolve t extensions folder specifier
    (found, ⟨((folder, specifier), found) :: c.known⟩)

end ModuleAtlas.Resolution
