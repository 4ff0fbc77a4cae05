/-
ModuleAtlas/Role.lean

The roles that files play, by their paths and their exports.  The rules are tried
in order and the first that applies decides.
-/
import ModuleAtlas.Path
import ModuleAtlas.Record
import ModuleAtlas.Text.Case
import ModuleAtlas.Text.Search

namespace ModuleAtlas

/-- The role of a file. -/
inductive Role where
  | entry
  | config
  | test
  | typing
  | barrel
  | util
  | component
  | service
  | unknown
deriving DecidableEq, Repr, Inhabited

namespace Role

/-- The word that stands for a role in answers. -/
def label : Role → String
  | .entry => "entry"
  | .config => "config"
  | .test => "test"
  | .typing => "type"
  | .barrel => "barrel"
  | .util => "util"
  | .component => "component"
  | .service => "service"
  | .unknown => "unknown"

/-- All roles. -/
def all : List Role :=
  [.entry, .config, .test, .typing, .barrel, .util, .component, .service, .unknown]

/-- The role of a word. -/
def ofLabel? (s : String) : Option Role := all.find? fun r => r.label == s

/-- Files of this role do not go into production. -/
def isAside (r : Role) : Bool := r == .test || r == .config

/-- A file named `index` more than half of whose exports come from elsewhere. -/
def isBarrel (path : String) (exports : List Export) : Bool :=
  (Path.splitSuffix (Path.name path)).1 == "index"
    && exports.length < 2 * (exports.filter Export.isReexport).length

/-- Names of files that configure something, besides those whose names say so. -/
def configNames : List String := ["tsconfig.json", "jest.config.ts", "vitest.config.ts"]

/-- The path holds one of the parts. -/
def hasAny (path : String) (parts : List String) : Bool := parts.any (Text.has path)

/-- The role of a file by its path relative to the project and its exports. -/
def ofFile (relative : String) (exports : List Export) (isEntry : Bool) : Role :=
  let path := "/" ++ Text.lower relative
  let name := Path.name path
  if isEntry then .entry
  else if hasAny name [".config.", "rc."] || configNames.contains name then .config
  else if hasAny path [".test.", ".spec.", "__tests__", "/test/", "/tests/"] then .test
  else if Text.endsIn name ".d.ts" || Text.has path "/types/" then .typing
  else if isBarrel relative exports then .barrel
  else if hasAny path ["/utils/", "/util/", "/helpers/", "/lib/"] then .util
  else if Text.has path "/components/" || Text.endsIn name ".tsx" || Text.endsIn name ".vue" then
    .component
  else if hasAny path ["/services/", "/service/", "service."] then .service
  else .unknown

end Role

end ModuleAtlas
