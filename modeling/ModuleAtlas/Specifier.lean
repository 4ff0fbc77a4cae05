/-
ModuleAtlas/Specifier.lean

Module specifiers: which ones point to files of the project, which package the
others name, and which packages come with the runtime.
-/
import ModuleAtlas.Text.Blank

namespace ModuleAtlas.Specifier

/-- The specifier points to a file: it starts with a dot or a slash. -/
def isInternal (s : String) : Bool :=
  match s.toList with
  | '.' :: _ => true
  | '/' :: _ => true
  | _ => false

/-- The package that a specifier names: its first segment, or the first two of a
specifier with a scope. -/
def package (s : String) : String :=
  let parts := Text.split '/' s.toList
  let n := if s.toList.head? == some '@' then 2 else 1
  String.ofList (Text.joinWith ['/'] (parts.take n))

/-- Packages that come with the runtime. -/
def builtins : List String :=
  ["assert", "async_hooks", "buffer", "child_process", "cluster", "console", "constants",
    "crypto", "dgram", "dns", "domain", "events", "fs", "http", "http2", "https", "inspector",
    "module", "net", "os", "path", "perf_hooks", "process", "punycode", "querystring",
    "readline", "repl", "stream", "string_decoder", "timers", "tls", "trace_events", "tty",
    "url", "util", "v8", "vm", "wasi", "worker_threads", "zlib"]

/-- Without the scheme of the runtime in front. -/
def withoutScheme (s : List Char) : List Char :=
  let scheme := "node:".toList
  if scheme.isPrefixOf s then s.drop scheme.length else s

/-- The package comes with the runtime. -/
def isBuiltin (s : String) : Bool :=
  builtins.contains (String.ofList ((withoutScheme s.toList).takeWhile (· != '/')))

end ModuleAtlas.Specifier
