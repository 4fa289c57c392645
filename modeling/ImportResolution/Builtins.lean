/-
Modules that the runtime brings along. They may be named with the runtime's
own scheme in front; a few may be named only so.
-/
import ImportResolution.Specifier

namespace ImportResolution.Builtins

/-- The modules that may be named with and without the scheme. -/
def plainNames : List String := [
  "_http_agent", "_http_client", "_http_common", "_http_incoming", "_http_outgoing",
  "_http_server", "_stream_duplex", "_stream_passthrough", "_stream_readable",
  "_stream_transform", "_stream_wrap", "_stream_writable", "_tls_common", "_tls_wrap",
  "assert", "async_hooks", "buffer", "child_process", "cluster", "console", "constants",
  "crypto", "dgram", "diagnostics_channel", "dns", "domain", "events", "fs", "http", "http2",
  "https", "inspector", "module", "net", "os", "path", "perf_hooks", "process", "punycode",
  "querystring", "readline", "repl", "stream", "string_decoder", "sys", "timers", "tls",
  "trace_events", "tty", "url", "util", "v8", "vm", "wasi", "worker_threads", "zlib"]

/-- The scheme. -/
def scheme : String := "node:"

/-- The modules that may be named only with the scheme. -/
def schemedNames : List String := ["node:sea", "node:sqlite", "node:test"]

/-- Whether this is the full name of a module of the runtime. -/
def isRuntimeName (name : String) : Bool :=
  plainNames.contains name || schemedNames.contains name ||
    (match Text.dropStart? name scheme with
      | some rest => plainNames.contains rest
      | none => false)

/-- Whether a specifier leads to a module of the runtime, or to one of `extra`:
by itself or by the package that it names. -/
def covers (extra : List String) (specifier : String) : Bool :=
  [specifier, Specifier.packageName specifier].any fun name =>
    isRuntimeName name || extra.contains name

end ImportResolution.Builtins
