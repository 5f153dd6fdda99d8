/-
The script an isolated compiler runs: a source on its standard input, the cache on its standard
output.
-/
import CodeCache.Engine.Flags

namespace CodeCache

namespace IsolatedScript

/-- the place where the engine flags are set -/
def flagsMark : Text := "/*__ENGINE_FLAGS__*/"

def lines : List String :=
  ["'use strict';",
    "// kiln isolated compiler: source on stdin, code cache on stdout.",
    "",
    "const v8 = require('v8');",
    "const vm = require('vm');",
    "",
    "/*__ENGINE_FLAGS__*/",
    "",
    "let source = '';",
    "",
    "process.stdin.setEncoding('utf-8');",
    "",
    "process.stdin.on('data', (chunk) => \x7b",
    "  source += chunk;",
    "\x7d);",
    "",
    "process.stdin.on('end', () => \x7b",
    "  try \x7b",
    "    const data = new vm.Script(source).createCachedData();",
    "    process.stdout.write(data);",
    "    if (process.send) \x7b",
    "      process.send(\x7b stage: 'compiled', bytes: data.length \x7d);",
    "      process.disconnect();",
    "    \x7d",
    "  \x7d catch (err) \x7b",
    "    console.error(err && err.stack ? err.stack : String(err));",
    "    process.exitCode = 1;",
    "  \x7d",
    "\x7d);"]

/-- the script with the given flags set before anything is compiled -/
def text (flags : EngineFlags) : Text :=
  Text.replaceFirst flagsMark flags.statements (Text.ofLines lines)

end IsolatedScript

end CodeCache
