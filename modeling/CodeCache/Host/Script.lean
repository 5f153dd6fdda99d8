/-
The script an engine host runs: framed requests on its standard input, framed replies on its
standard output.
-/
import CodeCache.Text

namespace CodeCache

def HostScript.lines : List String :=
  ["'use strict';",
    "// kiln engine host: framed requests on stdin, framed responses on stdout.",
    "// frame = [tag u8][len u32le][payload]",
    "",
    "const vm = require('vm');",
    "const path = require('path');",
    "const Module = require('module');",
    "",
    "const OP_VERSION = 0;",
    "const OP_COMPILE = 1;",
    "const OP_RUN = 2;",
    "",
    "const STATUS_OK = 0;",
    "const STATUS_ERROR = 1;",
    "",
    "const protocolWrite = process.stdout.write.bind(process.stdout);",
    "// scripts run by the host must not write into the protocol stream",
    "process.stdout.write = process.stderr.write.bind(process.stderr);",
    "",
    "function reply(status, payload) \x7b",
    "  const body = Buffer.isBuffer(payload) ? payload : Buffer.from(String(payload), 'utf8');",
    "  const head = Buffer.alloc(5);",
    "  head.writeUInt8(status, 0);",
    "  head.writeUInt32LE(body.length, 1);",
    "  protocolWrite(Buffer.concat([head, body]));",
    "\x7d",
    "",
    "function project(value) \x7b",
    "  try \x7b",
    "    const text = JSON.stringify(value);",
    "    return text === undefined ? null : JSON.parse(text);",
    "  \x7d catch (err) \x7b",
    "    return String(value);",
    "  \x7d",
    "\x7d",
    "",
    "function makeRequire(mod) \x7b",
    "  function require(id) \x7b",
    "    return mod.require(id);",
    "  \x7d",
    "  require.resolve = function (request, options) \x7b",
    "    return Module._resolveFilename(request, mod, false, options);",
    "  \x7d;",
    "  require.main = process.mainModule || mod;",
    "  require.extensions = Module._extensions;",
    "  require.cache = Module._cache;",
    "  return require;",
    "\x7d",
    "",
    "function run(payload) \x7b",
    "  const headerLen = payload.readUInt32LE(0);",
    "  const header = JSON.parse(payload.subarray(4, 4 + headerLen).toString('utf8'));",
    "  const cachedData = payload.subarray(4 + headerLen);",
    "",
    "  const script = new vm.Script(header.placeholder, \x7b",
    "    filename: header.filename,",
    "    cachedData,",
    "  \x7d);",
    "  if (script.cachedDataRejected) \x7b",
    "    return \x7b rejected: true, value: null \x7d;",
    "  \x7d",
    "",
    "  const result = script.runInThisContext(\x7b filename: header.filename, displayErrors: true \x7d);",
    "  if (header.invocation !== 'module') \x7b",
    "    return \x7b rejected: false, value: project(result) \x7d;",
    "  \x7d",
    "",
    "  const dirname = path.dirname(header.filename);",
    "  const mod = new Module(header.filename, null);",
    "  mod.filename = header.filename;",
    "  mod.paths = Module._nodeModulePaths(dirname);",
    "  const args = [mod.exports, makeRequire(mod), mod, header.filename, dirname, process, global];",
    "  result.apply(mod.exports, args);",
    "  mod.loaded = true;",
    "  return \x7b rejected: false, value: project(mod.exports) \x7d;",
    "\x7d",
    "",
    "function handle(op, payload) \x7b",
    "  try \x7b",
    "    switch (op) \x7b",
    "      case OP_VERSION:",
    "        return reply(STATUS_OK, JSON.stringify(\x7b node: process.version, v8: process.versions.v8 \x7d));",
    "      case OP_COMPILE:",
    "        return reply(STATUS_OK, new vm.Script(payload.toString('utf8')).createCachedData());",
    "      case OP_RUN:",
    "        return reply(STATUS_OK, JSON.stringify(run(payload)));",
    "      default:",
    "        return reply(STATUS_ERROR, 'unknown op ' + op);",
    "    \x7d",
    "  \x7d catch (err) \x7b",
    "    return reply(STATUS_ERROR, err && err.stack ? err.stack : String(err));",
    "  \x7d",
    "\x7d",
    "",
    "let pending = Buffer.alloc(0);",
    "",
    "process.stdin.on('data', (chunk) => \x7b",
    "  pending = pending.length ? Buffer.concat([pending, chunk]) : chunk;",
    "  while (pending.length >= 5) \x7b",
    "    const len = pending.readUInt32LE(1);",
    "    if (pending.length < 5 + len) \x7b",
    "      break;",
    "    \x7d",
    "    const op = pending[0];",
    "    const payload = Buffer.from(pending.subarray(5, 5 + len));",
    "    pending = pending.subarray(5 + len);",
    "    handle(op, payload);",
    "  \x7d",
    "\x7d);",
    "",
    "process.stdin.on('end', () => process.exit(0));"]

/-- the text given to the host on its command line -/
def HostScript.text : Text := Text.ofLines HostScript.lines

end CodeCache
