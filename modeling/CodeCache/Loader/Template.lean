/-
The loader script, with two holes: the extension it registers, and the layouts by which it patches.
-/
import CodeCache.Text

namespace CodeCache.Loader

/-- the hole for the extension -/
def extensionMark : Text := "/*__KILN_EXTNAME__*/"

/-- the hole for the layouts -/
def layoutsMark : Text := "/*__KILN_LAYOUTS__*/"

def templateLines : List String :=
  ["'use strict';",
    "// kiln loader: runs code caches produced by `kiln compile` without their source.",
    "",
    "const fs = require('fs');",
    "const path = require('path');",
    "const vm = require('vm');",
    "const v8 = require('v8');",
    "const Module = require('module');",
    "",
    "v8.setFlagsFromString('--no-lazy');",
    "v8.setFlagsFromString('--no-flush-bytecode');",
    "",
    "const EXTNAME = /*__KILN_EXTNAME__*/;",
    "const LAYOUTS = /*__KILN_LAYOUTS__*/;",
    "const REFERENCE_SOURCE = '\"ಠ_ಠ\"';",
    "const FILLER = '\\u200B';",
    "",
    "function parseVersion(version) \x7b",
    "  const parts = String(version).replace(/^v/, '').split(/[.-]/);",
    "  return [0, 1, 2].map((i) => parseInt(parts[i], 10) || 0);",
    "\x7d",
    "",
    "function compareVersions(a, b) \x7b",
    "  for (let i = 0; i < 3; i++) \x7b",
    "    if (a[i] !== b[i]) \x7b",
    "      return a[i] < b[i] ? -1 : 1;",
    "    \x7d",
    "  \x7d",
    "  return 0;",
    "\x7d",
    "",
    "function layoutFor(version) \x7b",
    "  const current = parseVersion(version);",
    "  const layout = LAYOUTS.find(",
    "    (entry) =>",
    "      (entry.min === null || compareVersions(current, entry.min) >= 0) &&",
    "      (entry.below === null || compareVersions(current, entry.below) < 0)",
    "  );",
    "  return layout ? layout.spans : [];",
    "\x7d",
    "",
    "let referenceCache = null;",
    "",
    "function reference() \x7b",
    "  if (referenceCache === null) \x7b",
    "    referenceCache = new vm.Script(REFERENCE_SOURCE).createCachedData();",
    "  \x7d",
    "  return referenceCache;",
    "\x7d",
    "",
    "function fixBytecode(bytecodeBuffer) \x7b",
    "  if (!Buffer.isBuffer(bytecodeBuffer)) \x7b",
    "    throw new TypeError('bytecodeBuffer must be a buffer object.');",
    "  \x7d",
    "",
    "  const dummy = reference();",
    "  for (const [start, end] of layoutFor(process.version)) \x7b",
    "    if (bytecodeBuffer.length < end || dummy.length < end) \x7b",
    "      throw new RangeError('Cached data is too short for its header (' + bytecodeBuffer.length + ' bytes).');",
    "    \x7d",
    "    dummy.copy(bytecodeBuffer, start, start, end);",
    "  \x7d",
    "\x7d",
    "",
    "function readSourceLength(bytecodeBuffer) \x7b",
    "  if (!Buffer.isBuffer(bytecodeBuffer)) \x7b",
    "    throw new TypeError('bytecodeBuffer must be a buffer object.');",
    "  \x7d",
    "  if (bytecodeBuffer.length < 12) \x7b",
    "    throw new RangeError('Cached data is too short for its header (' + bytecodeBuffer.length + ' bytes).');",
    "  \x7d",
    "  return bytecodeBuffer.readUInt32LE(8);",
    "\x7d",
    "",
    "function placeholderSource(length) \x7b",
    "  if (length <= 1) \x7b",
    "    return '';",
    "  \x7d",
    "  return '\"' + FILLER.repeat(length - 2) + '\"';",
    "\x7d",
    "",
    "function loadScript(bytecodeBuffer, filename) \x7b",
    "  fixBytecode(bytecodeBuffer);",
    "  const length = readSourceLength(bytecodeBuffer);",
    "",
    "  const script = new vm.Script(placeholderSource(length), \x7b",
    "    cachedData: bytecodeBuffer,",
    "    filename: filename,",
    "  \x7d);",
    "",
    "  if (script.cachedDataRejected) \x7b",
    "    throw new Error('Invalid or incompatible cached data (cachedDataRejected)');",
    "  \x7d",
    "",
    "  return script;",
    "\x7d",
    "",
    "function runBytecode(bytecodeBuffer) \x7b",
    "  return loadScript(bytecodeBuffer).runInThisContext();",
    "\x7d",
    "",
    "function runBytecodeFile(filename) \x7b",
    "  if (typeof filename !== 'string') \x7b",
    "    throw new TypeError('filename must be a string. ' + typeof filename + ' was given.');",
    "  \x7d",
    "  return runBytecode(fs.readFileSync(filename));",
    "\x7d",
    "",
    "Module._extensions[EXTNAME] = function (fileModule, filename) \x7b",
    "  const script = loadScript(fs.readFileSync(filename), filename);",
    "",
    "  function require(id) \x7b",
    "    return fileModule.require(id);",
    "  \x7d",
    "  require.resolve = function (request, options) \x7b",
    "    return Module._resolveFilename(request, fileModule, false, options);",
    "  \x7d;",
    "  if (process.mainModule) \x7b",
    "    require.main = process.mainModule;",
    "  \x7d",
    "  require.extensions = Module._extensions;",
    "  require.cache = Module._cache;",
    "",
    "  const compiledWrapper = script.runInThisContext(\x7b",
    "    filename: filename,",
    "    lineOffset: 0,",
    "    columnOffset: 0,",
    "    displayErrors: true,",
    "  \x7d);",
    "",
    "  const dirname = path.dirname(filename);",
    "  const args = [fileModule.exports, require, fileModule, filename, dirname, process, global];",
    "  return compiledWrapper.apply(fileModule.exports, args);",
    "\x7d;",
    "",
    "module.exports = \x7b",
    "  extname: EXTNAME,",
    "  runBytecode: runBytecode,",
    "  runBytecodeFile: runBytecodeFile,",
    "\x7d;"]

def template : Text := Text.ofLines templateLines

end CodeCache.Loader
