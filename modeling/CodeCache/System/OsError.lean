/-
Errors of the operating system, in the words it uses for them.
-/

namespace CodeCache

inductive OsError where
  | notFound
  | inputOutput
  | execFormat
  | permissionDenied
  | alreadyExists
  | notADirectory
  | isADirectory
  | fileTooLarge
  | noSpace
  | brokenPipe
  | nameTooLong
  | tooManyLinks
  /-- a path that holds a NUL -/
  | nulInPath
  /-- a program name or argument that holds a NUL -/
  | nulInProgram
  /-- bytes read as text that are not UTF-8 -/
  | notText
  /-- the data ended before all that was asked for -/
  | endedEarly
deriving DecidableEq, Repr

def OsError.message : OsError → String
  | .notFound => "No such file or directory (os error 2)"
  | .inputOutput => "Input/output error (os error 5)"
  | .execFormat => "Exec format error (os error 8)"
  | .permissionDenied => "Permission denied (os error 13)"
  | .alreadyExists => "File exists (os error 17)"
  | .notADirectory => "Not a directory (os error 20)"
  | .isADirectory => "Is a directory (os error 21)"
  | .fileTooLarge => "File too large (os error 27)"
  | .noSpace => "No space left on device (os error 28)"
  | .brokenPipe => "Broken pipe (os error 32)"
  | .nameTooLong => "File name too long (os error 36)"
  | .tooManyLinks => "Too many levels of symbolic links (os error 40)"
  | .nulInPath => "file name contained an unexpected NUL byte"
  | .nulInProgram => "nul byte found in provided data"
  | .notText => "stream did not contain valid UTF-8"
  | .endedEarly => "failed to fill whole buffer"

end CodeCache
