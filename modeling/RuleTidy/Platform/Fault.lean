/-! What the operating system reports when it cannot do what it was asked for. -/

namespace RuleTidy.Platform

inductive Fault where
  | noSuchFile
  | permissionDenied
  | notADirectory
  | isADirectory
  | nameTooLong
  | executableFormat
  | containsNul
  /-- The bytes of a file are not UTF-8. -/
  | notUtf8
  deriving DecidableEq

def Fault.message : Fault → String
  | .noSuchFile => "No such file or directory (os error 2)"
  | .executableFormat => "Exec format error (os error 8)"
  | .permissionDenied => "Permission denied (os error 13)"
  | .notADirectory => "Not a directory (os error 20)"
  | .isADirectory => "Is a directory (os error 21)"
  | .nameTooLong => "File name too long (os error 36)"
  | .containsNul => "nul byte found in provided data"
  | .notUtf8 => "stream did not contain valid UTF-8"

end RuleTidy.Platform
