/-! # Why a file cannot be used

    The causes for which a path cannot be read, written or made, with the wording of the
    operating system for each.
-/

namespace TaggedUnion

/-- A cause for which a file cannot be used, or a line of input cannot be read. -/
inductive FileError where
  /-- There is nothing at the path. -/
  | notFound
  /-- There is already something at the path. -/
  | alreadyExists
  /-- The path leads through a file. -/
  | notDirectory
  /-- The path leads to a directory, where a file is needed. -/
  | isDirectory
  /-- The path, or a name in it, is too long. -/
  | nameTooLong
  /-- A name in the path has a null character. -/
  | nullInName
  /-- The contents are not text in UTF-8. -/
  | notText
  /-- Another cause that the system reports. -/
  | other (text : String)
deriving Repr, DecidableEq

/-- The wording of a cause. -/
def FileError.message : FileError → String
  | .notFound => "No such file or directory (os error 2)"
  | .alreadyExists => "File exists (os error 17)"
  | .notDirectory => "Not a directory (os error 20)"
  | .isDirectory => "Is a directory (os error 21)"
  | .nameTooLong => "File name too long (os error 36)"
  | .nullInName => "file name contained an unexpected NUL byte"
  | .notText => "stream did not contain valid UTF-8"
  | .other text => text

/-- The wording of a cause where work on files is reported. -/
def FileError.report (e : FileError) : String := "IO error: " ++ e.message

/-- The texts of a reported cause and of what caused it, outermost first. -/
def FileError.trail (e : FileError) : List String := [e.report, e.message]

end TaggedUnion
