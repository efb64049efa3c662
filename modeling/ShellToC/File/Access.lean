import ShellToC.Text.Basic

/-
  This file defines how files are read and written, by
  whatever keeps them, and how that can fail.

  Key definitions include:
    * `FileFault`
    * `FileFault.message`
    * `FileAccess`
-/

namespace ShellToC

------------------------------------------------------------
-- Faults
------------------------------------------------------------

/- Why a file cannot be read or written. -/
inductive FileFault where
  | notFound
  | notADirectory
  | isADirectory
  | notText
  | nulInPath
  | other (message : Text)
  deriving DecidableEq, Repr

namespace FileFault

/- The message that reports a fault. -/
def message : FileFault → Text
  | .notFound => "No such file or directory (os error 2)"
  | .notADirectory => "Not a directory (os error 20)"
  | .isADirectory => "Is a directory (os error 21)"
  | .notText => "stream did not contain valid UTF-8"
  | .nulInPath => "file name contained an unexpected NUL byte"
  | .other message => message

end FileFault

------------------------------------------------------------
-- Access
------------------------------------------------------------

/- Reading and writing of texts, and the working directory. -/
structure FileAccess (m : Type → Type) where
  read : Text → m (Except FileFault Text)
  write : Text → Text → m (Except FileFault Unit)
  workingDir : m (Option Text)

end ShellToC
