import ShellToC.CommandLine
import ShellToC.File.Tree

/-
  This file defines the program: the command line over the
  files of the system.

  Key definitions include:
    * `ShellToC.systemFiles`
    * `main`
-/

namespace ShellToC

------------------------------------------------------------
-- System Files
------------------------------------------------------------

/- The fault that an error number of the system stands for. -/
def systemFault
    (code : UInt32)
    (error : IO.Error) : FileFault :=
  if code = 2 then
    .notFound
  else if code = 20 then
    .notADirectory
  else if code = 21 then
    .isADirectory
  else
    .other (toString error).toList

/- The fault that an error of the system stands for. -/
def fileFault
    (error : IO.Error) : FileFault :=
  match error with
  | .noFileOrDirectory _ code _ => systemFault code error
  | .inappropriateType _ code _ => systemFault code error
  | .otherError code _ => systemFault code error
  | _ => .other (toString error).toList

/- Access to the files of the system. -/
def systemFiles : FileAccess IO where
  read path := do
    try
      return FileTree.decode
        (← IO.FS.readBinFile (String.ofList path))
    catch error =>
      return .error (fileFault error)
  write path text := do
    try
      IO.FS.writeBinFile (String.ofList path) (FileTree.encode text)
      return .ok ()
    catch error =>
      return .error (fileFault error)
  workingDir := do
    try
      return some (← IO.currentDir).toString.toList
    catch _ =>
      return none

end ShellToC

------------------------------------------------------------
-- Program
------------------------------------------------------------

open ShellToC

/-
  Run the command line and print what it reports.  The
  variable RUST_LOG of the environment sets the log filter.
-/
def main
    (arguments : List String) : IO UInt32 := do
  let setting ← IO.getEnv "RUST_LOG"
  let report ← CommandLine.run systemFiles
    (setting.map String.toList) (arguments.map String.toList)
  (← IO.getStdout).putStr (String.ofList report.out)
  (← IO.getStderr).putStr (String.ofList report.err)
  return report.code.toUInt32
