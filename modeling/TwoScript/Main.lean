import TwoScript.Command.Run

/-!
# The command line

The outermost layer: files and channels of the operating system.
-/

namespace TwoScript

def DiskError.ofSystem : IO.Error → DiskError
  | .noFileOrDirectory _ _ _ => .missing
  | e => .other (toString e)

def systemDisk : Disk IO where
  read path :=
    try
      return decodeText (← IO.FS.readBinFile path)
    catch e => return .error (.ofSystem e)
  write path text :=
    try
      IO.FS.writeBinFile path text.toUTF8
      return .ok ()
    catch e => return .error (.ofSystem e)

end TwoScript

def main (args : List String) : IO UInt32 := do
  let report ← TwoScript.execute TwoScript.systemDisk args
  (← IO.getStdout).putStr report.outText
  (← IO.getStderr).putStr report.errText
  return report.code.toUInt32
