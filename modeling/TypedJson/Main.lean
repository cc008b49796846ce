import TypedJson.CommandLine.Run

/-!
# The program

Runs the command line over the files of the disk.
-/

namespace TypedJson

/-- The access to the files of the disk. -/
def diskAccess : FileAccess IO where
  kind? path := do
    try
      let info ← (← IO.FS.realPath path).metadata
      return some (if info.type == .dir then .directory else .file)
    catch _ => return none
  names path := do
    try return (← (← IO.FS.realPath path).readDir).toList.map (·.fileName)
    catch _ => return []
  read? path := do
    try return some (← IO.FS.readBinFile path).toList
    catch _ => return none
  write path bytes := do
    let parent := (path.splitOn "/").dropLast
    try
      if parent.any (· ≠ "") then IO.FS.createDirAll ("/".intercalate parent)
      IO.FS.writeBinFile path (ByteArray.mk bytes.toArray)
      return none
    catch e => return some (toString e)
  remove path := do
    try IO.FS.removeFile path
    catch _ => return ()

end TypedJson

/-- Runs the command line. -/
def main (arguments : List String) : IO UInt32 := do
  let outcome ← TypedJson.CommandLine.run TypedJson.diskAccess arguments
  (← IO.getStdout).putStr outcome.out
  (← IO.getStderr).putStr outcome.err
  return outcome.code.toUInt32
