import Offside.CommandLine.Run

namespace Offside.CommandLine

def readText (bytes : IO ByteArray) : IO (Except String (List Char)) := do
  try
    return FileTree.decode (← bytes)
  catch e =>
    return .error (String.ofList ((toString e).toList.takeWhile (· != '\n')))

def isDiskFile (path : String) : IO Bool := do
  let place := (← IO.currentDir) / path
  try
    return (← place.metadata).type == .file
  catch _ =>
    return false

def diskFiles : Files IO :=
  { isFile := isDiskFile
    read := fun path => readText (IO.FS.readBinFile path)
    standardInput := do readText (← IO.getStdin).readBinToEnd }

end Offside.CommandLine

def main (args : List String) : IO UInt32 := do
  let outcome ← Offside.CommandLine.respond Offside.CommandLine.diskFiles args
  IO.print outcome.stdout
  for notice in outcome.notices do
    IO.eprintln notice.text
  for summary in outcome.summary? do
    IO.eprintln summary
  return outcome.exitCode.toUInt32
