import ComponentTags.CommandLine.Running

/-!
# Program

The files that a call may use are named on standard input, one path to a line.
-/

namespace ComponentTags

/-- Reads the lines of a stream to its end. -/
partial def readLines (input : IO.FS.Stream) (lines : List Text) : IO (List Text) := do
  let line ← input.getLine
  if line.isEmpty then return lines.reverse
  readLines input ((Text.dropEndWhile (· == '\n') line.toList) :: lines)

/-- Puts a file of the disk into a tree, under its path from the top. -/
def addFile (folder : Text) (tree : FileTree) (path : Text) : IO FileTree := do
  let content ← IO.FS.readBinFile (String.ofList path)
  let names := (Text.split '/' (Path.join folder path)).filter Path.isNamed
  return tree.insert names (.file ((String.fromUTF8? content).map String.toList))

end ComponentTags

open ComponentTags in
def main (arguments : List String) : IO UInt32 := do
  let folder := (toString (← IO.currentDir)).toList
  let paths ← readLines (← IO.getStdin) []
  let tree ← paths.foldlM (addFile folder) (FileTree.folder [])
  let debugVariable := (← IO.getEnv "TAGPLATE_DEBUG").map String.toList
  let outcome := CommandLine.run { top := tree, workingFolder := folder } debugVariable
    (arguments.map String.toList)
  IO.print (String.ofList outcome.output)
  for complaint in outcome.complaints do
    IO.eprintln (String.ofList complaint)
  return outcome.code.toUInt32
