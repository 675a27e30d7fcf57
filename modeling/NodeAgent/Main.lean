import NodeAgent.Offline

/-!
The program itself. It lends the service the configuration file, and keeps the files that the
service leaves. It is built without a way to other machines, so that every panel counts as out of
reach.
-/

namespace NodeAgent

def numberAfter (word text : String) : Option Nat :=
  (text.splitOn "\n").findSome? fun line =>
    match line.splitOn " " with
    | first :: value :: _ => if first = word then value.toNat? else none
    | _ => none

/-- Seconds since 1970, from when the machine was started and how long it has been up. -/
def readClock : IO Int := do
  let boot := (numberAfter "btime" (← IO.FS.readFile "/proc/stat")).getD 0
  return boot + (← IO.monoMsNow) / 1000

def configPathOf (args : List String) : Option String :=
  match CommandLine.parse args with
  | .server path _ => some path
  | _ => none

def lendFile (files : FileTree) (path : String) : IO FileTree := do
  try
    let text ← IO.FS.readFile path
    return (CertManager.writeFile files path text).1
  catch _ => return files

/--
Writes what is in `after` and not in `before`, what came first before what came later. A file that
exists is continued.
-/
def keepNewFiles (before after : FileTree) : IO Unit :=
  after.nodes.entries.reverse.forM fun (parts, node) => do
    let path := "/" ++ "/".intercalate parts
    if (before.nodes.find? parts).isNone then
      match node with
      | .directory => IO.FS.createDirAll path
      | .file text => IO.FS.withFile path .append (·.putStr text)

end NodeAgent

open NodeAgent in
def main (args : List String) : IO UInt32 := do
  let directory ← IO.currentDir
  let empty := FileTree.ofWorkingDirectory directory.toString
  let files ← match configPathOf args with
    | some path => lendFile empty path
    | none => pure empty
  let epoch ← try readClock catch _ => pure 0
  let h : Host Offline := { files, outside := {}, epoch }
  let (h, out, ending) := Service.run args h
  keepNewFiles files h.files
  IO.print out
  match ending with
  | .failure f => IO.eprintln ("Error: " ++ f.message)
  | .misuse => IO.eprint CommandLine.help
  | _ => pure ()
  return ending.code
