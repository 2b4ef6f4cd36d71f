import CloudPolicy.Maintenance.Command

/-!
The maintenance command on a real file system. The directories that a command may look at are read
first, the command runs on them as values, and what it has changed is written back.
-/

set_option autoImplicit false
set_option relaxedAutoImplicit false

namespace CloudPolicy.Maintenance

/-- The tree with what stands at a path, and below it as deep as `depth`. -/
def loaded (depth : Nat) (t : FileTree) (path : String) : IO FileTree := do
  let place := (← IO.currentDir) / path
  match ← place.metadata.toBaseIO with
  | .error _ => return t
  | .ok here =>
    if here.type != .dir then
      let entry ← match ← (IO.FS.readBinFile path).toBaseIO with
        | .ok bytes => pure (.file (.ofByteArray bytes))
        | .error _ => pure .locked
      return (t.place path).toOption.elim t fun p => t.put p.names entry
    let t := (t.makeDirectories path).1
    match depth with
    | 0 => return t
    | depth + 1 =>
      (← place.readDir).foldlM (fun t entry => loaded depth t (FilePath.join path entry.fileName)) t

def store (before after : FileTree) : IO Unit :=
  (after.entries.reverse.filter fun e => !before.entries.contains e).forM fun (names, entry) =>
    let path := "/" ++ String.intercalate "/" (names.map Bytes.display)
    match entry with
    | .directory => IO.FS.createDirAll path
    | .file content => IO.FS.writeBinFile path ⟨content.octets.toArray⟩
    | .locked => pure ()

/-- The directory of the package that the command belongs to, from the root. -/
def packageDirectory : IO String := do
  let here := toString (← IO.currentDir)
  match ← IO.getEnv "CARGO_MANIFEST_DIR" with
  | none => return here
  | some dir => return if Text.beginsWith "/" dir then dir else FilePath.join here dir

/-- Runs a command line where it stands. Reports are compared without their times, so that the clock
may stand still. -/
def runInPlace (args : List String) : IO UInt32 := do
  let dir ← packageDirectory
  let project := projectDirectory dir
  let above ← (FilePath.ancestors (fixturesDirectory project)).reverse.foldlM (loaded 0) .empty
  let files ← loaded 3 (← loaded 1 above (schemasDirectory project)) (fixturesDirectory project)
  let outcome := run args dir (fun _ => .epoch) files
  store files outcome.files
  IO.print outcome.out
  IO.eprint outcome.err
  return UInt32.ofNat outcome.exitCode

end CloudPolicy.Maintenance

def main (args : List String) : IO UInt32 := CloudPolicy.Maintenance.runInPlace args
