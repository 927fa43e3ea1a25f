import Dataflow.CommandLine.Run

namespace Dataflow.CommandLine

-- Why a file cannot be read.
def readFault : IO.Error → String
  | .noFileOrDirectory _ _ _ => "No such file or directory (os error 2)"
  | .permissionDenied _ _ _ => "Permission denied (os error 13)"
  | .inappropriateType _ _ _ => "Is a directory (os error 21)"
  | fault => toString fault

def readText (path : String) : IO (String × Except String String) := do
  match ← (IO.FS.readBinFile path).toBaseIO with
  | .error fault => return (path, .error (readFault fault))
  | .ok bytes =>
      match String.fromUTF8? bytes with
      | some text => return (path, .ok text)
      | none => return (path, .error "stream did not contain valid UTF-8")

def randomUuid : IO Uuid := do
  let bytes ← IO.getRandomBytes 16
  let bits := bytes.toList.foldl (fun sum byte => 256 * sum + byte.toNat) 0
  return Uuid.ofRandom (BitVec.ofNat 128 bits)

end Dataflow.CommandLine

def main (args : List String) : IO UInt32 := do
  let texts ← (Dataflow.CommandLine.wanted args).mapM Dataflow.CommandLine.readText
  let files : Dataflow.CommandLine.Files := fun path =>
    (texts.lookup path).getD (.error "not read")
  let uuid := Dataflow.CommandLine.randomUuid
  let outcome := Dataflow.CommandLine.run files ⟨← uuid, ← uuid, ← uuid⟩ args
  (← IO.getStdout).putStr outcome.out
  (← IO.getStderr).putStr outcome.err
  return outcome.code.toUInt32
