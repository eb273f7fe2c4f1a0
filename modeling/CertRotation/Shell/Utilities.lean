import CertRotation.Shell.Utilities.Condition
import CertRotation.Shell.Utilities.File

/-!
# Utilities

The programs that instructions can call, by their names.
-/
namespace CertRotation.Shell

/-- Programs that neither read nor change anything. -/
def constantProgram? (name : String) (args : List String) : Option String :=
  match name, args with
  | "whoami", _ => some "root"
  | "uname", [] => some "Linux"
  | "uname", ["-s"] => some "Linux"
  | "id", ["-u"] => some "0"
  | "id", ["-g"] => some "0"
  | "id", ["-un"] => some "root"
  | "id", ["-gn"] => some "root"
  | "arch", [] => some "x86_64"
  | "uname", ["-m"] => some "x86_64"
  | "id", [] => some "uid=0(root) gid=0(root) groups=0(root)"
  | _, _ => none

def constantProgram (name : String) : Utility := fun args m =>
  match constantProgram? name args with
  | some line => (m.printLine line).ended 0
  | none => m.ended 1

def utilities : List (String × Utility) :=
  [("echo", echo), ("printf", printf), ("test", test "test"), ("[", bracket), ("true", fun _ m => m.ended 0),
   ("false", fun _ m => m.ended 1), ("cat", cat), ("tac", tac), ("rev", rev), ("head", head), ("tail", tail), ("wc", wc),
   ("tr", tr), ("sort", sort), ("uniq", uniq), ("cut", cut), ("grep", grep), ("seq", seq), ("yes", yes),
   ("base64", base64), ("sha1sum", digests "sha1sum" sha1.digest), ("sha256sum", digests "sha256sum" sha256.digest),
   ("sha512sum", digests "sha512sum" sha512.digest), ("cp", cp), ("mv", mv), ("rm", rm), ("rmdir", rmdir),
   ("touch", touch), ("tee", tee), ("chmod", chmod), ("cmp", cmp), ("ls", ls), ("mkdir", mkdir), ("basename", basename),
   ("dirname", dirname), ("readlink", readlink), ("stat", stat), ("sleep", fun _ m => m.ended 0),
   ("sync", fun _ m => m.ended 0), ("whoami", constantProgram "whoami"), ("uname", constantProgram "uname"),
   ("id", constantProgram "id"), ("arch", constantProgram "arch"),
   ("tty", fun _ m => (m.printLine "not a tty").ended 1),
   ("pwd", fun _ m => (m.printLine (Path.absolute m.files.working)).ended 0)]

def utility? (name : String) : Option Utility := utilities.lookup name

end CertRotation.Shell
