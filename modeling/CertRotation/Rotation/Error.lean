import CertRotation.Rotation.Instruction
import CertRotation.Settings.Basic

/-!
# Why a rotation fails
-/
namespace CertRotation.Rotation

inductive Error where
  | bundle (e : Bundle.Error)
  | settings (e : Settings.Error)
  | hook (e : HookError)
  | files (f : Files.Failure)
  deriving DecidableEq, Repr

def Error.message (w : Wording) : Error → String
  | bundle e => s!"Bundle error: {e.message w}"
  | settings e => s!"Configuration error: {e.message w}"
  | hook e => s!"Hook error: {e.message w}"
  | files f => f.message w.fault

def Error.ofLoad : PemSource.LoadError → Error
  | .files f => .files f
  | .bundle e => .bundle e

/-! ## Causes

An error is told together with its causes, each in its own words, the outermost first. -/

def bundleCauses (w : Wording) (e : Bundle.Error) : List String :=
  match e with
  | .chainEntry _ cause => [e.message w, cause.message w]
  | _ => [e.message w]

def hookCauses (w : Wording) (e : HookError) : List String :=
  match e with
  | .spawn _ fault => [e.message w, w.fault fault]
  | _ => [e.message w]

def Error.causes (w : Wording) (e : Error) : List String :=
  e.message w ::
    match e with
    | bundle inner => bundleCauses w inner
    | settings inner => [inner.message w]
    | hook inner => hookCauses w inner
    | files f => [w.fault f.fault]

end CertRotation.Rotation
