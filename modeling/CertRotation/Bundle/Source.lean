import CertRotation.Bundle.Packaging
import CertRotation.Files.Tree

/-!
# PEM files as sources

A `PemSource` names the files that PEM material is read from. The certificate file may hold the chain and the key as
well. Blocks are taken over whole, so that nothing is lost between the files and the material.
-/
namespace CertRotation

/-- Where the PEM material of a bundle comes from. -/
structure PemSource where
  /-- The certificate, perhaps with its issuers and its key. -/
  certificate : String
  /-- The file of the key, if it is not in that of the certificate. -/
  privateKey : Option String := none
  /-- The file of further issuers. -/
  chain : Option String := none
  keyPassword : Option String := none
  deriving DecidableEq, Repr

namespace PemSource

/-- Why no material could be read. -/
inductive LoadError where
  | files (f : Files.Failure)
  | bundle (e : Bundle.Error)
  deriving DecidableEq, Repr

def isCertificate (p : Pem) : Bool := p.tag = Certificate.pemTag

def isPrivateKey (p : Pem) : Bool := "PRIVATE KEY".toList.isSuffixOf p.tag.toList

/-- The certificate in a file, that is the first block of its kind, and all other blocks. Without such a block the first
one stands for it, and without any block the whole text, for the packaging to refuse. -/
def splitLeaf (text : String) (blocks : List Pem) : String × List Pem :=
  let i := (blocks.findIdx? isCertificate).getD 0
  match blocks[i]? with
  | some leaf => (leaf.encode, blocks.eraseIdx i)
  | none => (text, [])

/-- The chain entries in a file of their own. A text without blocks is an entry of its own, for the packaging to
refuse. -/
def chainEntries (text : String) (blocks : List Pem) : List String :=
  if blocks = [] ∧ ¬ Text.isBlankText text then [text] else blocks.map Pem.encode

def readText (t : FileTree) (path : String) : Except LoadError String :=
  (Files.about path (t.readText path)).mapError .files

/-- The chain entries in the file at `path`, which follow `count` others. -/
def loadChain (t : FileTree) (count : Nat) (path : String) : Except LoadError (List String) := do
  let text ← readText t path
  let blocks ← (Pem.blocks text).mapError fun e =>
    .bundle (.chainEntry (count + e.complete) (.file path e))
  pure (chainEntries text blocks)

def load (s : PemSource) (t : FileTree) : Except LoadError PemMaterial := do
  let text ← readText t s.certificate
  let blocks ← (Pem.blocks text).mapError fun e => .bundle (.certificate (.file s.certificate e))
  let (leaf, others) := splitLeaf text blocks
  let issuers := (others.filter isCertificate).map Pem.encode
  let key ← match s.privateKey with
    | some path => readText t path
    | none => pure (((others.find? isPrivateKey).map Pem.encode).getD "")
  let further ← match s.chain with
    | some path => loadChain t issuers.length path
    | none => pure []
  pure ⟨leaf, key, issuers ++ further, s.keyPassword⟩

end PemSource
end CertRotation
