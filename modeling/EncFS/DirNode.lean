import EncFS.NameIO

/-! The directory layer: paths in the backing directory, and the listing of a directory. -/

set_option autoImplicit false

namespace EncFS

structure DirNode where
  rootDir : Bytes
  naming : NameIO

structure DirTraverse where
  entries : List Bytes
  iv : UInt64
  naming : NameIO

namespace DirTraverse

def nextPlaintextName (naming : NameIO) (iv : UInt64) : List Bytes → Bytes × List Bytes
  | [] => ([], [])
  | d_name :: entries =>
    match naming.decodePathIV d_name iv with
    | .ok (name, _) => (name, entries)
    | .error _ => nextPlaintextName naming iv entries

def nextNames (naming : NameIO) (iv : UInt64) : (fuel : ℕ) → List Bytes → List Bytes
  | 0, _ => []
  | fuel + 1, entries =>
    let (name, entries) := nextPlaintextName naming iv entries
    if name = [] then [] else name :: nextNames naming iv fuel entries

def plaintextNames (t : DirTraverse) : List Bytes :=
  nextNames t.naming t.iv (t.entries.length + 1) t.entries

end DirTraverse

namespace DirNode

variable (D : DirNode)

def hasDirectoryNameDependency : Bool :=
  D.naming.chainedNameIV

def cipherPath (plaintextPath : Bytes) : Except RlogError Bytes := do
  let path ← D.naming.encodePath plaintextPath
  pure (D.rootDir ++ path)

def decodeTarget (cipherPath_ : Bytes) : Except RlogError Bytes :=
  if D.rootDir <+: cipherPath_ then
    D.naming.decodePath (cipherPath_.drop D.rootDir.length)
  else
    match cipherPath_ with
    | [] => D.naming.decodePath []
    | c :: path =>
      if c = plus then do
        -- decode as fully qualified path
        let name ← D.naming.decodeNameString path
        pure (slash :: name)
      else
        D.naming.decodePath (c :: path)

def plainPath (cipherPath_ : Bytes) : Bytes :=
  match D.decodeTarget cipherPath_ with
  | .ok path => path
  | .error _ => []

def encodeTarget (plaintextPath : Bytes) : Except RlogError Bytes :=
  match plaintextPath with
  | [] => D.naming.encodePath []
  | c :: path =>
    if c = slash then do
      -- mark with '+' to indicate special decoding
      let name ← D.naming.encodeNameString path
      pure (plus :: name)
    else
      D.naming.encodePath (c :: path)

def relativeCipherPath (plaintextPath : Bytes) : Bytes :=
  match D.encodeTarget plaintextPath with
  | .ok path => path
  | .error _ => []

def openDir (opendir : Bytes → Option (List Bytes)) (plaintextPath : Bytes) :
    Except RlogError (Option DirTraverse) := do
  let cyName ← D.cipherPath plaintextPath
  match opendir cyName with
  | none => pure none
  | some entries =>
    let iv :=
      if D.naming.chainedNameIV then
        match D.naming.encodePathIV plaintextPath 0 with
        | .ok (_, iv) => iv
        | .error _ => 0
      else 0
    pure (some ⟨entries, iv, D.naming⟩)

end DirNode

end EncFS
