import Ezcap.Library.PathName
import Ezcap.Model.DriverInstance
import Ezcap.Model.Sha256

/-! Loading a script, from `driver_engine.cpp`, `manifest.cpp` and `manifest_hash.cpp`. What the
system calls come to is given with the file that `open` gives for a path. -/

namespace Ezcap.Drivers

open StdString
open Manifests (DriverManifest)

/-! ## The allowlist -/

def pathWithinAllowlist (canonicalPath : Bytes) (dirs : List Bytes) : Bool :=
  dirs.any fun dir =>
    dir.isPrefixOf canonicalPath &&
      -- the boundary must be at a path separator
      (canonicalPath.length == dir.length ||
        (decide (0 < dir.length) && dir.getLast? == some '/'.toUInt8) ||
        canonicalPath.getD dir.length 0 == '/'.toUInt8)

/-! ## Files -/

/-- What `fstat` says; the size is cast to `size_t`. -/
structure Stat where
  regular : Bool
  size : UInt64

/-- An open file: its canonical path, what `fstat` and `readlink` of its entry in `/proc/self/fd`
give, and what the calls of `read` give one after the other, nothing at the end or on failure. -/
structure OpenedFile where
  path : PathName.Canonical
  stat : Option Stat
  link : Option Bytes
  reads : List Bytes

/-- What `open` comes to with `O_NOFOLLOW`, for a path as a C string. -/
abbrev OpenFile := Bytes → Option OpenedFile

def kMaxScriptBytes : ℕ := 256 * 1024

/-- The loop of `read`; `remaining` is what is left of the size. -/
def readSource (remaining : ℕ) : List Bytes → Option Bytes
  | [] => if remaining = 0 then some [] else none
  | chunk :: reads =>
      if remaining = 0 then some []
      else if chunk = [] then none
      else (readSource (remaining - chunk.length) reads).map (chunk.take remaining ++ ·)

def readScriptSafely (openFile : OpenFile) (path : Bytes) : Except Bytes Bytes :=
  match openFile (untilNul path) with
  | none => .error (cstr "cannot open file (symlinks are refused)")
  | some file =>
      match file.stat with
      | none => .error (cstr "cannot stat file")
      | some stat =>
          if !stat.regular then .error (cstr "not a regular file")
          else if stat.size.toNat > kMaxScriptBytes then .error (cstr "file exceeds the size cap")
          else
            let canonical := file.link.getD []
            if canonical = [] then .error (cstr "cannot resolve canonical path")
            else if canonical ≠ path then .error (cstr "path is not canonical")
            else
              match readSource stat.size.toNat file.reads with
              | none => .error (cstr "short read")
              | some source => .ok source

/-! ## The engine -/

/-- No result if the padding loop of the hash has not ended. -/
def verifyScriptHash (fuel : ℕ) (manifest : DriverManifest) (source : Bytes) :
    Option (Except Bytes Unit) :=
  if manifest.scriptSha256 = [] then some (.ok ())
  else (Sha256.hexDigest fuel source).map fun actual =>
    if actual ≠ manifest.scriptSha256 then
      .error (cstr "script hash does not match the manifest pin")
    else .ok ()

structure DriverEngine where
  limits : EngineLimits := {}
  allowdirs : List Bytes := []

namespace DriverEngine

/-- `load_from_manifest_text` up to the reading of the script. -/
def readScript (engine : DriverEngine) (lib : JsonLib) (openFile : OpenFile) (text : Bytes) :
    Except Bytes (DriverManifest × Bytes) :=
  match Manifests.parse lib text {} with
  | (_, some error) => .error error
  | (manifest, none) =>
      if engine.allowdirs ≠ [] ∧
          pathWithinAllowlist manifest.scriptPath engine.allowdirs = false then
        .error (cstr "script path is outside the allowlisted directories")
      else (readScriptSafely openFile manifest.scriptPath).map fun source => (manifest, source)

/-- What `load` of the instance meets is given, but for the source of the script. -/
def loadFromManifestText (engine : DriverEngine) (fuel : ℕ) (lib : JsonLib) (openFile : OpenFile)
    (input : LoadInput) (text : Bytes) : Option (Except Bytes DriverInstance) :=
  match engine.readScript lib openFile text with
  | .error error => some (.error error)
  | .ok (manifest, source) =>
      (verifyScriptHash fuel manifest source).map fun verified =>
        match verified with
        | .error error => .error error
        | .ok () =>
            let driver : DriverInstance :=
              { manifest, limits := engine.limits }
            let loaded := driver.load { input with source }
            match loaded.error with
            | some error => .error error
            | none => .ok loaded.driver

end DriverEngine

end Ezcap.Drivers
