import MathKernel.Data.Sha256
import MathKernel.Kernel.Codec

/-!
# Bundles

A bundle holds the kernels of one unit with a hash of their compact text, so that a file that was
edited or cut off is refused. How values are written as texts, read and hashed is left to an
encoding.

## Main definitions

* `Encoding`: the texts of values and their hashes, `Encoding.standard` those of the tool.
* `Bundle.new`, `Bundle.verify`.
* `Bundle.text`, `Bundle.ofText`: the file form.
-/

namespace MathKernel

/-- How values are written as texts, read from them, and how texts are hashed. -/
structure Encoding where
  /-- The text without blanks. -/
  compact : Json → String
  /-- The text on lines of its own. -/
  pretty : Json → String
  /-- The value of a text; of an object only the members with the given names are wanted. -/
  parse : List String → String → Except Json.ReadError Json
  hash : String → String

/-- The encoding of the tool. -/
def Encoding.standard : Encoding where
  compact := Json.compact
  pretty := Json.pretty
  parse fields := Json.parseRecord fields Json.fileDepthLimit
  hash := sha256Hex

/-- The kernels of a unit as they are stored. -/
structure Bundle where
  format : String
  version : Nat
  /-- The base name of the unit. -/
  source : String
  kernels : List Kernel
  hash : String
  deriving DecidableEq

/-- Why a bundle is refused. -/
inductive BundleError where
  | invalidFormat (format : String)
  | unsupportedVersion (version : Nat)
  | hashMismatch
  /-- The text is no bundle. -/
  | record (cause : RecordError)
  deriving DecidableEq, Repr

/-- What the error says. -/
def BundleError.message : BundleError → String
  | invalidFormat format => "not a kernel bundle (format '" ++ format ++ "')"
  | unsupportedVersion version => "unsupported kernel bundle version " ++ toString version
  | hashMismatch => "kernel bundle hash mismatch: file is corrupted or was edited"
  | record cause => "JSON error: " ++ cause.message

namespace Bundle

/-- The format of bundles. -/
def formatName : String := "ckern-kernels"

/-- The version of the format. -/
def currentVersion : Nat := 1

/-- What the names of bundle files end in. -/
def fileEnding : String := "kernels.json"

/-- The hash of a list of kernels. -/
def contentHash (kernels : List Kernel) (encoding : Encoding := .standard) : String :=
  encoding.hash (encoding.compact (.array (kernels.map Kernel.toJson)))

/-- The bundle of a unit's kernels. -/
def new (source : String) (kernels : List Kernel) (encoding : Encoding := .standard) : Bundle :=
  { format := formatName, version := currentVersion, source, kernels,
    hash := contentHash kernels encoding }

/-- Check format, version and hash, in this order. -/
def verify (b : Bundle) (encoding : Encoding := .standard) : Except BundleError Unit :=
  if b.format ≠ formatName then .error (.invalidFormat b.format)
  else if b.version ≠ currentVersion then .error (.unsupportedVersion b.version)
  else if contentHash b.kernels encoding ≠ b.hash then .error .hashMismatch
  else .ok ()

/-- The record of a bundle. -/
def toJson (b : Bundle) : Json :=
  .object [("format", .string b.format), ("version", .ofNat b.version),
    ("source", .string b.source), ("kernels", .array (b.kernels.map Kernel.toJson)),
    ("hash", .string b.hash)]

/-- The text of a bundle file. -/
def text (b : Bundle) (encoding : Encoding := .standard) : String :=
  encoding.pretty b.toJson

/-- A version number of 32 bits. -/
def version? (j : Json) : Option Nat :=
  j.nat?.filter (· < pow2 32)

/-- The names of a bundle's members. -/
def fieldNames : List String := ["format", "version", "source", "kernels", "hash"]

/-- A bundle that is not verified. -/
def ofJson (j : Json) : Except RecordError Bundle := do
  let members ← j.record fieldNames 5
  let format ← Json.field members "format" (Json.expect Json.string?)
  let version ← Json.field members "version" (Json.expect version?)
  let source ← Json.field members "source" (Json.expect Json.string?)
  let kernels ← Json.field members "kernels" (Json.items Kernel.ofJson)
  let hash ← Json.field members "hash" (Json.expect Json.string?)
  return { format, version, source, kernels, hash }

/-- The verified bundle of a text. -/
def ofText (text : String) (encoding : Encoding := .standard) : Except BundleError Bundle := do
  let j ← (encoding.parse fieldNames text).mapError fun e => .record (.text e)
  let b ← (ofJson j).mapError .record
  b.verify encoding
  return b

end Bundle

end MathKernel
