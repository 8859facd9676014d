import EnergyChain.Attestation.Contract
import EnergyChain.Foundations.JsStrings

/-!
# energy-cli: attest, batch-attest, verify

The commands that hash data and ask the registry contract about it. Each runs
with a contract and, where it writes, a wallet at hand: the options for these
and the printed report are left out. A text, a file or a digest can be given
to `attest` and `verify`, an array in a JSON file to `batch-attest`.
-/

namespace EnergyChain.Cli

open Attestation (AttestationRecord CallContext Call Storage execute verifyByHash)

/-- The functions of `ethers` that the commands call; none is where they throw. -/
structure Ethers where
  /-- Throws on unpaired surrogates. -/
  toUtf8Bytes : JsString → Option Bytes
  keccak256 : Bytes → Bytes32
  /-- Reads an argument of type `bytes32`. -/
  encodeBytes32 : JsString → Option Bytes32

/-- The text in which `ethers` returns a digest. -/
def digestText (h : Bytes32) : JsString := hexlify (bigEndian 32 h.toNat)

/-- What `ethers` prints as a digest it reads as this digest. -/
def Ethers.ReadsDigests (ethers : Ethers) : Prop :=
  ∀ h, ethers.encodeBytes32 (digestText h) = some h

/-- How a command that does not succeed ends; the process exits with an error. -/
inductive Exit where
  | fileNotFound
  | invalidJson
  | missingData
  /-- Thrown outside of a `try`. -/
  | uncaught
  /-- Thrown by the call to the contract: an argument it does not take, or a revert. -/
  | callFailed
deriving DecidableEq

/-- An element of a JSON array, other values as `JSON.stringify` writes them. -/
inductive JsonItem where
  | string (s : JsString)
  | other (stringified : JsString)

/-- What `JSON.parse` makes of a file. -/
inductive JsonContent where
  | array (items : List JsonItem)
  /-- An object, with its member `data` if this is an array. -/
  | object (data : Option (List JsonItem))
  | other

structure File where
  bytes : Bytes
  /-- None when the file is not JSON. -/
  json : Option JsonContent

/-- The files by their paths, as `path.resolve` completes them. -/
abbrev Files := JsString → Option File

structure DataOptions where
  data : Option JsString
  file : Option JsString
  hash : Option JsString

structure LabelOptions where
  type : JsString
  memo : JsString

/-- An option that is set and not empty. -/
def truthy (option : Option JsString) : Option JsString := option.filter (· ≠ [])

variable (ethers : Ethers) (files : Files)

/-! ### Hashes -/

inductive Data where
  | text (s : JsString)
  | bytes (bs : Bytes)

def hashData : Data → Except Exit JsString
  | .text s =>
    match ethers.toUtf8Bytes s with
    | some bs => .ok (digestText (ethers.keccak256 bs))
    | none => .error .uncaught
  | .bytes bs => .ok (digestText (ethers.keccak256 bs))

/-- How `attest` and `verify` come to `dataHash`. -/
def dataHash (opts : DataOptions) : Except Exit JsString :=
  match truthy opts.hash, truthy opts.file, truthy opts.data with
  | some hash, _, _ => .ok hash
  | none, some path, _ =>
    match files path with
    | some file => hashData ethers (.bytes file.bytes)
    | none => .error .fileNotFound
  | none, none, some data => hashData ethers (.text data)
  | none, none, none => .error .missingData

/-- What `batch-attest` takes for a digest already computed. -/
def LooksLikeHash (s : JsString) : Prop := startsWith s (js "0x") ∧ s.length = 66

instance (s : JsString) : Decidable (LooksLikeHash s) :=
  inferInstanceAs (Decidable (startsWith s (js "0x") ∧ s.length = 66))

/-- How `batch-attest` comes to the hash of an element. -/
def itemHash : JsonItem → Except Exit JsString
  | .string s => if LooksLikeHash s then .ok s else hashData ethers (.text s)
  | .other stringified => hashData ethers (.text stringified)

/-- The array in the file, or in the member `data` of the object in it. -/
def readItems (file : File) : Except Exit (List JsonItem) :=
  match file.json with
  | some (.array items) => .ok items
  | some (.object (some items)) => .ok items
  | _ => .error .invalidJson

/-! ### Calls -/

def encode {α β : Type} (encoder : α → Option β) (a : α) : Except Exit β :=
  match encoder a with
  | some b => .ok b
  | none => .error .callFailed

def attestCall (opts : DataOptions) (labels : LabelOptions) : Except Exit Call := do
  let dataHash ← dataHash ethers files opts
  let h ← encode ethers.encodeBytes32 dataHash
  let dataType ← encode ethers.toUtf8Bytes labels.type
  let memo ← encode ethers.toUtf8Bytes labels.memo
  return .attest h dataType memo

def batchAttestCall (path : JsString) (labels : LabelOptions) : Except Exit Call := do
  let some file := files path | throw .fileNotFound
  let items ← readItems file
  let hashes ← items.mapM (itemHash ethers)
  let hs ← hashes.mapM (encode ethers.encodeBytes32)
  let dataType ← encode ethers.toUtf8Bytes labels.type
  let memo ← encode ethers.toUtf8Bytes labels.memo
  return .batchAttest hs dataType memo

/-- Sends a call and waits until it is mined. -/
def send (ctx : CallContext) (s : Storage) (call : Call) : Except Exit Storage :=
  match execute s (ctx, call) with
  | (s', .ok _) => .ok s'
  | (_, .error _) => .error .callFailed

/-! ### Commands -/

def attest (ctx : CallContext) (s : Storage) (opts : DataOptions) (labels : LabelOptions) :
    Except Exit Storage := do
  send ctx s (← attestCall ethers files opts labels)

def batchAttest (ctx : CallContext) (s : Storage) (path : JsString) (labels : LabelOptions) :
    Except Exit Storage := do
  send ctx s (← batchAttestCall ethers files path labels)

/-- Whether a record exists, and the record. -/
def verify (s : Storage) (opts : DataOptions) : Except Exit (Bool × AttestationRecord) := do
  let dataHash ← dataHash ethers files opts
  let h ← encode ethers.encodeBytes32 dataHash
  return verifyByHash s h

end EnergyChain.Cli
