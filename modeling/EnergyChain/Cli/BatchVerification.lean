import EnergyChain.Attestation.Batch
import EnergyChain.Attestation.Registry
import EnergyChain.Cli.Commands

/-!
# energy-cli: what a batch attests can be verified

The commands come to the hash of a text by separate code. They agree on every
text but those that look like a digest, which a batch attests as they stand.
-/

namespace EnergyChain.Cli

open Attestation (AttestationRecord CallContext Call Storage execute)

variable {ethers : Ethers} {files : Files}

def onlyData (data : JsString) : DataOptions := { data := some data, file := none, hash := none }

def onlyHash (hash : JsString) : DataOptions := { data := none, file := none, hash := some hash }

/-- The options lead to the hash of the element, and `verify` finds the record of it. -/
def VerifiedBy (ethers : Ethers) (files : Files) (s : Storage) (item : JsonItem)
    (opts : DataOptions) : Prop :=
  ∃ hash record, itemHash ethers item = .ok hash ∧ dataHash ethers files opts = .ok hash ∧
    ethers.encodeBytes32 hash = some record.dataHash ∧
    verify ethers files s opts = .ok (true, record)

theorem truthy_some {s : JsString} (hne : s ≠ []) : truthy (some s) = some s := by
  simp [truthy, hne]

theorem dataHash_onlyData {s : JsString} (hne : s ≠ []) :
    dataHash ethers files (onlyData s) = hashData ethers (.text s) := by
  simp only [dataHash, onlyData, truthy_some hne]
  rfl

theorem dataHash_onlyHash {s : JsString} (hne : s ≠ []) :
    dataHash ethers files (onlyHash s) = .ok s := by
  simp only [dataHash, onlyHash, truthy_some hne]

theorem itemHash_of_looksLikeHash {s : JsString} (h : LooksLikeHash s) :
    itemHash ethers (.string s) = .ok s := by
  rw [itemHash, if_pos h]

theorem itemHash_of_not_looksLikeHash {s : JsString} (h : ¬ LooksLikeHash s) :
    itemHash ethers (.string s) = hashData ethers (.text s) := by
  rw [itemHash, if_neg h]

theorem encode_ok_iff {α β : Type} {encoder : α → Option β} {a : α} {b : β} :
    encode encoder a = .ok b ↔ encoder a = some b := by
  unfold encode
  cases encoder a <;> simp

theorem send_ok_iff {ctx : CallContext} {s s' : Storage} {call : Call} :
    send ctx s call = .ok s' ↔
      execute.Accepts s (ctx, call) ∧ s' = (execute s (ctx, call)).1 := by
  unfold send Handler.Accepts
  obtain ⟨t, id | e⟩ := execute s (ctx, call)
  · simp
  · simp [eq_comm]

theorem batchAttestCall_ok {path : JsString} {labels : LabelOptions} {file : File}
    {items : List JsonItem} {call : Call} (hfile : files path = some file)
    (hitems : readItems file = .ok items)
    (hok : batchAttestCall ethers files path labels = .ok call) :
    ∃ hs dataType memo, call = .batchAttest hs dataType memo ∧ ∀ item ∈ items, ∃ hash h,
      itemHash ethers item = .ok hash ∧ ethers.encodeBytes32 hash = some h ∧ h ∈ hs := by
  simp only [batchAttestCall, hfile, hitems, except_ok_bind, except_bind_ok_iff,
    except_pure_ok_iff] at hok
  obtain ⟨hashes, hhashes, hs, hencoded, dataType, -, memo, -, rfl⟩ := hok
  refine ⟨hs, dataType, memo, rfl, fun item hitem => ?_⟩
  obtain ⟨hash, hmem, hhash⟩ := exists_of_mem_of_mapM_ok hhashes hitem
  obtain ⟨h, hh, henc⟩ := exists_of_mem_of_mapM_ok hencoded hmem
  exact ⟨hash, h, hhash, encode_ok_iff.mp henc, hh⟩

/-- The hashes of an accepted batch have their record in every later state. -/
theorem verifyByHash_of_batch {calls : List (CallContext × Call)} {ctx : CallContext}
    {hs : List Bytes32} {dataType memo : Bytes} {h : Bytes32}
    (hacc : execute.Accepts (execute.run .initial calls) (ctx, .batchAttest hs dataType memo))
    (hmem : h ∈ hs) (later : List (CallContext × Call)) :
    Attestation.verifyByHash
        (execute.run .initial (calls ++ (ctx, .batchAttest hs dataType memo) :: later)) h =
      (true, Attestation.newAttestation ctx h dataType memo) := by
  have hrep := Attestation.run_represents (calls ++ (ctx, .batchAttest hs dataType memo) :: later)
  have hhist : (ctx, Call.batchAttest hs dataType memo) ∈ execute.history .initial
      (calls ++ (ctx, .batchAttest hs dataType memo) :: later) := execute.mem_history hacc
  have hlog : Attestation.newAttestation ctx h dataType memo ∈ Attestation.attestedLog
      (execute.history .initial (calls ++ (ctx, .batchAttest hs dataType memo) :: later)) :=
    List.mem_flatMap.mpr ⟨_, hhist, List.mem_map.mpr ⟨h, hmem, rfl⟩⟩
  exact (hrep.verifyByHash h).2 _ hlog rfl

section Batch

variable (calls : List (CallContext × Call)) {ctx : CallContext} {path : JsString}
  {labels : LabelOptions} {file : File} {s' : Storage}

theorem verifiedBy_of_batchAttest {items : List JsonItem} (hfile : files path = some file)
    (hitems : readItems file = .ok items)
    (hok : batchAttest ethers files ctx (execute.run .initial calls) path labels = .ok s')
    {item : JsonItem} (hitem : item ∈ items) {opts : DataOptions}
    (hopts : dataHash ethers files opts = itemHash ethers item)
    (later : List (CallContext × Call)) :
    VerifiedBy ethers files (execute.run s' later) item opts := by
  simp only [batchAttest, except_bind_ok_iff] at hok
  obtain ⟨call, hcall, hsend⟩ := hok
  obtain ⟨hs, dataType, memo, rfl, hsubmitted⟩ := batchAttestCall_ok hfile hitems hcall
  obtain ⟨hacc, rfl⟩ := send_ok_iff.mp hsend
  obtain ⟨hash, h, hhash, henc, hmem⟩ := hsubmitted item hitem
  have hdata : dataHash ethers files opts = .ok hash := hopts.trans hhash
  have hfound := verifyByHash_of_batch hacc hmem later
  rw [Handler.run_append, Handler.run_cons] at hfound
  refine ⟨hash, Attestation.newAttestation ctx h dataType memo, hhash, hdata, henc, ?_⟩
  simp only [verify, hdata, encode, henc, except_ok_bind, hfound]
  rfl

/-- After a batch of texts that succeeded, in every later state: a text that does not look
like a digest was attested under the hash that `--data` leads to, and `verify --data` finds
its record; one that does was attested as it stands, and `verify --hash` finds its record. -/
theorem batchAttest_verifiable {strings : List JsString} (hfile : files path = some file)
    (hitems : readItems file = .ok (strings.map .string))
    (hok : batchAttest ethers files ctx (execute.run .initial calls) path labels = .ok s')
    (str : JsString) (hstr : str ∈ strings) (hne : str ≠ [])
    (later : List (CallContext × Call)) :
    (¬ LooksLikeHash str →
      VerifiedBy ethers files (execute.run s' later) (.string str) (onlyData str)) ∧
    (LooksLikeHash str →
      VerifiedBy ethers files (execute.run s' later) (.string str) (onlyHash str)) := by
  have hitem : JsonItem.string str ∈ strings.map JsonItem.string := List.mem_map_of_mem hstr
  constructor
  · intro hplain
    apply verifiedBy_of_batchAttest calls hfile hitems hok hitem
    rw [dataHash_onlyData hne, itemHash_of_not_looksLikeHash hplain]
  · intro hdigest
    apply verifiedBy_of_batchAttest calls hfile hitems hok hitem
    rw [dataHash_onlyHash hne, itemHash_of_looksLikeHash hdigest]

end Batch

/-! ### A text that is a digest -/

/-- The digest of the text `hello`. -/
def helloDigest : Bytes32 := 0x1c8aff950685c2ed4bc3174f3472287b56d9517b9c948127319a09a7a36deac8

/-- The digest of the text of `helloDigest`. -/
def digestOfDigest : Bytes32 := 0xb27ab971903937bd55bdfa33479f8cc60e9b4e094682e4e9756ee51dda1544eb

def readingDigest : Bytes32 := 0x3ca8d2b541d6299c58f708b7c439c27a26fee4cc6758493477bf9c02684603dd

def asciiToUtf8Bytes (s : JsString) : Option Bytes :=
  if s.all (· < 128) then some (s.map fun c => Fin.ofNat 256 c.val) else none

/-- The digests of the two texts and of the text of the first digest. -/
def sampleKeccak (bs : Bytes) : Bytes32 :=
  if bs = ascii "hello" then helloDigest
  else if bs = ascii "reading 100" then readingDigest
  else if bs = ascii "0x" ++ hexEncode (bigEndian 32 helloDigest.toNat) then digestOfDigest
  else 0

/-- The library on ASCII texts, as far as the three digests go. -/
def sampleEthers : Ethers where
  toUtf8Bytes := asciiToUtf8Bytes
  keccak256 := sampleKeccak
  encodeBytes32 s := (getBytes s).bind fun bs =>
    if bs.length = 32 then some (BitVec.ofNat 256 (ofBigEndian bs)) else none

theorem sampleEthers_readsDigests : sampleEthers.ReadsDigests := by
  intro h
  have hvalue : ofBigEndian (bigEndian 32 h.toNat) = h.toNat := by
    rw [ofBigEndian_bigEndian]
    exact Nat.mod_eq_of_lt h.isLt
  simp [sampleEthers, digestText, getBytes_hexlify, hvalue]

/-- An array of texts, whatever the path. -/
def sampleFiles (strings : List JsString) : Files := fun _ =>
  some { bytes := [], json := some (.array (strings.map .string)) }

def sampleLabels : LabelOptions := { type := js "general", memo := [] }

theorem hashData_helloDigest :
    hashData sampleEthers (.text (digestText helloDigest)) = .ok (digestText digestOfDigest) := by
  decide +kernel

theorem batchAttest_sample {strings : List JsString} {digests : List Bytes32}
    (hhash : (strings.map JsonItem.string).mapM (itemHash sampleEthers) =
      .ok (digests.map digestText))
    (hacc : execute.Accepts .initial
      (Attestation.sampleContext, .batchAttest digests (ascii "general") [])) :
    batchAttest sampleEthers (sampleFiles strings) Attestation.sampleContext .initial
      (js "readings.json") sampleLabels =
        .ok (execute .initial (Attestation.sampleContext,
          .batchAttest digests (ascii "general") [])).1 := by
  have hencoded : (digests.map digestText).mapM (encode sampleEthers.encodeBytes32) =
      .ok digests := by
    rw [mapM_ok_iff, List.forall₂_map_left_iff, List.forall₂_same]
    exact fun h _ => encode_ok_iff.mpr (sampleEthers_readsDigests h)
  have htype : encode sampleEthers.toUtf8Bytes sampleLabels.type = .ok (ascii "general") := by
    decide +kernel
  have hmemo : encode sampleEthers.toUtf8Bytes sampleLabels.memo = .ok [] := by decide +kernel
  have hcall : batchAttestCall sampleEthers (sampleFiles strings) (js "readings.json")
      sampleLabels = .ok (.batchAttest digests (ascii "general") []) := by
    simp only [batchAttestCall, sampleFiles, readItems, except_ok_bind, hhash, hencoded, htype,
      hmemo]
    rfl
  rw [batchAttest, hcall]
  exact send_ok_iff.mpr ⟨hacc, rfl⟩

/-- Two texts and one that looks like a digest. -/
def sampleTexts : List JsString := [js "hello", js "reading 100", digestText digestOfDigest]

/-- Each text of the batch is found again, the last one as the digest that it is. -/
theorem batchAttest_verifiable_sample :
    ∃ s', batchAttest sampleEthers (sampleFiles sampleTexts) Attestation.sampleContext .initial
        (js "readings.json") sampleLabels = .ok s' ∧
      VerifiedBy sampleEthers (sampleFiles sampleTexts) s' (.string (js "hello"))
        (onlyData (js "hello")) ∧
      VerifiedBy sampleEthers (sampleFiles sampleTexts) s' (.string (js "reading 100"))
        (onlyData (js "reading 100")) ∧
      VerifiedBy sampleEthers (sampleFiles sampleTexts) s' (.string (digestText digestOfDigest))
        (onlyHash (digestText digestOfDigest)) := by
  have hok := @batchAttest_sample sampleTexts [helloDigest, readingDigest, digestOfDigest]
    (by decide +kernel) (by decide +kernel)
  have hfound := fun str hstr hne => batchAttest_verifiable [] rfl
    (show readItems { bytes := [], json := some (.array (sampleTexts.map .string)) } =
      .ok (sampleTexts.map .string) from rfl) hok str hstr hne []
  refine ⟨_, hok, (hfound (js "hello") ?_ ?_).1 ?_, (hfound (js "reading 100") ?_ ?_).1 ?_,
    (hfound (digestText digestOfDigest) ?_ ?_).2 ?_⟩ <;> decide +kernel

/-- A text that is the digest of another one is attested as that digest, and verifying the
text finds nothing. -/
theorem batchAttest_digest_not_verifiable :
    ¬ ∀ (ethers : Ethers) (files : Files) (calls : List (CallContext × Call)) (ctx : CallContext)
      (path : JsString) (labels : LabelOptions) (file : File) (strings : List JsString)
      (s' : Storage),
      ethers.ReadsDigests →
      (∀ x ∈ strings, ∀ y ∈ strings,
        hashData ethers (.text x) = hashData ethers (.text y) → x = y) →
      files path = some file → readItems file = .ok (strings.map .string) →
      batchAttest ethers files ctx (execute.run .initial calls) path labels = .ok s' →
      ∀ str ∈ strings, str ≠ [] →
        ∃ record, verify ethers files s' (onlyData str) = .ok (true, record) := by
  intro h
  have hok := @batchAttest_sample [digestText helloDigest] [helloDigest] (by decide +kernel)
    (by decide +kernel)
  obtain ⟨record, hrecord⟩ := h sampleEthers (sampleFiles [digestText helloDigest]) []
    Attestation.sampleContext (js "readings.json") sampleLabels _ [digestText helloDigest] _
    sampleEthers_readsDigests (by simp) rfl rfl hok _ List.mem_cons_self (by decide)
  have hhash : dataHash sampleEthers (sampleFiles [digestText helloDigest])
      (onlyData (digestText helloDigest)) = .ok (digestText digestOfDigest) :=
    (dataHash_onlyData (by decide)).trans hashData_helloDigest
  simp only [verify, hhash, encode, sampleEthers_readsDigests digestOfDigest, except_ok_bind,
    except_pure_ok_iff] at hrecord
  have hnone : (Attestation.verifyByHash (execute .initial (Attestation.sampleContext,
      .batchAttest [helloDigest] (ascii "general") [])).1 digestOfDigest).1 = false := by
    decide +kernel
  rw [hrecord] at hnone
  cases hnone

end EnergyChain.Cli
