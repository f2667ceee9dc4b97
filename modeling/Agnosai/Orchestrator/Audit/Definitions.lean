import Agnosai.Core.Task
import Agnosai.Core.Uuid
import Agnosai.Support.Machine

/-!
# Orchestrator — the audit chain

The tamper-evident log of crew and task events (`orchestrator/audit.cyr`). An entry's hash covers
its data and leaves out its integrity block, the signature and the previous hash; the signature is
over `"{entry_hash}:{previous_hash}"`.

A record call builds its entry and hashes it without the lock (`prepare`); then, under the lock, it
takes the chain's last hash as its previous one, signs, and appends (`Chain.link`). Any number of
calls may be between the two parts, so the log is a machine. JSON, SHA-256 and HMAC are parameters
(`Crypto`), as are the random draws behind the ids and the clock readings. Metadata is held by
reference; here it is a value: nobody changes a tree after handing it over.
-/

namespace Agnosai.Audit

/-- What an entry's hash covers. -/
structure EntryData where
  id : String
  timestamp : Int64
  event : String
  level : String
  message : String
  provider : Option String
  model : Option String
  metadata : Option Json

/-- `AgnosaiAuditEntry`: the data and the integrity block. -/
structure Entry extends EntryData where
  signature : String
  prevHash : String

/-- `bayan_json_v_build_a`, `sha256_hex` and `hmac_sha256`. -/
structure Crypto where
  Key : Type
  jsonBuild : Json → String
  sha256Hex : String → String
  hmacSha256 : Key → String → Vector UInt8 32

/-- `AGNOSAI_AUDIT_GENESIS`: 64 hex zeros. -/
def genesis : String := String.ofList (List.replicate 64 '0')

/-- The object `_agnosai_audit_entry_hash_a` builds: keys in sorted order, unset fields left out. -/
def EntryData.hashed (d : EntryData) : Json :=
  .obj <|
    [("event", .str d.event), ("id", .str d.id), ("level", .str d.level),
      ("message", .str d.message)]
    ++ (d.metadata.map fun m => ("metadata", m)).toList
    ++ (d.model.map fun m => ("model", .str m)).toList
    ++ (d.provider.map fun p => ("provider", .str p)).toList
    ++ [("timestamp", .int d.timestamp)]

variable (c : Crypto)

/-- `_agnosai_audit_entry_hash_a`. -/
def entryHash (d : EntryData) : String := c.sha256Hex (c.jsonBuild d.hashed)

/-- What is signed. -/
def signInput (entryHash prevHash : String) : String := entryHash ++ ":" ++ prevHash

def hexMac (mac : Vector UInt8 32) : String :=
  String.ofList (mac.toList.flatMap fun b => [Uuid.hexDigit (b / 16), Uuid.hexDigit (b % 16)])

/-- `_agnosai_audit_sign_a`. -/
def sign (key : c.Key) (entryHash prevHash : String) : String :=
  hexMac (c.hmacSha256 key (signInput entryHash prevHash))

/-- `AgnosaiAuditChain`, its mutex apart. A chain holds at least one entry at capacity: a record on
a chain of capacity 0 would evict from an empty list. -/
structure Chain where
  key : c.Key
  lastHash : String
  entries : List Entry
  maxEntries : Int
  max_pos : 0 < maxEntries
  firstValidHash : String

variable {c}

/-- `agnosai_audit_chain_with_key`. -/
def chainWithKey (key : c.Key) (maxEntries : Int) (max_pos : 0 < maxEntries) : Chain c where
  key := key
  lastHash := genesis
  entries := []
  maxEntries := maxEntries
  max_pos := max_pos
  firstValidHash := genesis

/-! ### Recording -/

/-- What a caller records, and what the clock says as it does. -/
structure Call where
  event : String
  level : String
  message : String
  provider : Option String
  model : Option String
  metadata : Option Json
  epochNs : Int64

/-- The data of the entry a call builds, whose id is drawn. -/
def Call.data (call : Call) (drawn : Uuid) : EntryData where
  id := drawn.v4.toStr
  timestamp := call.epochNs / 1000000
  event := call.event
  level := call.level
  message := call.message
  provider := call.provider
  model := call.model
  metadata := call.metadata

variable (chain : Chain c)

/-- The entry as the locked part completes it. -/
def Chain.sealEntry (d : EntryData) (entryHash : String) : Entry where
  toEntryData := d
  prevHash := chain.lastHash
  signature := sign c chain.key entryHash chain.lastHash

/-- At capacity the oldest entry goes and its hash becomes the anchor. -/
def Chain.evict : Chain c :=
  if chain.maxEntries ≤ chain.entries.length then
    match chain.entries with
    | [] => chain
    | oldest :: rest =>
      { chain with firstValidHash := entryHash c oldest.toEntryData, entries := rest }
  else chain

/-- The locked part of `agnosai_audit_record_a`. -/
def Chain.link (d : EntryData) (entryHash : String) : Chain c :=
  let e := chain.sealEntry d entryHash
  let evicted := { chain with lastHash := entryHash }.evict
  { evicted with entries := evicted.entries ++ [e] }

/-! ### Verifying -/

/-- `_agnosai_audit_failure`. -/
def failure (index : Nat) (id reason : String) : String :=
  "Entry " ++ toString index ++ " (" ++ id ++ "): " ++ reason

/-- The loop of `agnosai_audit_verify`. -/
def verifyFrom (key : c.Key) (i : Nat) (prev : String) : List Entry → Option String
  | [] => none
  | e :: rest =>
    if e.prevHash ≠ prev then some (failure i e.id "previous hash mismatch")
    else if e.signature ≠ sign c key (entryHash c e.toEntryData) prev then
      some (failure i e.id "signature verification failed")
    else verifyFrom key (i + 1) (entryHash c e.toEntryData) rest

/-- `agnosai_audit_verify`: no failure, or the text of the first. -/
def Chain.verify : Option String :=
  verifyFrom chain.key 0 chain.firstValidHash chain.entries

/-! ### Any number of recorders -/

/-- The chain, the calls that have hashed and wait for the lock, and what has been linked and drawn
so far. -/
structure Log (c : Crypto) where
  chain : Chain c
  waiting : List (EntryData × String)
  linked : List Entry
  draws : Nat

/-- One part of some record call: a new call hashes, or the `k`-th that waits gets the lock. -/
inductive Action where
  | hash (call : Call)
  | link (k : Nat)

/-- A fresh chain nobody has recorded on. -/
def Log.start (key : c.Key) (maxEntries : Int) (max_pos : 0 < maxEntries) : Log c where
  chain := chainWithKey key maxEntries max_pos
  waiting := []
  linked := []
  draws := 0

/-- The log, where the `n`-th id is made of the `n`-th draw. -/
def log (c : Crypto) (draw : Nat → Uuid) : Machine (Log c) Action where
  step s
    | .hash call =>
      let d := call.data (draw s.draws)
      some { s with waiting := s.waiting ++ [(d, entryHash c d)], draws := s.draws + 1 }
    | .link k =>
      match s.waiting[k]? with
      | none => none
      | some (d, h) =>
        some { s with
          chain := s.chain.link d h
          waiting := s.waiting.eraseIdx k
          linked := s.linked ++ [s.chain.sealEntry d h] }

end Agnosai.Audit
