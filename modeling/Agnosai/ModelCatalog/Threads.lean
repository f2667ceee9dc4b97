import Agnosai.ModelCatalog
import Agnosai.Support.Machine

/-!
# Model catalog — Threads

The slots that hold each gateway's catalog, and the threads that look at them and read the
gateway's list, after `model_catalog.cyr`. A slot is found by its URL in a list that only grows,
first without the lock and then again under it; a thread that finds none makes one. A read has the
slot's mutex, and is made only if the count of reads is still the one its thread saw before it
asked.

A step is one access to what threads share. What a read does with the arena and with the catalog
it holds is one step each: no other thread writes them while the mutex is held.
-/

namespace Agnosai.ModelCatalog

/-- What the reads use of the libraries, and what is set at start-up. -/
structure Setup where
  lib : JsonLib Bytes
  /-- `hash_str_v`. -/
  hash : Bytes → UInt64
  /-- `SANDHI_ERR_INTERNAL`. -/
  errInternal : Int
  /-- `sandhi_err_kind_name`. -/
  errKindName : Int → String
  /-- `agnosai_model_tier_override`. -/
  override : Tier → Option String
  /-- `_AGN_CAT_REREAD_MS`. -/
  rereadMs : Int64

/-- What the outside answers to a step that asks it. -/
structure Outside where
  /-- Whether there is memory for an arena. -/
  arena : Bool := true
  /-- What a GET returns: an HTTP status or a negative error kind. -/
  status : Int := 0
  body : Bytes := []
  /-- `clock_now_ns`. -/
  now : Int64 := 0

/-- A catalog with `AGN_CAT_HASH`, the hash of the body it was read from. -/
structure Held extends Catalog where
  hash : UInt64

variable (setup : Setup)

/-- `agnosai_model_catalog_parse_a`, with the hash. -/
def parse (body : Bytes) : Option Held :=
  (catalogParse setup.lib body).map fun c => { toCatalog := c, hash := setup.hash body }

/-! ### Slots -/

/-- `AgnosaiCatalogSlotOff`. The address of slot `k` is `k + 1`, so that 0 is the end of the
list. -/
structure Slot where
  next : Nat
  baseUrl : String
  mutex : Option Nat := none
  arena : Bool := false
  catalog : Option Held := none
  reads : Nat := 0
  last : Int := 0
  readNs : Int64 := 0

/-- `_AGN_CAT_SLOTS`, its lock, and the slots in the order they were made. -/
structure Table where
  slots : List Slot := []
  head : Nat := 0
  lock : Option Nat := none

/-- `_AGN_CAT_UNREADABLE`. -/
def unreadable : Int := -1000

/-- A status that says the list came. -/
def isOk (last : Int) : Bool := 200 ≤ last ∧ last < 300

/-- What a body with status `last` makes of the catalog that is held: the new one, if it is to be
published, and how the read went. The bytes that are held keep nothing. -/
def judge (held : Option Held) (last : Int) (body : Bytes) : Option Held × Int :=
  if isOk last then
    if held.any fun h => h.hash = setup.hash body then (none, last)
    else
      match parse setup body with
      | none => (none, unreadable)
      | some fresh => (some fresh, last)
  else (none, last)

variable (m : Slot)

/-- The entry `tier` means in the slot's catalog as it stands: `_agnosai_model_slot_pick`. -/
def Slot.pick (tier : Tier) : Option Entry := m.catalog.bind fun h => h.picks tier

/-- `agnosai_model_tier_env`. -/
def tierEnv : Tier → String
  | .capable => "AGNOSAI_MODEL_CAPABLE"
  | .premium => "AGNOSAI_MODEL_PREMIUM"
  | .fast => "AGNOSAI_MODEL_FAST"

/-- `_agnosai_model_add_why_a`. -/
def why (last : Int) : String :=
  if last = unreadable then "hoosh answered with no model list"
  else if last < 0 then "hoosh transport error: " ++ setup.errKindName (-last)
  else if isOk last then "hoosh lists no chat model"
  else "hoosh returned HTTP " ++ toString last

/-- `_agnosai_model_no_catalog_a`. -/
def noCatalog (last : Int) (tier : Tier) : String :=
  "no model catalog: " ++ why setup last ++ "; name a model on the agent, or set " ++ tierEnv tier

/-! ### Threads -/

/-- A call for the gateway at a URL: `agnosai_model_catalog_of`, `agnosai_model_catalog_reread` and
`agnosai_model_for_tier_a`. -/
inductive Call where
  | catalogOf (url : String)
  | reread (url : String)
  | forTier (url : String) (tier : Tier)

def Call.url : Call → String
  | .catalogOf url | .reread url | .forTier url _ => url

inductive Answer where
  | catalog (c : Option Held)
  | done
  | model (id : String)
  | noModel (why : String)

/-- The next access of a thread in `_agnosai_model_read`. -/
inductive ReadPc where
  | lock
  | check
  | arena
  | get
  | getModels
  | store (last : Int) (body : Bytes)
  | setLast (last : Int)
  | stamp (last : Int)
  | count (last : Int)
  | unlock

/-- The next access of a thread that has its slot. -/
inductive SlotPc where
  | entered
  /-- `agnosai_model_catalog_of` with no catalog, or a re-read that is due: the count. -/
  | loadReads
  /-- `agnosai_model_for_tier_a`, with the count it saw: the catalog. -/
  | picking (seen : Nat)
  | read (seen : Nat) (r : ReadPc)
  /-- After the read: the catalog, once more. -/
  | again (seen : Nat)
  /-- `_agnosai_model_no_catalog_a`: how the last read went. -/
  | why

inductive Pc where
  | idle
  | returned (answer : Answer)
  | start (c : Call)
  /-- `_agnosai_model_slot`, without the lock, at an address. -/
  | walk (c : Call) (addr : Nat)
  | lockSlots (c : Call)
  | loadHead (c : Call)
  | walkLocked (c : Call) (addr : Nat)
  | unlockSlots (c : Call) (k : Nat)
  | slot (c : Call) (k : Nat) (p : SlotPc)

/-- The operator's model for the tier a call asks for. -/
def Call.override : Call → Option String
  | .forTier _ tier => setup.override tier
  | _ => none

/-- One access of `_agnosai_model_read` by thread `t`: the slot after it, and what is next; nothing
after the last. A thread does not go on while another has the mutex. -/
def readStep (t : Nat) (out : Outside) (seen : Nat) (m : Slot) :
    ReadPc → Option (Slot × Option ReadPc)
  | .lock =>
    match m.mutex with
    | none => some ({ m with mutex := some t }, some .check)
    | some _ => none
  | .check => some (m, some (if m.reads = seen then .arena else .unlock))
  | .arena =>
    if m.arena || out.arena then some ({ m with arena := true }, some .get)
    else some (m, some (.setLast (-setup.errInternal)))
  | .get => some (m, some (if out.status = 404 then .getModels else .store out.status out.body))
  | .getModels => some (m, some (.store out.status out.body))
  | .store last body =>
    match judge setup m.catalog last body with
    | (none, last) => some (m, some (.setLast last))
    | (some fresh, last) => some ({ m with catalog := some fresh }, some (.setLast last))
  | .setLast last => some ({ m with last := last }, some (.stamp last))
  | .stamp last => some ({ m with readNs := out.now }, some (.count last))
  | .count _ => some ({ m with reads := m.reads + 1 }, some .unlock)
  | .unlock => some ({ m with mutex := none }, none)

/-- The first access of a call to its slot. -/
def enter (out : Outside) (m : Slot) : Call → SlotPc ⊕ Answer
  | .catalogOf _ =>
    match m.catalog with
    | some h => .inr (.catalog (some h))
    | none => .inl .loadReads
  | .reread _ =>
    if m.readNs ≠ 0 ∧ (out.now - m.readNs) / 1000000 < setup.rereadMs then .inr .done
      else .inl .loadReads
  | .forTier _ _ => .inl (.picking m.reads)

/-- What a call does with the count, where it did not need it before. -/
def seeReads : Call → SlotPc ⊕ Answer
  | .catalogOf _ => if m.reads = 0 then .inl (.read 0 .lock) else .inr (.catalog none)
  | _ => .inl (.read m.reads .lock)

/-- What a call does with the catalog it finds: without an entry for its tier, it goes on to `p`. -/
def seeCatalog (p : SlotPc) : Call → SlotPc ⊕ Answer
  | .catalogOf _ => .inr (.catalog m.catalog)
  | .reread _ => .inr .done
  | .forTier _ tier =>
    match m.pick tier with
    | some e => .inr (.model e.id)
    | none => .inl p

/-- What a call returns with no model to name. -/
def giveUp : Call → Answer
  | .forTier _ tier => .noModel (noCatalog setup m.last tier)
  | _ => .done

/-- One access of a thread to its slot. -/
def slotStep (t : Nat) (out : Outside) (c : Call) (m : Slot) :
    SlotPc → Option (Slot × (SlotPc ⊕ Answer))
  | .entered => some (m, enter setup out m c)
  | .loadReads => some (m, seeReads m c)
  | .picking seen => some (m, seeCatalog m (.read seen .lock) c)
  | .read seen r =>
    match readStep setup t out seen m r with
    | none => none
    | some (m', some r') => some (m', .inl (.read seen r'))
    | some (m', none) => some (m', .inl (.again seen))
  | .again _ => some (m, seeCatalog m .why c)
  | .why => some (m, .inr (giveUp setup m c))

/-- The count with which the access starts a read. -/
def SlotPc.starts : SlotPc → Option Nat
  | .read seen .check => if m.reads = seen then some seen else none
  | _ => none

/-- What the access publishes. -/
def SlotPc.fresh : SlotPc → Option Held
  | .read _ (.store last body) => (judge setup m.catalog last body).1
  | _ => none

/-- Whether the access is the one that counts a read. -/
def SlotPc.counts : SlotPc → Bool
  | .read _ (.count _) => true
  | _ => false

/-- Where a thread is after an access to slot `k`. -/
def Pc.after (c : Call) (k : Nat) : SlotPc ⊕ Answer → Pc
  | .inl p => .slot c k p
  | .inr answer => .returned answer

/-- Where a walk goes from an address: `found` is for the slot with the URL, `on` for the address of
the next. -/
def Table.walk (tab : Table) (url : String) (k : Nat) (found : Pc) (on : Nat → Pc) : Option Pc :=
  match tab.slots[k]? with
  | none => none
  | some m => some (if m.baseUrl = url then found else on m.next)

/-- A new slot for `url`, in front of the list. -/
def Table.push (tab : Table) (url : String) : Table :=
  { tab with
    slots := tab.slots ++ [{ next := tab.head, baseUrl := url }], head := tab.slots.length + 1 }

/-- One access of thread `t`. -/
def move (t : Nat) (out : Outside) (tab : Table) : Pc → Option (Table × Pc)
  | .idle => none
  | .returned _ => none
  | .start c =>
    match c.override setup with
    | some id => some (tab, .returned (.model id))
    | none => some (tab, .walk c tab.head)
  | .walk c 0 => some (tab, .lockSlots c)
  | .walk c (k + 1) => (tab.walk c.url k (.slot c k .entered) (.walk c)).map fun p => (tab, p)
  | .lockSlots c =>
    match tab.lock with
    | none => some ({ tab with lock := some t }, .loadHead c)
    | some _ => none
  | .loadHead c => some (tab, .walkLocked c tab.head)
  | .walkLocked c 0 => some (tab.push c.url, .unlockSlots c tab.slots.length)
  | .walkLocked c (k + 1) =>
    (tab.walk c.url k (.unlockSlots c k) (.walkLocked c)).map fun p => (tab, p)
  | .unlockSlots c k => some ({ tab with lock := none }, .slot c k .entered)
  | .slot c k p =>
    match tab.slots[k]? with
    | none => none
    | some m =>
      match slotStep setup t out c m p with
      | none => none
      | some (m', q) => some ({ tab with slots := tab.slots.set k m' }, .after c k q)

/-! ### The machine -/

/-- The slots and the threads, by number. -/
structure State where
  table : Table := {}
  pc : Nat → Pc := fun _ => .idle

/-- A thread that is in no call makes one, or a thread makes its next access. -/
inductive Act where
  | call (t : Nat) (c : Call)
  | step (t : Nat) (out : Outside)

variable (s : State)

def step : Act → Option State
  | .call t c =>
    match s.pc t with
    | .idle | .returned _ => some { s with pc := Function.update s.pc t (.start c) }
    | _ => none
  | .step t out =>
    match move setup t out s.table (s.pc t) with
    | none => none
    | some (table, p) => some { table := table, pc := Function.update s.pc t p }

/-- The catalogs and their threads. -/
def threads : Machine State Act := ⟨step setup⟩

/-! ### What is seen of a gateway -/

def Table.slotOf (tab : Table) (url : String) : Option Slot :=
  tab.slots.find? fun m => m.baseUrl = url

/-- How many reads of a gateway have been made. -/
def State.reads (url : String) : Nat := ((s.table.slotOf url).map Slot.reads).getD 0

/-- The catalog that is held of a gateway. -/
def State.held (url : String) : Option Held := (s.table.slotOf url).bind Slot.catalog

/-- Where the action starts a read: the gateway, and the count its thread saw. -/
def started : Act → Option (String × Nat)
  | .call _ _ => none
  | .step t _ =>
    match s.pc t with
    | .slot c k p => (s.table.slots[k]?.bind fun m => p.starts m).map fun seen => (c.url, seen)
    | _ => none

/-- Where the action ends a read: the gateway. -/
def ended : Act → Option String
  | .call _ _ => none
  | .step t _ =>
    match s.pc t with
    | .slot c _ p => if p.counts then some c.url else none
    | _ => none

/-- Where the action publishes a catalog: the gateway, and the catalog. -/
def published : Act → Option (String × Held)
  | .call _ _ => none
  | .step t _ =>
    match s.pc t with
    | .slot c k p =>
      (s.table.slots[k]?.bind fun m => p.fresh setup m).map fun fresh => (c.url, fresh)
    | _ => none

end Agnosai.ModelCatalog
