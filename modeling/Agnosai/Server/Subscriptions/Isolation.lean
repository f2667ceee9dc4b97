import Agnosai.Server.Subscriptions.Memory
import Agnosai.Server.Subscriptions.Placed
import Agnosai.Support.Linked

/-!
# Server — Subscriptions — Isolation

A subscriber only ever receives what was sent through its own crew's sender, and the idle stack
stays a stack, however often subscriptions are given back and used again.

The machine of `Memory` refines the one of `Definitions`: the links through the lag slots make a
list, and on it, on the senders' lists and on the closed flags the two take the same steps
(`Sound.step`). A reader that kept its handle would break that, so it is asked that readers let go
first (`LetGo`). The ring of a subscription that is handed out holds what came through the sender
its client looked up.
-/

namespace Agnosai.Subscriptions

open Sse ChanLossy Wire Function Stage List Option

variable {w w' : Wire} {act : WireAct} {idle idle' : List Nat} {k sub : Nat} {c c' : Client}
  {cell : Cell}

/-! ### The two machines -/

/-- The lag slots. -/
def Wire.slot (w : Wire) (sub : Nat) : Nat := (w.cells sub).lagged

/-- What the upper machine has where the slots link the list `idle`. -/
def Wire.hub (w : Wire) (idle : List Nat) : Hub where
  bus := w.bus
  closed sub := (w.cells sub).closed
  minted := w.minted
  idle := idle
  holders k := (w.clients k).map Client.toHolder

/-- What the upper machine does at an action: nothing, where events are sent and read. -/
def WireAct.hub : WireAct → List HubAct
  | .sender crew => [.sender crew]
  | .remove crew => [.remove crew]
  | .cleanupOrphans => [.cleanupOrphans]
  | .lookup k crew => [.lookup k crew]
  | .takeIdle k => [.takeIdle k]
  | .mint k => [.mint k]
  | .add k => [.add k]
  | .unsubscribe k tx => [.unsubscribe k tx]
  | .close k => [.close k]
  | .recycle k => [.recycle k]
  | .shelve k => [.shelve k]
  | .send _ _ | .recv _ | .lagged _ | .letGo _ => []

theorem hub_setClient : (w.setClient k c).hub idle = (w.hub idle).setStage k c.crew c.stage := by
  have hholders : (fun j => (update w.clients k (some c) j).map Client.toHolder) =
      update (fun j => (w.clients j).map Client.toHolder) k (some c.toHolder) :=
    funext (apply_update (fun _ => Option.map Client.toHolder) w.clients k (some c))
  simp only [Wire.hub, Wire.setClient, Hub.setStage, hholders]

theorem hub_setCell :
    (w.setCell sub cell).hub idle =
      { w.hub idle with closed := update (w.hub idle).closed sub cell.closed } := by
  have hclosed : (fun j => (update w.cells sub cell j).closed) =
      update (fun j => (w.cells j).closed) sub cell.closed :=
    funext (apply_update (fun _ => Cell.closed) w.cells sub cell)
  simp only [Wire.hub, Wire.setCell, hclosed]

/-- What leaves the flag leaves the upper machine as it is. -/
theorem hub_setCell_of_eq (h : cell.closed = (w.cells sub).closed) :
    (w.setCell sub cell).hub idle = w.hub idle := by
  rw [hub_setCell, h]
  exact congrArg (fun closed => { w.hub idle with closed }) (update_eq_self sub (w.hub idle).closed)

theorem hub_holders (hk : w.clients k = some c) :
    (w.hub idle).holders k = some ⟨c.crew, c.stage⟩ := by
  simp [Wire.hub, hk]

/-- A client that stays at its stage leaves the upper machine as it is. -/
theorem hub_setStage_same (hk : w.clients k = some c) :
    (w.hub idle).setStage k c.crew c.stage = w.hub idle := by
  have hsame := update_eq_self k (w.hub idle).holders
  rw [hub_holders hk] at hsame
  exact congrArg (fun holders => { w.hub idle with holders }) hsame

/-- A loop over a list without repeats does each of its subscriptions once. -/
theorem each_eq (f : Cell → Cell) {subs : List Nat} (hnodup : subs.Nodup) :
    w.each f subs =
      { w with cells := fun sub => if sub ∈ subs then f (w.cells sub) else w.cells sub } := by
  induction subs generalizing w with
  | nil => simp only [each, foldl_nil, not_mem_nil, if_false]
  | cons first rest ih =>
    obtain ⟨hfirst, hrest⟩ := nodup_cons.1 hnodup
    have hunfold : w.each f (first :: rest) = (w.setCell first (f (w.cells first))).each f rest :=
      rfl
    rw [hunfold, ih hrest]
    simp only [setCell, mk.injEq, true_and, and_true]
    funext sub
    by_cases hsub : sub = first
    · rw [hsub, if_neg hfirst, if_pos mem_cons_self, update_self]
    · simp [hsub]

variable {acts : List WireAct} {tx : Nat}

theorem Wire.send_eq (hnodup : (w.bus.subs tx).Nodup) (e : CrewEvent) : w.send tx e = { w with
      cells := fun sub => if sub ∈ w.bus.subs tx then (w.cells sub).push ⟨tx, e⟩
        else w.cells sub } :=
  each_eq _ hnodup

theorem Wire.remove_cases (hnodup : ∀ tx, (w.bus.subs tx).Nodup) (crew : String) :
    (w.bus.channels.lookup crew = none ∧ w.remove crew = w) ∨
      ∃ tx, w.bus.channels.lookup crew = some tx ∧ w.remove crew = { w with
        bus := w.bus.drop crew tx
        cells := fun sub => if sub ∈ w.bus.subs tx then (w.cells sub).close else w.cells sub } := by
  unfold remove
  split
  · exact .inl ⟨‹_›, rfl⟩
  · exact .inr ⟨_, ‹_›, by rw [each_eq _ (hnodup _)]⟩

/-- A removal on the wire is one on the hub. -/
theorem hub_remove (hnodup : ∀ tx, (w.bus.subs tx).Nodup) (crew : String) :
    (w.remove crew).hub idle = (w.hub idle).remove crew := by
  obtain ⟨hl, heq⟩ | ⟨tx, hl, heq⟩ := w.remove_cases hnodup crew
  · have hl : (w.hub idle).bus.channels.lookup crew = none := hl
    simp only [heq, Hub.remove, hl]
  · have hl' : (w.hub idle).bus.channels.lookup crew = some tx := hl
    have hclosed : (fun sub =>
        (if sub ∈ w.bus.subs tx then (w.cells sub).close else w.cells sub).closed) =
        fun sub => (w.cells sub).closed || decide (sub ∈ w.bus.subs tx) := by
      funext sub
      split <;> simp_all [Cell.close]
    simp only [heq, Hub.remove, hl']
    simp only [Wire.hub, hclosed]
    rfl

theorem hub_mint :
    w.subNew.2.hub idle = { w.hub idle with
      closed := update (w.hub idle).closed w.minted false
      minted := w.minted + 1 } := by
  rw [subNew, hub_setCell]
  rfl

/-- The lookup of a sender is the bus's. -/
theorem Wire.sender_eq (crew : String) :
    ∃ crewOf,
      w.sender crew = ({ w with bus := (w.bus.sender crew).1, crewOf }, (w.bus.sender crew).2) := by
  obtain ⟨tx, hl, heq⟩ | ⟨hl, -⟩ := sender_cases w.bus crew
  · refine ⟨w.crewOf, ?_⟩
    simp only [sender, hl, heq]
  · refine ⟨update w.crewOf (w.bus.sender crew).2 (some crew), ?_⟩
    simp only [sender, hl]

theorem push_closed (cell : Cell) (d : Sent) : (cell.push d).closed = cell.closed := by
  unfold Cell.push
  split <;> rfl

theorem mem_push {d x : Sent} (h : x ∈ (cell.push d).chan.buf) : x ∈ cell.chan.buf ∨ x = d := by
  have hmem : x ∈ (cell.chan.pushLossy channelCapacity d).2.buf := by
    unfold Cell.push at h
    split at h <;> rename_i heq <;> rwa [heq]
  exact Chan.mem_pushLossy hmem

/-! ### What is kept -/

/-- Where a client stands: its handle is on what it was handed, and what is in its ring, or was
received from it, came through the sender that it looked up. -/
structure Client.Fits (cells : Nat → Cell) (c : Client) : Prop where
  handle : ∀ sub, c.handle = some sub → c.stage.handedOut = some sub
  joining : ∀ tx, c.stage.joining = some tx → tx = c.tx
  ring : ∀ sub, c.stage.sub = some sub → ∀ d ∈ (cells sub).chan.buf,
    c.stage.handedOut = some sub ∧ d.tx = c.tx
  received : ∀ d ∈ c.received, d.tx = c.tx

/-- The slots link the list `idle`, and what is on it is drained; a client's subscription is on the
list of no other sender than its own. -/
structure Sound (w : Wire) (idle : List Nat) : Prop where
  linked : Linked w.slot w.idle idle
  drained : ∀ sub ∈ idle, (w.cells sub).chan.buf = []
  fits : ∀ k c, w.clients k = some c → c.Fits w.cells
  listed : ∀ k c sub tx, w.clients k = some c → c.stage = .handed sub →
    sub ∈ w.bus.subs tx → c.tx = tx

theorem sound_start : Sound {} [] where
  linked := rfl
  drained := nofun
  fits := nofun
  listed := nofun

variable {cells : Nat → Cell}

/-- What a client has stays, where its ring does. -/
theorem Client.Fits.congr {cells' : Nat → Cell} (h : c.Fits cells)
    (hring : ∀ sub, c.stage.sub = some sub → (cells' sub).chan.buf = (cells sub).chan.buf) :
    c.Fits cells' where
  handle := h.handle
  joining := h.joining
  ring sub hsub d hd := h.ring sub hsub d (hring sub hsub ▸ hd)
  received := h.received

/-- A client has no handle where it was handed nothing. -/
theorem Client.Fits.handle_none (h : c.Fits cells) (hout : c.stage.handedOut = none) :
    c.handle = none := by
  refine eq_none_iff_forall_ne_some.2 fun sub hhandle => ?_
  cases (h.handle sub hhandle).symm.trans hout

/-- The ring of a subscription that is not handed out is empty. -/
theorem Client.Fits.drained (h : c.Fits cells) (hsub : c.stage.sub = some sub)
    (hout : c.stage.handedOut = none) : (cells sub).chan.buf = [] := by
  refine eq_nil_iff_forall_not_mem.2 fun d hd => ?_
  cases (h.ring sub hsub d hd).1.symm.trans hout

/-- A client that was handed nothing fits where its ring is empty. -/
theorem Client.Fits.of_drained (hhandle : c.handle = none)
    (hjoining : ∀ tx, c.stage.joining = some tx → tx = c.tx)
    (hempty : ∀ sub, c.stage.sub = some sub → (cells sub).chan.buf = [])
    (hreceived : ∀ d ∈ c.received, d.tx = c.tx) : c.Fits cells where
  handle sub h := by cases hhandle.symm.trans h
  joining := hjoining
  ring sub hsub d hd := by simp [hempty sub hsub] at hd
  received := hreceived

theorem Stage.sub_of_handedOut {stage : Stage} (h : stage.handedOut = some sub) :
    stage.sub = some sub := by
  cases stage with
  | handed | dropped => exact h
  | looked | taken | reopened | givenBack => cases h

/-- Only the lists change, and get shorter. -/
theorem Sound.shrink (h : Sound w idle) (hcells : w'.cells = w.cells) (hidle : w'.idle = w.idle)
    (hclients : w'.clients = w.clients) (hsubs : ∀ tx, (w'.bus.subs tx).Sublist (w.bus.subs tx)) :
    Sound w' idle := by
  refine ⟨?_, ?_, ?_, ?_⟩
  · unfold slot
    rw [hcells, hidle]
    exact h.linked
  · rw [hcells]
    exact h.drained
  · rw [hcells, hclients]
    exact h.fits
  · intro k c sub tx hk hstage hmem
    rw [hclients] at hk
    exact h.listed k c sub tx hk hstage ((hsubs tx).subset hmem)

/-- One client goes on, and the rings and lists of the others are left. -/
theorem Sound.update (h : Sound w idle) (hclients : w'.clients = update w.clients k (some c'))
    (hlinked : Linked w'.slot w'.idle idle') (hdrained : ∀ sub ∈ idle',
      (w'.cells sub).chan.buf = [])
    (hring : ∀ k₁ c₁ sub, k₁ ≠ k → w.clients k₁ = some c₁ → c₁.stage.sub = some sub →
      (w'.cells sub).chan.buf = (w.cells sub).chan.buf)
    (hsubs : ∀ k₁ c₁ sub tx, k₁ ≠ k → w.clients k₁ = some c₁ → c₁.stage = .handed sub →
      sub ∈ w'.bus.subs tx → sub ∈ w.bus.subs tx)
    (hfits : c'.Fits w'.cells)
    (hlisted : ∀ sub tx, c'.stage = .handed sub → sub ∈ w'.bus.subs tx → c'.tx = tx) :
    Sound w' idle' := by
  have hcases := update_some_cases hclients
  refine ⟨hlinked, hdrained, fun k₁ c₁ hk₁ => ?_, fun k₁ c₁ sub tx hk₁ hstage hmem => ?_⟩
  · obtain ⟨-, rfl⟩ | ⟨hne, hold⟩ := hcases k₁ c₁ hk₁
    · exact hfits
    · exact (h.fits k₁ c₁ hold).congr fun sub => hring k₁ c₁ sub hne hold
  · obtain ⟨-, rfl⟩ | ⟨hne, hold⟩ := hcases k₁ c₁ hk₁
    · exact hlisted sub tx hstage hmem
    · exact h.listed k₁ c₁ sub tx hold hstage (hsubs k₁ c₁ sub tx hne hold hstage hmem)

/-- No other client has this one's channel. -/
theorem Owned.client_ne (howned : Owned (w.hub idle)) (hk : w.clients k = some c)
    (hsub : c.stage.sub = some sub) {k₁ sub₁ : Nat} {c₁ : Client} (hne : k₁ ≠ k)
    (hk₁ : w.clients k₁ = some c₁) (hsub₁ : c₁.stage.sub = some sub₁) : sub₁ ≠ sub := by
  rintro rfl
  exact howned.others (hub_holders hk) hsub k₁ _ hne (hub_holders hk₁) hsub₁

theorem Owned.not_idle (howned : Owned (w.hub idle)) (hk : w.clients k = some c)
    (hsub : c.stage.sub = some sub) : sub ∉ idle :=
  fun hmem => (howned.shelf sub hmem).2 k _ (hub_holders hk) hsub

/-- A slot off the stack may be set. -/
theorem linked_setCell (h : Linked w.slot w.idle idle) (hsub : sub ∉ idle) :
    Linked (w.setCell sub cell).slot w.idle idle := by
  refine h.congr fun n hn => ?_
  have hne : n ≠ sub := fun heq => hsub (heq ▸ hn)
  simp only [slot, setCell, update_of_ne hne]

/-- The rings stay where that of the cell does. -/
theorem buf_setCell (h : cell.chan.buf = (w.cells sub).chan.buf) (sub₁ : Nat) :
    (update w.cells sub cell sub₁).chan.buf = (w.cells sub₁).chan.buf := by
  by_cases hsub : sub₁ = sub
  · rw [hsub, update_self, h]
  · rw [update_of_ne hsub]

section

variable (h : Sound w idle)
include h

/-- A client goes on, and with it what its subscription holds. -/
theorem Sound.rewrite (howned : Owned (w.hub idle)) (hk : w.clients k = some c)
    (hsub : c.stage.sub = some sub) (hfits : c'.Fits (Function.update w.cells sub cell))
    (hlisted : ∀ sub tx, c'.stage = .handed sub → sub ∈ w.bus.subs tx → c'.tx = tx) :
    Sound ((w.setCell sub cell).setClient k c') idle := by
  have hnot := howned.not_idle hk hsub
  refine h.update rfl (linked_setCell h.linked hnot) (fun sub₁ hmem => ?_)
    (fun k₁ c₁ sub₁ hne hk₁ hsub₁ => ?_) (fun _ _ _ _ _ _ _ hmem => hmem) hfits hlisted
  · have hne : sub₁ ≠ sub := fun heq => hnot (heq ▸ hmem)
    simp only [setClient, setCell, update_of_ne hne]
    exact h.drained sub₁ hmem
  · simp only [setClient, setCell, update_of_ne (howned.client_ne hk hsub hne hk₁ hsub₁)]

/-- A client goes on, and its subscription is left. -/
theorem Sound.keep (hfits : c'.Fits w.cells)
    (hlisted : ∀ sub tx, c'.stage = .handed sub → sub ∈ w.bus.subs tx → c'.tx = tx) :
    Sound (w.setClient k c') idle :=
  h.update rfl h.linked h.drained (fun _ _ _ _ _ _ => rfl) (fun _ _ _ _ _ _ _ hmem => hmem)
    hfits hlisted

/-! ### One step -/

/-- **A send reaches subscriptions of the sender's own clients only.** -/
theorem Sound.send (howned : Owned (w.hub idle)) (hplaced : Placed (w.hub idle))
    (tx : Nat) (e : CrewEvent) : Sound (w.send tx e) idle := by
  have hoff : ∀ sub ∈ idle, sub ∉ w.bus.subs tx := by
    intro sub hidle hmem
    obtain ⟨k, crew, hk⟩ := hplaced.listed tx sub hmem
    exact (howned.shelf sub hidle).2 k _ hk rfl
  rw [send_eq (hplaced.nodup tx)]
  refine ⟨h.linked.congr fun sub hidle => ?_, fun sub hidle => ?_, fun k c hk => ?_, h.listed⟩
  · simp only [slot, if_neg (hoff sub hidle)]
  · simp only [if_neg (hoff sub hidle)]
    exact h.drained sub hidle
  · have hfits := h.fits k c hk
    refine ⟨hfits.handle, hfits.joining, fun sub hsub d hd => ?_, hfits.received⟩
    by_cases hmem : sub ∈ w.bus.subs tx
    · simp only [if_pos hmem] at hd
      obtain hold | rfl := mem_push hd
      · exact hfits.ring sub hsub d hold
      · -- what is on the list is handed out, so the client is one of the sender's
        have hstage := howned.handed_stage (hplaced.listed tx sub hmem) (hub_holders hk) hsub
        rw [hstage]
        exact ⟨rfl, (h.listed k c sub tx hk hstage hmem).symm⟩
    · simp only [if_neg hmem] at hd
      exact hfits.ring sub hsub d hd

theorem Sound.remove (hplaced : Placed (w.hub idle)) (crew : String) :
    Sound (w.remove crew) idle := by
  obtain ⟨-, heq⟩ | ⟨tx, -, heq⟩ := w.remove_cases hplaced.nodup crew
  · rwa [heq]
  rw [heq]
  have hclose : ∀ sub, (if sub ∈ w.bus.subs tx then (w.cells sub).close else w.cells sub).chan.buf =
      (w.cells sub).chan.buf := by
    intro sub
    split <;> rfl
  refine ⟨h.linked.congr fun sub _ => ?_, fun sub hidle => (hclose sub).trans (h.drained sub hidle),
    fun k c hk => (h.fits k c hk).congr fun sub _ =>
      hclose sub, fun k c sub tx' hk hstage hmem => ?_⟩
  · simp only [slot]
    split <;> rfl
  · exact h.listed k c sub tx' hk hstage (mem_drop.1 hmem).2

theorem Sound.look (k : Nat) (crew : String) (tx : Nat) :
    Sound (w.setClient k { crew, stage := .looked tx, tx }) idle := by
  refine h.keep (.of_drained rfl ?_ nofun fun d hd => absurd hd not_mem_nil) nofun
  rintro tx' ⟨⟩
  rfl

/-- A subscription is minted, and its memory is new. -/
theorem Sound.mint (howned : Owned (w.hub idle)) (hk : w.clients k = some c)
    (hstage : c.stage = .looked tx) :
    Sound (w.subNew.2.setClient k { c with stage := .taken tx w.subNew.1 }) idle := by
  have hfits := h.fits k c hk
  have hnot : w.minted ∉ idle := fun hmem => Nat.lt_irrefl _ (howned.shelf _ hmem).1
  refine h.update rfl (linked_setCell h.linked hnot) (fun sub hmem => ?_)
    (fun k₁ c₁ sub _ hk₁ hsub₁ => ?_) (fun _ _ _ _ _ _ _ hmem => hmem)
    (.of_drained (hfits.handle_none (congrArg handedOut hstage)) ?_ ?_ hfits.received) nofun
  · have hne : sub ≠ w.minted := fun heq => hnot (heq ▸ hmem)
    simp only [setClient, subNew, setCell, update_of_ne hne]
    exact h.drained sub hmem
  · have hne : sub ≠ w.minted := by
      rintro rfl
      exact howned.fresh k₁ _ (hub_holders hk₁) hsub₁
    simp only [setClient, subNew, setCell, update_of_ne hne]
  · rintro tx' ⟨⟩
    exact hfits.joining tx (congrArg joining hstage)
  · rintro sub ⟨⟩
    simp [setClient, subNew, setCell]

/-- A subscription is taken off the stack: its slot is cleared, and its ring is drained. -/
theorem Sound.take (howned : Owned (w.hub idle)) (hk : w.clients k = some c)
    {rest : List Nat} (hstage : c.stage = .looked tx) (heq : idle = sub :: rest)
    (hrest : Linked w.slot (w.slot sub) rest) :
    Sound (({ w with idle := (w.cells sub).lagged }.setCell sub
      { w.cells sub with lagged := 0 }).setClient k { c with stage := .taken tx sub }) rest := by
  have hfits := h.fits k c hk
  have hnot : sub ∉ rest := (nodup_cons.1 (heq ▸ howned.nodup)).1
  -- the ring is left, in the cell whose slot is cleared too
  have hring := @buf_setCell w sub { w.cells sub with lagged := 0 } rfl
  refine h.update rfl ?_ (fun sub₁ hmem => ?_) (fun _ _ sub₁ _ _ _ => hring sub₁)
    (fun _ _ _ _ _ _ _ hmem => hmem)
    (.of_drained (hfits.handle_none (congrArg handedOut hstage)) ?_ ?_ hfits.received) nofun
  · exact linked_setCell hrest hnot
  · exact (hring sub₁).trans (h.drained sub₁ (heq ▸ mem_cons_of_mem sub hmem))
  · rintro tx' ⟨⟩
    exact hfits.joining tx (congrArg joining hstage)
  · rintro sub₁ ⟨⟩
    exact (hring sub).trans (h.drained sub (heq ▸ mem_cons_self))

/-- A subscription joins the list of the sender that its client looked up. -/
theorem Sound.add (howned : Owned (w.hub idle)) (hplaced : Placed (w.hub idle))
    (hk : w.clients k = some c) (hstage : c.stage = .taken tx sub) :
    Sound ({ w with bus := w.bus.add tx sub }.setClient k
      { c with stage := .handed sub, handle := some sub }) idle := by
  have hfits := h.fits k c hk
  have hsub : c.stage.sub = some sub := congrArg Stage.sub hstage
  have hnot : ∀ tx', sub ∉ w.bus.subs tx' := by
    intro tx' hmem
    cases hstage.symm.trans
      (howned.handed_stage (hplaced.listed tx' sub hmem) (hub_holders hk) hsub)
  refine h.update rfl h.linked h.drained (fun _ _ _ _ _ _ => rfl)
    (fun k₁ c₁ sub₁ tx₁ hne hk₁ hstage₁ hmem => ?_)
    ⟨fun _ hhandle => hhandle, nofun, ?_, hfits.received⟩ ?_
  · obtain hmem | ⟨-, heq⟩ := mem_add.1 hmem
    · exact hmem
    · exact absurd heq (howned.client_ne hk hsub hne hk₁ (congrArg Stage.sub hstage₁))
  · rintro sub₁ ⟨⟩ d hd
    simp [setClient, hfits.drained hsub (congrArg Stage.handedOut hstage)] at hd
  · rintro sub₁ tx' ⟨⟩ hmem
    obtain hmem | ⟨rfl, -⟩ := mem_add.1 hmem
    · exact absurd hmem (hnot tx')
    · exact (hfits.joining tx' (congrArg Stage.joining hstage)).symm

/-- So is unsubscribing. -/
theorem Sound.unsubscribe (hk : w.clients k = some c) (hstage : c.stage = .handed sub) (tx : Nat) :
    Sound ({ w with
      bus := { w.bus with
        subs := Function.update w.bus.subs tx ((w.bus.subs tx).erase sub) } }.setClient k
        { c with stage := .dropped sub }) idle := by
  have hfits := h.fits k c hk
  have hhandle := hfits.handle
  have hring := hfits.ring sub (congrArg Stage.sub hstage)
  rw [hstage] at hhandle
  refine h.update rfl h.linked h.drained (fun _ _ _ _ _ _ => rfl)
    (fun k₁ c₁ sub₁ tx₁ _ _ _ hmem => ?_) ⟨hhandle, nofun, ?_, hfits.received⟩ nofun
  · by_cases htx : tx₁ = tx
    · simp only [setClient, htx, update_self] at hmem
      exact htx ▸ mem_of_mem_erase hmem
    · simpa only [setClient, update_of_ne htx] using hmem
  · rintro sub₁ ⟨⟩ d hd
    exact ⟨rfl, (hring d hd).2⟩

end

/-- A client that has been handed its subscription keeps what is in the ring, or some of it. -/
theorem Client.Fits.out (h : c.Fits w.cells) (hout : c.stage.handedOut = some sub)
    (htx : c'.tx = c.tx) (hhandle : c'.handle = c.handle) (hout' : c'.stage.handedOut = some sub)
    (hbuf : ∀ d ∈ cell.chan.buf, d ∈ (w.cells sub).chan.buf)
    (hreceived : ∀ d ∈ c'.received, d.tx = c.tx) : c'.Fits (update w.cells sub cell) := by
  have hring := h.ring sub (sub_of_handedOut hout)
  have hsub := sub_of_handedOut hout'
  refine ⟨fun sub₁ hsub₁ => ?_, fun tx hjoin => ?_, fun sub₁ hsub₁ d hd => ?_, fun d hd => ?_⟩
  · rw [hhandle] at hsub₁
    rw [hout', ← hout, h.handle sub₁ hsub₁]
  · cases hstage : c'.stage with
    | looked | taken =>
      rw [hstage] at hout'
      cases hout'
    | handed | dropped | reopened | givenBack =>
      rw [hstage] at hjoin
      cases hjoin
  · obtain rfl : sub = sub₁ := some_inj.1 (hsub.symm.trans hsub₁)
    rw [update_self] at hd
    exact ⟨hout', (hring d (hbuf d hd)).2.trans htx.symm⟩
  · exact (hreceived d hd).trans htx.symm

section

variable (h : Sound w idle)
include h

section

variable (howned : Owned (w.hub idle))
include howned

theorem Sound.close (hplaced : Placed (w.hub idle))
    (hk : w.clients k = some c) (hstage : c.stage = .dropped sub) :
    Sound ((w.setCell sub (w.cells sub).close).setClient k { c with stage := .handed sub })
      idle := by
  have hfits := h.fits k c hk
  have hout : c.stage.handedOut = some sub := congrArg handedOut hstage
  refine h.rewrite howned hk (sub_of_handedOut hout) ?_ ?_
  · exact hfits.out hout rfl rfl rfl (fun _ hd => hd) hfits.received
  rintro sub₁ tx ⟨⟩ hmem
  cases hstage.symm.trans (howned.handed_stage (hplaced.listed tx sub hmem) (hub_holders hk)
    (sub_of_handedOut hout))

variable (hk : w.clients k = some c)
include hk

/-- What is given back is drained, and its client has let go of it. -/
theorem Sound.recycle (hstage : c.stage = .handed sub) (hgone : c.handle = none) :
    Sound ((w.setCell sub (w.cells sub).reopen).setClient k { c with stage := .reopened sub })
      idle := by
  have hfits := h.fits k c hk
  refine h.rewrite howned hk (congrArg Stage.sub hstage)
    (.of_drained hgone nofun ?_ hfits.received) nofun
  rintro sub₁ ⟨⟩
  rw [update_self, Cell.reopen, Chan.drain_eq]
  rfl

/-- Shelving is sound. -/
theorem Sound.shelve (hstage : c.stage = .reopened sub) :
    Sound ((w.shelve sub).setClient k { c with stage := .givenBack }) (sub :: idle) := by
  have hfits := h.fits k c hk
  have hsub : c.stage.sub = some sub := congrArg Stage.sub hstage
  have hout : c.stage.handedOut = none := congrArg Stage.handedOut hstage
  have hring := @buf_setCell w sub { w.cells sub with lagged := w.idle } rfl
  refine h.update rfl ?_ (fun sub₁ hmem => (hring sub₁).trans ?_) (fun _ _ sub₁ _ _ _ => hring sub₁)
    (fun _ _ _ _ _ _ _ hmem => hmem)
      (.of_drained (hfits.handle_none hout) nofun nofun hfits.received) nofun
  · refine h.linked.push (howned.not_idle hk hsub) ?_ fun m hm => ?_
    · simp [Wire.slot, Wire.setClient, Wire.shelve, Wire.setCell]
    · simp only [Wire.slot, Wire.setClient, Wire.shelve, Wire.setCell, update_of_ne hm]
  · obtain rfl | hmem := mem_cons.1 hmem
    · exact hfits.drained hsub hout
    · exact h.drained sub₁ hmem

/-- A client reads from its own ring. -/
theorem Sound.recv (hhandle : c.handle = some sub) :
    Sound ((w.setCell sub { w.cells sub with chan := (w.cells sub).chan.tryRecv.2 }).setClient k
      { c with received := c.received ++ (w.cells sub).chan.tryRecv.1.toList }) idle := by
  have hfits := h.fits k c hk
  have hout := hfits.handle sub hhandle
  have hsub := sub_of_handedOut hout
  have hreceived : ∀ d ∈ c.received ++ (w.cells sub).chan.tryRecv.1.toList, d.tx = c.tx := by
    intro d hd
    obtain hd | hd := mem_append.1 hd
    · exact hfits.received d hd
    · exact (hfits.ring sub hsub d (Chan.mem_of_tryRecv (mem_toList.1 hd))).2
  refine h.rewrite howned hk hsub ?_ ?_
  · exact hfits.out hout rfl rfl hout (fun _ hd => Chan.mem_tryRecv hd) hreceived
  exact fun sub₁ tx => h.listed k c sub₁ tx hk

theorem Sound.lagged (hhandle : c.handle = some sub) :
    Sound ((w.setCell sub { w.cells sub with lagged := 0 }).setClient k
      { c with lost := c.lost + (w.cells sub).lagged }) idle := by
  have hfits := h.fits k c hk
  have hout := hfits.handle sub hhandle
  refine h.rewrite howned hk (sub_of_handedOut hout) ?_ ?_
  · exact hfits.out hout rfl rfl hout (fun _ hd => hd) hfits.received
  exact fun sub₁ tx => h.listed k c sub₁ tx hk

end

theorem Sound.letGo (hk : w.clients k = some c) :
    Sound (w.setClient k { c with handle := none }) idle := by
  have hfits := h.fits k c hk
  refine h.keep ⟨nofun, hfits.joining, hfits.ring, hfits.received⟩ ?_
  exact fun sub₁ tx => h.listed k c sub₁ tx hk

/-- **One step.** Where readers let go first, a step of the lower machine is one of the upper
machine, or none, and what is kept stays. -/
theorem Sound.step (howned : Owned (w.hub idle)) (hplaced : Placed (w.hub idle))
    (hgo : LetGo w act) (ht : WireTrans w act w') :
    ∃ idle', hub.exec (w.hub idle) act.hub = some (w'.hub idle') ∧ Sound w' idle' := by
  -- where a client moves, the upper machine takes the step that the client's stage asks for
  cases ht with
  | @made crew =>
    obtain ⟨crewOf, heq⟩ := sender_eq crew
    rw [heq]
    exact ⟨idle, rfl, h.shrink rfl rfl rfl (sender_subs w.bus)⟩
  | @sent tx e =>
    refine ⟨idle, ?_, h.send howned hplaced tx e⟩
    rw [Wire.send_eq (hplaced.nodup tx)]
    have hclosed : ∀ sub,
        (if sub ∈ w.bus.subs tx then (w.cells sub).push ⟨tx, e⟩ else w.cells sub).closed =
        (w.cells sub).closed := by
      intro sub
      split
      · exact push_closed ..
      · rfl
    simp only [WireAct.hub, Machine.exec, Wire.hub, hclosed]
  | @removed crew =>
    refine ⟨idle, hub.exec_cons ?_, h.remove hplaced crew⟩
    rw [hub_remove hplaced.nodup]
    rfl
  | cleaned => exact ⟨idle, rfl, h.shrink rfl rfl rfl fun _ => .refl _⟩
  | @looked k crew hnew =>
    obtain ⟨crewOf, heq⟩ := sender_eq crew
    rw [heq]
    have hbus : Sound { w with bus := (w.bus.sender crew).1, crewOf } idle :=
      h.shrink rfl rfl rfl (sender_subs w.bus)
    refine ⟨idle, hub.exec_cons ?_, hbus.look k crew (w.bus.sender crew).2⟩
    have hnone : (w.hub idle).holders k = none := by simp only [Wire.hub, hnew, map_none]
    rw [hub_setClient]
    simp only [hub, hubStep, hnone]
    rfl
  | @taken k c tx sub hk hstage hidle =>
    obtain ⟨rest, heq, hrest⟩ := Linked.pop (hidle ▸ h.linked)
    refine ⟨rest, hub.exec_cons ?_, h.take howned hk hstage heq hrest⟩
    have hlist : (w.hub idle).idle = sub :: rest := heq
    rw [hub_setClient, hub_setCell_of_eq (by rfl)]
    simp only [hub, hubStep, hub_holders hk, hstage, hlist]
    rfl
  | @minted act k c tx hk hstage hact =>
    refine ⟨idle, ?_, h.mint howned hk hstage⟩
    have hmint : (w.subNew.2.setClient k { c with stage := .taken tx w.subNew.1 }).hub idle =
        (w.hub idle).mintFor k c.crew tx := by
      rw [hub_setClient, hub_mint]
      rfl
    rw [hmint]
    obtain ⟨rfl, hidle⟩ | rfl := hact
    · have hnil : (w.hub idle).idle = [] := Linked.eq_nil (hidle ▸ h.linked)
      exact hub.exec_cons (by simp only [hub, hubStep, hub_holders hk, hstage, hnil])
    · exact hub.exec_cons (by simp only [hub, hubStep, hub_holders hk, hstage])
  | @added k c tx sub hk hstage =>
    refine ⟨idle, hub.exec_cons ?_, h.add howned hplaced hk hstage⟩
    rw [hub_setClient]
    simp only [hub, hubStep, hub_holders hk, hstage]
    rfl
  | @unsubscribed k tx c sub hk hstage hmem =>
    refine ⟨idle, hub.exec_cons ?_, h.unsubscribe hk hstage tx⟩
    rw [hub_setClient]
    have hmem : sub ∈ (w.hub idle).bus.subs tx := hmem
    simp only [hub, hubStep, hub_holders hk, hstage, if_pos hmem]
    rfl
  | @missed k tx c sub hk hstage hnot =>
    refine ⟨idle, hub.exec_cons ?_, h⟩
    have hnot : sub ∉ (w.hub idle).bus.subs tx := hnot
    simp only [hub, hubStep, hub_holders hk, hstage, if_neg hnot]
  | @closed k c sub hk hstage =>
    refine ⟨idle, hub.exec_cons ?_, h.close howned hplaced hk hstage⟩
    rw [hub_setClient, hub_setCell]
    simp only [hub, hubStep, hub_holders hk, hstage]
    rfl
  | @recycled k c sub hk hstage hclosed =>
    refine ⟨idle, hub.exec_cons ?_, h.recycle howned hk hstage (hgo c hk)⟩
    rw [hub_setClient, hub_setCell]
    have hclosed : (w.hub idle).closed sub = true := hclosed
    simp only [hub, hubStep, hub_holders hk, hstage, if_pos hclosed]
    rfl
  | @left k c sub hk hstage hopen =>
    refine ⟨idle, hub.exec_cons ?_, h⟩
    have hopen : ¬ (w.hub idle).closed sub = true := Bool.eq_false_iff.1 hopen
    simp only [hub, hubStep, hub_holders hk, hstage, if_neg hopen]
  | @shelved k c sub hk hstage =>
    refine ⟨sub :: idle, hub.exec_cons ?_, h.shelve howned hk hstage⟩
    rw [hub_setClient, Wire.shelve, hub_setCell_of_eq (by rfl)]
    simp only [hub, hubStep, hub_holders hk, hstage]
    rfl
  | @received k c sub hk hhandle =>
    refine ⟨idle, ?_, h.recv howned hk hhandle⟩
    rw [hub_setClient, hub_setCell_of_eq (by rfl), hub_setStage_same hk]
    rfl
  | @told k c sub hk hhandle =>
    refine ⟨idle, ?_, h.lagged howned hk hhandle⟩
    rw [hub_setClient, hub_setCell_of_eq (by rfl), hub_setStage_same hk]
    rfl
  | @gone k c hk =>
    refine ⟨idle, ?_, h.letGo hk⟩
    rw [hub_setClient, hub_setStage_same hk]
    rfl

end

/-! ### Where events and names come from -/

theorem each_frame (f : Cell → Cell) (subs : List Nat) (w : Wire) :
    ∃ cells, w.each f subs = { w with cells } := by
  induction subs generalizing w with
  | nil => exact ⟨w.cells, rfl⟩
  | cons first rest ih => exact ih (w.setCell first (f (w.cells first)))

theorem each_rule {P : Nat → Cell → Prop} {f : Cell → Cell}
    (hf : ∀ sub cell, P sub cell → P sub (f cell))
    (subs : List Nat) {w : Wire} (h : ∀ sub, P sub (w.cells sub)) :
    P sub ((w.each f subs).cells sub) := by
  induction subs generalizing w with
  | nil => exact h sub
  | cons first rest ih =>
    refine ih fun sub₁ => ?_
    by_cases heq : sub₁ = first
    · simp only [setCell, heq, update_self]
      exact hf _ _ (h first)
    · simp only [setCell, update_of_ne heq]
      exact h sub₁

theorem mem_of_mem_update {d : Sent} {sub₁ : Nat} (h : d ∈ (update cells sub cell sub₁).chan.buf)
    (hcell : ∀ d ∈ cell.chan.buf, d ∈ (cells sub).chan.buf) : d ∈ (cells sub₁).chan.buf := by
  by_cases heq : sub₁ = sub
  · rw [heq, update_self] at h
    exact heq ▸ hcell d h
  · rwa [update_of_ne heq] at h

/-- What is in a ring after a step was there, or is being sent. -/
theorem WireTrans.ring (ht : WireTrans w act w') {d : Sent} (h : d ∈ (w'.cells sub).chan.buf) :
    d ∈ (w.cells sub).chan.buf ∨ act = .send d.tx d.event := by
  cases ht with
  | @made crew | @looked k crew =>
    obtain ⟨crewOf, heq⟩ := sender_eq crew
    rw [heq] at h
    exact .inl h
  | @sent tx e =>
    let P (sub : Nat) (cell : Cell) : Prop :=
      ∀ x ∈ cell.chan.buf, x ∈ (w.cells sub).chan.buf ∨ WireAct.send tx e = .send x.tx x.event
    have hpush : ∀ sub cell, P sub cell → P sub (cell.push ⟨tx, e⟩) := by
      intro sub cell hcell x hx
      obtain hx | rfl := mem_push hx
      · exact hcell x hx
      · exact .inr rfl
    exact each_rule hpush (w.bus.subs tx) (fun _ _ hx => .inl hx) d h
  | @removed crew =>
    let P (sub : Nat) (cell : Cell) : Prop := ∀ x ∈ cell.chan.buf, x ∈ (w.cells sub).chan.buf
    have hclose : ∀ sub cell, P sub cell → P sub cell.close := fun _ _ hcell => hcell
    unfold remove at h
    split at h
    · exact .inl h
    · exact .inl (each_rule hclose _ (fun _ _ hx => hx) d h)
  | cleaned | added | unsubscribed | missed | left | gone => exact .inl h
  | taken | closed | shelved | told => exact .inl (mem_of_mem_update h fun _ hd => hd)
  | minted => exact .inl (mem_of_mem_update h fun _ hd => by cases hd)
  | recycled =>
    refine .inl (mem_of_mem_update h fun d hd => ?_)
    rw [Cell.reopen, Chan.drain_eq] at hd
    cases hd
  | received => exact .inl (mem_of_mem_update h fun _ hd => Chan.mem_tryRecv hd)

/-- A client keeps its crew and its sender, and what it has received it had, or it was in a ring. -/
theorem WireTrans.client (ht : WireTrans w act w') (h : w'.clients k = some c') :
    (∃ crew, act = .lookup k crew ∧
      c' = { crew, stage := .looked (w.sender crew).2, tx := (w.sender crew).2 }) ∨
    ∃ c, w.clients k = some c ∧ c'.crew = c.crew ∧ c'.tx = c.tx ∧
      ∀ d ∈ c'.received, d ∈ c.received ∨ ∃ sub, d ∈ (w.cells sub).chan.buf := by
  -- a client that is not the one that moves
  have hsame : w.clients k = some c' → ∃ c, w.clients k = some c ∧ c'.crew = c.crew ∧ c'.tx = c.tx ∧
      ∀ d ∈ c'.received, d ∈ c.received ∨ ∃ sub, d ∈ (w.cells sub).chan.buf :=
    fun hk => ⟨c', hk, rfl, rfl, fun _ hd => .inl hd⟩
  cases ht with
  | @made crew =>
    obtain ⟨crewOf, heq⟩ := sender_eq crew
    rw [heq] at h
    exact .inr (hsame h)
  | @sent tx e =>
    obtain ⟨cells, heq⟩ := each_frame (·.push ⟨tx, e⟩) (w.bus.subs tx) w
    rw [send, heq] at h
    exact .inr (hsame h)
  | @removed crew =>
    unfold remove at h
    split at h
    · exact .inr (hsame h)
    next tx _ =>
      obtain ⟨cells, heq⟩ := each_frame Cell.close (w.bus.subs tx) w
      rw [heq] at h
      exact .inr (hsame h)
  | cleaned | missed | left => exact .inr (hsame h)
  | @looked k₁ crew =>
    obtain ⟨rfl, rfl⟩ | ⟨-, hold⟩ := update_some_cases rfl k c' h
    · exact .inl ⟨crew, rfl, rfl⟩
    · obtain ⟨crewOf, heq⟩ := sender_eq crew
      rw [heq] at hold
      exact .inr (hsame hold)
  | taken hk | minted hk | added hk | unsubscribed hk | closed hk | recycled hk
  | shelved hk | told hk
  | gone hk =>
    obtain ⟨rfl, rfl⟩ | ⟨-, hold⟩ := update_some_cases rfl k c' h
    · exact .inr ⟨_, hk, rfl, rfl, fun _ hd => .inl hd⟩
    · exact .inr (hsame hold)
  | received hk =>
    obtain ⟨rfl, rfl⟩ | ⟨-, hold⟩ := update_some_cases rfl k c' h
    · refine .inr ⟨_, hk, rfl, rfl, fun d hd => ?_⟩
      obtain hd | hd := mem_append.1 hd
      · exact .inl hd
      · exact .inr ⟨_, Chan.mem_of_tryRecv (mem_toList.1 hd)⟩
    · exact .inr (hsame hold)

/-- Each sender of the bus was made for the crew that it is found under. -/
structure Crews (w : Wire) : Prop where
  below : ∀ tx crew, w.crewOf tx = some crew → tx < w.bus.next
  channels : ∀ crew tx, w.bus.channels.lookup crew = some tx → w.crewOf tx = some crew

theorem Crews.mono (h : Crews w) (hcrewOf : w'.crewOf = w.crewOf) (hnext : w'.bus.next = w.bus.next)
    (hchannels : ∀ crew tx, w'.bus.channels.lookup crew = some tx →
      w.bus.channels.lookup crew = some tx) :
    Crews w' := by
  refine ⟨?_, fun crew tx hl => ?_⟩
  · rw [hcrewOf, hnext]
    exact h.below
  · rw [hcrewOf]
    exact h.channels crew tx (hchannels crew tx hl)

/-- The lookup answers a sender of the crew, and no sender changes its crew. -/
theorem Crews.sender (h : Crews w) (crew : String) :
    Crews (w.sender crew).1 ∧ (w.sender crew).1.crewOf (w.sender crew).2 = some crew ∧
      ∀ tx crew', w.crewOf tx = some crew' → (w.sender crew).1.crewOf tx = some crew' := by
  obtain ⟨tx, hl, -⟩ | ⟨hl, heq⟩ := sender_cases w.bus crew
  · simp only [Wire.sender, hl]
    exact ⟨h, h.channels crew tx hl, fun _ _ hcrew => hcrew⟩
  simp only [Wire.sender, hl, heq]
  have hgrow : ∀ tx crew', w.crewOf tx = some crew' →
      update w.crewOf w.bus.next (some crew) tx = some crew' := by
    intro tx crew' hcrew
    rw [update_of_ne (Nat.ne_of_lt (h.below tx crew' hcrew)), hcrew]
  refine ⟨⟨fun tx crew' hcrew => ?_, fun crew' tx hl' => ?_⟩, update_self .., hgrow⟩
  · by_cases htx : tx = w.bus.next
    · rw [htx]
      exact Nat.lt_succ_self _
    · simp only [update_of_ne htx] at hcrew
      exact Nat.lt_succ_of_lt (h.below tx crew' hcrew)
  · simp only [KeyMap.lookup_set] at hl'
    split at hl'
    next hcrew =>
      cases hl'
      rw [hcrew]
      exact update_self ..
    · exact hgrow tx crew' (h.channels crew' tx (lookup_room hl'))

/-- What a step does to the senders' names. -/
theorem Crews.step (h : Crews w) (ht : WireTrans w act w') :
    Crews w' ∧ ∀ tx crew, w.crewOf tx = some crew → w'.crewOf tx = some crew := by
  have hkeep : ∀ {w' : Wire}, w'.crewOf = w.crewOf → w'.bus.next = w.bus.next →
      (∀ crew tx, w'.bus.channels.lookup crew = some tx → w.bus.channels.lookup crew = some tx) →
      Crews w' ∧ ∀ tx crew, w.crewOf tx = some crew → w'.crewOf tx = some crew := by
    intro w' hcrewOf hnext hchannels
    exact ⟨h.mono hcrewOf hnext hchannels, fun tx crew hcrew => hcrewOf ▸ hcrew⟩
  cases ht with
  | @made crew => exact ⟨(h.sender crew).1, (h.sender crew).2.2⟩
  | @looked k crew =>
    obtain ⟨hcrews, -, hgrow⟩ := h.sender crew
    exact ⟨⟨hcrews.below, hcrews.channels⟩, hgrow⟩
  | @sent tx e =>
    obtain ⟨cells, heq⟩ := each_frame (·.push ⟨tx, e⟩) (w.bus.subs tx) w
    rw [send, heq]
    exact hkeep rfl rfl fun _ _ hl => hl
  | @removed crew =>
    unfold remove
    split
    · exact hkeep rfl rfl fun _ _ hl => hl
    next tx _ =>
      obtain ⟨cells, heq⟩ := each_frame Cell.close (w.bus.subs tx) w
      rw [heq]
      refine hkeep rfl rfl fun crew' tx' hl => ?_
      simp only [Bus.drop, KeyMap.lookup_erase, ite_none_left_eq_some] at hl
      exact hl.2
  | cleaned => exact hkeep rfl rfl fun _ _ hl => (lookup_cleanup.1 hl).1
  | taken | minted | added | unsubscribed | missed | closed | recycled | left | shelved | received
  | told | gone => exact hkeep rfl rfl fun _ _ hl => hl

/-! ### Every history -/

/-- Where the events and the names of a history come from. -/
structure Recorded (acts : List WireAct) (w : Wire) : Prop where
  crews : Crews w
  client : ∀ k c, w.clients k = some c → w.crewOf c.tx = some c.crew
  ring : ∀ sub, ∀ d ∈ (w.cells sub).chan.buf, .send d.tx d.event ∈ acts
  received : ∀ k c, w.clients k = some c → ∀ d ∈ c.received, .send d.tx d.event ∈ acts

/-- What a step adds was sent. -/
theorem Recorded.step (h : Recorded acts w) (ht : WireTrans w act w') :
    Recorded (acts ++ [act]) w' := by
  obtain ⟨hcrews, hgrow⟩ := h.crews.step ht
  refine ⟨hcrews, fun k c' hk => ?_, fun sub d hd => ?_, fun k c' hk d hd => ?_⟩
  · obtain ⟨crew, rfl, rfl⟩ | ⟨c, hold, hcrew, htx, -⟩ := ht.client hk
    · cases ht with
      | minted _ _ hact => obtain ⟨hact, -⟩ | hact := hact <;> cases hact
      | looked => exact (h.crews.sender crew).2.1
    · rw [htx, hcrew]
      exact hgrow c.tx c.crew (h.client k c hold)
  · obtain hold | rfl := ht.ring hd
    · exact mem_append_left _ (h.ring sub d hold)
    · exact mem_append_right _ (mem_singleton_self _)
  · refine mem_append_left _ ?_
    obtain ⟨crew, -, rfl⟩ | ⟨c, hold, -, -, hreceived⟩ := ht.client hk
    · cases hd
    · obtain hd | ⟨sub, hd⟩ := hreceived d hd
      · exact h.received k c hold d hd
      · exact h.ring sub d hd

theorem crews_start : Crews {} where
  below := nofun
  channels := nofun

theorem recorded_start : Recorded [] {} where
  crews := crews_start
  client := nofun
  ring := nofun
  received := nofun

theorem recorded (h : wire.exec {} acts = some w) : Recorded acts w := by
  refine wire.exec_history recorded_start ?_ h
  exact fun _ _ _ _ _ hI hstep => hI.step (wireStep_trans hstep)

/-- **The refinement.** Where readers let go before a subscription is given back, a history of the
lower machine is one of the upper machine, with the idle stack that the slots link. -/
theorem wire_refines (h : wire.exec {} acts = some w) (hgo : wire.Along LetGo {} acts) :
    ∃ idle, hub.exec {} (acts.flatMap WireAct.hub) = some (w.hub idle) ∧ Sound w idle := by
  refine wire.exec_rule
    (I := fun acts w => ∃ idle, hub.exec {} (acts.flatMap WireAct.hub) = some (w.hub idle) ∧
      Sound w idle)
    ⟨[], rfl, sound_start⟩ ?_ hgo h
  rintro acts w act w' ⟨idle, hrun, hsound⟩ hact hstep
  obtain ⟨howned, hplaced⟩ := owned_placed hrun
  obtain ⟨idle', hrun', hsound'⟩ := hsound.step howned hplaced hact (wireStep_trans hstep)
  refine ⟨idle', ?_, hsound'⟩
  rw [flatMap_append, flatMap_singleton, hub.exec_append hrun, hrun']

/-- **Isolation.** In every history in which a subscription is given back only after its reader let
go of it: what a client received was sent through the sender that its lookup answered, and that
sender was made for the client's crew; and the idle stack has no subscription twice, and none that
is on a sender's list. -/
theorem isolated {acts : List WireAct} (h : wire.exec {} acts = some w)
    (hgo : wire.Along LetGo {} acts) : (∀ k c, w.clients k = some c → ∀ d ∈ c.received,
      d.tx = c.tx ∧ w.crewOf d.tx = some c.crew ∧ .send d.tx d.event ∈ acts) ∧
    ∃ idle, Linked w.slot w.idle idle ∧ idle.Nodup ∧ ∀ sub ∈ idle, ∀ tx, sub ∉ w.bus.subs tx := by
  have hrecorded := recorded h
  obtain ⟨idle, hrun, hsound⟩ := wire_refines h hgo
  obtain ⟨howned, hplaced⟩ := owned_placed hrun
  refine ⟨fun k c hk d hd => ?_, idle, hsound.linked, howned.nodup, fun sub hidle tx hmem => ?_⟩
  · have htx := (hsound.fits k c hk).received d hd
    refine ⟨htx, ?_, hrecorded.received k c hk d hd⟩
    rw [htx]
    exact hrecorded.client k c hk
  · obtain ⟨k, crew, hk⟩ := hplaced.listed tx sub hmem
    exact (howned.shelf sub hidle).2 k _ hk rfl

/-- A subscription of one crew is given back and serves another, while the first crew's sender is
kept and still sends. -/
def reuse : List WireAct :=
  [.lookup 0 "a", .takeIdle 0, .add 0, .send 0 ⟨"a", "task_started", .null⟩, .recv 0,
    .remove "a", .letGo 0, .recycle 0, .shelve 0, .lookup 1 "b", .takeIdle 1, .add 1,
      .send 0 ⟨"a", "crew_completed", .null⟩,
    .send 1 ⟨"b", "task_started", .null⟩, .recv 1]

theorem isolated_reuse :
    ∃ w c, wire.exec {} reuse = some w ∧ w.clients 1 = some c ∧ c.handle = some 0 ∧
      c.received.map (·.tx) = [1] ∧ ∀ d ∈ c.received, w.crewOf d.tx = some c.crew := by
  have hgo : wire.Along LetGo {} reuse := by decide +kernel
  have hrun : (wire.exec {} reuse).bind (fun w => (w.clients 1).map fun c =>
      (c.handle, c.received.map (·.tx))) = some (some 0, [1]) := by decide +kernel
  obtain ⟨w, hw, hclient⟩ := bind_eq_some_iff.1 hrun
  obtain ⟨c, hk, heq⟩ := map_eq_some_iff.1 hclient
  obtain ⟨hhandle, hreceived⟩ := Prod.mk.inj heq
  exact ⟨w, c, hw, hk, hhandle, hreceived, fun d hd => ((isolated hw hgo).1 1 c hk d hd).2.1⟩

end Agnosai.Subscriptions
