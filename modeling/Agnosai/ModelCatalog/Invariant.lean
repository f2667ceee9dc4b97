import Agnosai.ModelCatalog.Access
import Agnosai.Support.Lock

/-!
# Model catalog — Invariant

What holds in every state that the threads reach: the slots are one for each URL and linked in the
order they were made; the lock of the list and the mutex of each slot are held by the thread that
is under them; and each thread is where the slots let it be (`Pc.Placed`). A thread under the lock
of the list has passed slots of other URLs only, so the slot it makes at the end is the first for
its URL.
-/

namespace Agnosai.ModelCatalog

open Function (update update_self update_of_ne)
open List

/-! ### The list of slots -/

/-- One slot for each URL, linked in the order they were made. -/
structure Table.WellFormed (tab : Table) : Prop where
  urls : (tab.slots.map Slot.baseUrl).Nodup
  next : ∀ (k : Nat) m, tab.slots[k]? = some m → m.next = k
  head : tab.head = tab.slots.length

theorem getElem?_set_of_some {α : Type*} {l : List α} {k j : Nat} {x y : α} (hk : l[k]? = some x) :
    (l.set k y)[j]? = if j = k then some y else l[j]? := by
  obtain ⟨hlt, -⟩ := List.getElem?_eq_some_iff.1 hk
  by_cases hjk : j = k
  · rw [hjk, if_pos rfl, List.getElem?_set_self hlt]
  · rw [if_neg hjk, List.getElem?_set_ne (Ne.symm hjk)]

section Table

variable {tab : Table} {url url' : String} {k : Nat} {m m' : Slot}

/-- A URL has the one slot that names it. -/
theorem Table.WellFormed.slotOf_eq_some (h : tab.WellFormed) :
    tab.slotOf url = some m ↔ ∃ k : Nat, tab.slots[k]? = some m ∧ m.baseUrl = url := by
  have hfound : ∀ {url m}, tab.slotOf url = some m → m ∈ tab.slots ∧ m.baseUrl = url := by
    intro url m hfind
    exact ⟨mem_of_find?_eq_some hfind, by simpa using find?_some hfind⟩
  constructor
  · intro hfind
    obtain ⟨hmem, hurl⟩ := hfound hfind
    obtain ⟨k, hk⟩ := mem_iff_getElem?.1 hmem
    exact ⟨k, hk, hurl⟩
  · rintro ⟨k, hk, rfl⟩
    have hmem : m ∈ tab.slots := mem_of_getElem? hk
    cases hfind : tab.slotOf m.baseUrl with
    | none => exact absurd (decide_eq_true rfl) (find?_eq_none.1 hfind m hmem)
    | some =>
      obtain ⟨hmem₁, hurl⟩ := hfound hfind
      rw [inj_on_of_nodup_map h.urls hmem₁ hmem hurl]

theorem Table.WellFormed.set (h : tab.WellFormed) (hk : tab.slots[k]? = some m)
    (hurl : m'.baseUrl = m.baseUrl)
    (hnext : m'.next = m.next) : { tab with slots := tab.slots.set k m' }.WellFormed where
  urls := by
    have hsame : (tab.slots.set k m').map Slot.baseUrl = tab.slots.map Slot.baseUrl := by
      obtain ⟨hlt, rfl⟩ := List.getElem?_eq_some_iff.1 hk
      rw [List.map_set, hurl, ← List.map_set, List.set_getElem_self]
    rw [hsame]
    exact h.urls
  next j x hx := by
    rw [getElem?_set_of_some hk] at hx
    split at hx
    next hjk =>
      cases hx
      rw [hnext, hjk, h.next k m hk]
    · exact h.next j x hx
  head := by rw [h.head, length_set]

/-- The slots of other gateways are where they were. -/
theorem Table.WellFormed.slotOf_set (h : tab.WellFormed) (hk : tab.slots[k]? = some m)
    (hurl : m'.baseUrl = m.baseUrl) (hnext : m'.next = m.next) :
    { tab with slots := tab.slots.set k m' }.slotOf url = if m.baseUrl = url then some m'
      else tab.slotOf url := by
  have hset := h.set hk hurl hnext
  split
  next hsame =>
    exact hset.slotOf_eq_some.2
      ⟨k, by rw [getElem?_set_of_some hk, if_pos rfl], by rw [hurl, hsame]⟩
  next hother =>
    refine Option.ext fun x => ?_
    rw [hset.slotOf_eq_some, h.slotOf_eq_some]
    refine exists_congr fun j => and_congr_left fun hx => ?_
    rw [getElem?_set_of_some hk]
    split
    next hjk =>
      subst hjk hx
      refine iff_of_false (fun heq => ?_) fun heq => ?_
      · cases heq
        exact hother hurl.symm
      · rw [hk] at heq
        cases heq
        exact hother rfl
    · rfl

/-- A new URL keeps the table well formed. -/
theorem Table.WellFormed.push (h : tab.WellFormed)
    (hnew : ∀ (k : Nat) m, tab.slots[k]? = some m → m.baseUrl ≠ url) :
    (tab.push url).WellFormed where
  urls := by
    have hnot : url ∉ tab.slots.map Slot.baseUrl := by
      rw [mem_map]
      rintro ⟨m, hm, hurl⟩
      obtain ⟨k, hk⟩ := mem_iff_getElem?.1 hm
      exact hnew k m hk hurl
    simp only [Table.push, map_append, map_cons, map_nil]
    refine nodup_append.2 ⟨h.urls, nodup_singleton _, ?_⟩
    rintro x hx y hy rfl
    exact hnot (mem_singleton.1 hy ▸ hx)
  next k m hk := by
    simp only [Table.push, List.getElem?_append] at hk
    split at hk
    · exact h.next k m hk
    · obtain ⟨hlt, rfl⟩ := List.getElem?_eq_some_iff.1 hk
      simp only [List.length_singleton] at hlt
      simp only [List.getElem_singleton, h.head]
      omega
  head := by simp [Table.push]

theorem Table.slotOf_eq_none (hnew : ∀ (k : Nat) m, tab.slots[k]? = some m → m.baseUrl ≠ url) :
    tab.slotOf url = none := by
  refine find?_eq_none.2 fun m hm hurl => ?_
  obtain ⟨k, hk⟩ := mem_iff_getElem?.1 hm
  exact hnew k m hk (of_decide_eq_true hurl)

/-- A new slot is the gateway's, and has nothing to show. -/
theorem Table.slotOf_push (hnew : ∀ (k : Nat) m, tab.slots[k]? = some m → m.baseUrl ≠ url) :
    (tab.push url).slotOf url' = if url = url' then some { next := tab.head, baseUrl := url }
      else tab.slotOf url' := by
  simp only [Table.slotOf, Table.push, find?_append, find?_singleton]
  by_cases hsame : url = url'
  · subst hsame
    have hnone : tab.slots.find? (fun m => m.baseUrl = url) = none := Table.slotOf_eq_none hnew
    simp [hnone]
  · simp [hsame]

end Table

/-! ### The invariant -/

/-- The accesses under the lock of the list. -/
def Pc.InSlots : Pc → Prop
  | .loadHead _ | .walkLocked _ _ | .unlockSlots _ _ => True
  | _ => False

/-- The accesses under the mutex of slot `k`. -/
def Pc.InMutex (k : Nat) : Pc → Prop
  | .slot _ k' p => k' = k ∧ p.Locked
  | _ => False

/-- The next access to a slot, for a thread that has one. -/
def Pc.slotPc : Pc → Option SlotPc
  | .slot _ _ p => some p
  | _ => none

/-- Where a thread is agrees with the slots: an address on the list, past which no slot has the URL
if the thread has the lock; or the slot of the URL. -/
def Pc.Placed (slots : List Slot) : Pc → Prop
  | .walk _ addr => addr ≤ slots.length
  | .walkLocked c addr =>
    addr ≤ slots.length ∧ ∀ (k : Nat) m, addr ≤ k → slots[k]? = some m → m.baseUrl ≠ c.url
  | .unlockSlots c k => ∃ m, slots[k]? = some m ∧ m.baseUrl = c.url
  | .slot c k p => ∃ m, slots[k]? = some m ∧ m.baseUrl = c.url ∧ p.Fits m.reads
  | _ => True

/-- What holds in every state that is reached. -/
structure Inv (s : State) : Prop where
  table : s.table.WellFormed
  lock : Owns Pc.InSlots s.pc s.table.lock
  mutex : ∀ (k : Nat) m, s.table.slots[k]? = some m → Owns (Pc.InMutex k) s.pc m.mutex
  placed : ∀ t, (s.pc t).Placed s.table.slots

variable {q : SlotPc ⊕ Answer}

section Inv

variable {setup : Setup} {s s' : State} {t t' k : Nat} {out : Outside} {c : Call} {p : Pc}
  {m m' x : Slot} {tab : Table}
  {slots : List Slot} {addr : Nat}

theorem inMutex_after : (Pc.after c k q).InMutex k ↔ ∃ p', q = .inl p' ∧ p'.Locked := by
  cases q with
  | inl | inr => simp [Pc.after, Pc.InMutex]

theorem not_inMutex_after {j : Nat} (hj : j ≠ k) : ¬ (Pc.after c k q).InMutex j := by
  cases q with
  | inl => exact fun h => hj h.1.symm
  | inr => exact id

theorem not_inMutex_of_entered (hp : p.slotPc = none ∨ p.slotPc = some .entered) :
    ¬ p.InMutex k := by
  cases p with
  | slot =>
    rcases hp with hp | hp <;> cases hp
    exact fun h => h.2
  | _ => exact id

theorem not_inSlots_after : ¬ (Pc.after c k q).InSlots := by
  cases q <;> exact id

theorem Pc.Placed.append (h : p.Placed slots) (hp : ¬ p.InSlots) : p.Placed (slots ++ [x]) := by
  have hleft : ∀ {k : Nat} {m}, slots[k]? = some m → (slots ++ [x])[k]? = some m := by
    intro k m hk
    rw [List.getElem?_append_left (List.getElem?_eq_some_iff.1 hk).1, hk]
  cases p with
  | walk => exact le_trans h (by simp)
  | walkLocked => exact absurd trivial hp
  | unlockSlots => exact absurd trivial hp
  | slot =>
    obtain ⟨m, hk, hm⟩ := h
    exact ⟨m, hleft hk, hm⟩
  | _ => trivial

/-- A thread finds its place as it was after another's access to slot `k`. -/
theorem Pc.Placed.set (h : p.Placed slots) (hk : slots[k]? = some m) (hurl : m'.baseUrl = m.baseUrl)
    (hfits : ∀ c p₁, p = .slot c k p₁ → p₁.Fits m.reads → p₁.Fits m'.reads) :
    p.Placed (slots.set k m') := by
  cases p with
  | walk => rwa [Pc.Placed, length_set]
  | walkLocked =>
    rw [Pc.Placed, length_set]
    refine ⟨h.1, fun j x hj hx => ?_⟩
    rw [getElem?_set_of_some hk] at hx
    split at hx
    next hjk =>
      subst hjk
      cases hx
      rw [hurl]
      exact h.2 j m hj hk
    · exact h.2 j x hj hx
  | unlockSlots =>
    obtain ⟨x, hx, hxurl⟩ := h
    rw [Pc.Placed, getElem?_set_of_some hk]
    split
    next hjk =>
      subst hjk
      cases hk.symm.trans hx
      exact ⟨m', rfl, hurl.trans hxurl⟩
    · exact ⟨x, hx, hxurl⟩
  | slot c j p =>
    obtain ⟨x, hx, hxurl, hfit⟩ := h
    rw [Pc.Placed, getElem?_set_of_some hk]
    split
    next hjk =>
      subst hjk
      cases hk.symm.trans hx
      exact ⟨m', rfl, hurl.trans hxurl, hfits c p rfl hfit⟩
    · exact ⟨x, hx, hxurl, hfit⟩
  | _ => trivial

theorem placed_update (hp : p.Placed slots) (h : ∀ t', t' ≠ t → (s.pc t').Placed slots) (t' : Nat) :
    (update s.pc t p t').Placed slots := by
  by_cases htt : t' = t
  · rw [htt, update_self]
    exact hp
  · rw [update_of_ne htt]
    exact h t' htt

/-- A thread that is not at a slot moves; it may take or free the lock of the list. -/
theorem Inv.elsewhere {lock : Option Nat} (h : Inv s) (hpc : (s.pc t).slotPc = none)
    (hp : p.slotPc = none ∨ p.slotPc = some .entered)
    (hlock : Owns Pc.InSlots (update s.pc t p) lock) (hplaced : p.Placed s.table.slots) :
    Inv { table := { s.table with lock := lock }, pc := update s.pc t p } where
  table := ⟨h.table.urls, h.table.next, h.table.head⟩
  lock := hlock
  mutex k m hk :=
    (h.mutex k m hk).move
      (iff_of_false (not_inMutex_of_entered hp) (not_inMutex_of_entered (.inl hpc)))
  placed := placed_update hplaced fun t' _ => h.placed t'

/-- A walk stays on the list, and under the lock it has passed slots of other URLs only. -/
theorem Inv.walk {found : Pc} {on : Nat → Pc} (h : Inv s)
    (hwalk : s.table.walk c.url k found on = some p) : ∃ m, s.table.slots[k]? = some m ∧
      (m.baseUrl = c.url ∧ p = found ∨ m.baseUrl ≠ c.url ∧ p = on k) := by
  unfold Table.walk at hwalk
  split at hwalk
  · cases hwalk
  next m hk =>
    cases hwalk
    refine ⟨m, hk, ?_⟩
    by_cases hurl : m.baseUrl = c.url
    · exact .inl ⟨hurl, if_pos hurl⟩
    · exact .inr ⟨hurl, by rw [if_neg hurl, h.table.next k m hk]⟩

/-- A thread that has walked the list under the lock makes a slot. -/
theorem Inv.push (h : Inv s) (hpc : s.pc t = .walkLocked c 0) :
    Inv { table := s.table.push c.url, pc := update s.pc t (.unlockSlots c
      s.table.slots.length) } := by
  have hplaced := h.placed t
  rw [hpc] at hplaced
  have hnew : ∀ (k : Nat) m, s.table.slots[k]? = some m → m.baseUrl ≠ c.url :=
    fun k m => hplaced.2 k m (Nat.zero_le k)
  have hmutex : ∀ k, (Pc.unlockSlots c s.table.slots.length).InMutex k ↔ (s.pc t).InMutex k := by
    intro k
    rw [hpc]
    exact Iff.rfl
  refine ⟨h.table.push hnew, h.lock.move ?_, fun k m hk => ?_, placed_update ?_ fun t' htt => ?_⟩
  · rw [hpc]
    exact Iff.rfl
  · simp only [Table.push, getElem?_append] at hk
    split at hk
    · exact (h.mutex k m hk).move (hmutex k)
    next hge =>
      -- the new slot: no thread is at it yet
      obtain ⟨hlt, rfl⟩ := List.getElem?_eq_some_iff.1 hk
      refine Owns.move (fun t₁ => iff_of_false (by simp) fun hin => ?_) (hmutex k)
      have hplaced₁ := h.placed t₁
      cases hpc₁ : s.pc t₁ with
      | slot =>
        rw [hpc₁] at hin hplaced₁
        obtain ⟨m₁, hk₁, -⟩ := hplaced₁
        obtain ⟨hlt₁, -⟩ := List.getElem?_eq_some_iff.1 hk₁
        exact hge (hin.1 ▸ hlt₁)
      | _ =>
        rw [hpc₁] at hin
        exact hin
  · exact ⟨{ next := s.table.head, baseUrl := c.url }, by simp [Table.push], rfl⟩
  · refine (h.placed t').append fun hin => htt (h.lock.unique hin ?_)
    rw [hpc]
    trivial

/-- A thread makes an access to its slot. -/
theorem Inv.access {p : SlotPc} (h : Inv s) (hpc : s.pc t = .slot c k p)
    (hk : s.table.slots[k]? = some m) (hacc : Access setup t m p m' q) :
    Inv { table := { s.table with
      slots := s.table.slots.set k m' }, pc := update s.pc t (.after c k q) } := by
  have hplaced := h.placed t
  rw [hpc] at hplaced
  obtain ⟨m₁, hk₁, hurl, hfits⟩ := hplaced
  cases hk.symm.trans hk₁
  refine ⟨h.table.set hk hacc.baseUrl hacc.next, h.lock.move ?_, fun j x hx => ?_,
    placed_update ?_ fun t' htt => ?_⟩
  · rw [hpc]
    exact iff_of_false not_inSlots_after id
  · rw [getElem?_set_of_some hk] at hx
    split at hx
    next hjk =>
      subst hjk
      cases hx
      have howns := h.mutex j m hk
      have hin : (s.pc t).InMutex j ↔ p.Locked := by
        rw [hpc]
        exact and_iff_right rfl
      obtain ⟨heq, hsame⟩ | ⟨hfree, heq, hlocked⟩ | ⟨heq, hlocked, hout⟩ := hacc.mutex
      · rw [heq]
        exact howns.move (by rw [hin, inMutex_after, hsame])
      · rw [heq]
        rw [hfree] at howns
        exact howns.acquire (inMutex_after.2 hlocked)
      · rw [heq]
        exact howns.release (hin.2 hlocked) fun hafter => hout (inMutex_after.1 hafter)
    next hjk =>
      refine (h.mutex j x hx).move (iff_of_false (not_inMutex_after hjk) ?_)
      rw [hpc]
      exact fun hin => hjk hin.1.symm
  · cases q with
    | inl p' =>
      exact ⟨m', by rw [getElem?_set_of_some hk, if_pos rfl], hacc.baseUrl.trans hurl,
        hacc.fits hfits p' rfl⟩
    | inr => trivial
  · refine (h.placed t').set hk hacc.baseUrl fun c₁ p₁ hpc₁ hfits₁ => ?_
    rw [hacc.reads]
    cases hcounts : p.counts with
    | false => exact hfits₁
    | true =>
      -- the thread that counts has the mutex, so this one has not
      refine hfits₁.mono (fun hlocked => htt ?_) (Nat.le_add_right _ _)
      refine (h.mutex k m hk).unique ?_ ?_
      · rw [hpc₁]
        exact ⟨rfl, hlocked⟩
      · rw [hpc]
        exact ⟨rfl, SlotPc.locked_of_counts hcounts⟩

theorem inv_start : Inv {} where
  table := ⟨nodup_nil, nofun, rfl⟩
  lock t := iff_of_false (by simp) id
  mutex k m hk := by simp at hk
  placed _ := trivial

end Inv

/-! ### A step -/

/-- Whose action it is. -/
def Act.thread : Act → Nat
  | .call t _ | .step t _ => t

/-- What a step can do: a thread that is not at a slot moves, and comes to one to enter it at most;
a thread makes a slot; or a thread makes an access to its slot. -/
inductive Move (setup : Setup) (s : State) : Act → State → Prop
  | elsewhere {a : Act} {p : Pc} {lock : Option Nat} (hpc : (s.pc a.thread).slotPc = none)
      (hp : p.slotPc = none ∨ p.slotPc = some .entered) :
      Move setup s a { table := { s.table with lock := lock }, pc := update s.pc a.thread p }
  | push {t : Nat} {out : Outside} {c : Call} (hpc : s.pc t = .walkLocked c 0)
      (hnew : ∀ (k : Nat) m, s.table.slots[k]? = some m → m.baseUrl ≠ c.url) :
      Move setup s (.step t out)
        { table := s.table.push c.url, pc := update s.pc t (.unlockSlots c s.table.slots.length) }
  | access {t k : Nat} {out : Outside} {c : Call} {p : SlotPc} {m m' : Slot} {q : SlotPc ⊕ Answer}
      (hpc : s.pc t = .slot c k p) (hk : s.table.slots[k]? = some m) (hurl : m.baseUrl = c.url)
      (hfits : p.Fits m.reads) (hacc : Access setup t m p m' q) :
      Move setup s (.step t out)
        { table := { s.table with
          slots := s.table.slots.set k m' }, pc := update s.pc t (.after c k q) }

structure Inv.Kept (setup : Setup) (s : State) (a : Act) (s' : State) : Prop where
  inv : Inv s'
  move : Move setup s a s'

section Step

variable {setup : Setup} {s s' : State} {a : Act} {u : String}

section Move

variable {t : Nat} {out : Outside} {table : Table} {c : Call} {addr : Nat} {p p₀ : Pc}
  {lock : Option Nat}

/-- A thread that is not at a slot moves. -/
theorem Inv.aside (hinv : Inv s) (hpc : s.pc t = p₀) (hnone : p₀.slotPc = none)
    (hp : p.slotPc = none ∨ p.slotPc = some .entered)
    (hlock : Owns Pc.InSlots (update s.pc t p) lock) (hplaced : p.Placed s.table.slots) :
    Kept setup s (.step t out)
      { table := { s.table with lock := lock }, pc := update s.pc t p } := by
  subst hpc
  exact ⟨hinv.elsewhere hnone hp hlock hplaced, .elsewhere hnone hp⟩

/-- It does not take the lock of the list or give it back. -/
theorem Inv.along (hinv : Inv s) (hpc : s.pc t = p₀) (hnone : p₀.slotPc = none)
    (hp : p.slotPc = none ∨ p.slotPc = some .entered) (hslots : p.InSlots ↔ p₀.InSlots)
    (hplaced : p.Placed s.table.slots) :
    Kept setup s (.step t out) { s with pc := update s.pc t p } := by
  subst hpc
  exact hinv.aside rfl hnone hp (hinv.lock.move hslots) hplaced

theorem Inv.move_walk (hinv : Inv s) (hpc : s.pc t = .walk c addr)
    (hplaced : addr ≤ s.table.slots.length)
    (hmove : move setup t out s.table (.walk c addr) = some (table, p)) :
    Kept setup s (.step t out) { table := table, pc := update s.pc t p } := by
  cases addr with
  | zero =>
    cases hmove
    exact hinv.along hpc rfl (.inl rfl) Iff.rfl trivial
  | succ =>
    obtain ⟨p', hwalk, heq⟩ := Option.map_eq_some_iff.1 hmove
    cases heq
    obtain ⟨m, hk, ⟨hurl, rfl⟩ | ⟨-, rfl⟩⟩ := hinv.walk hwalk
    · exact hinv.along hpc rfl (.inr rfl) Iff.rfl ⟨m, hk, hurl, trivial⟩
    · exact hinv.along hpc rfl (.inl rfl) Iff.rfl (Nat.le_of_succ_le hplaced)

theorem Inv.move_walkLocked (hinv : Inv s) (hpc : s.pc t = .walkLocked c addr)
    (hplaced : (Pc.walkLocked c addr).Placed s.table.slots)
    (hmove : move setup t out s.table (.walkLocked c addr) = some (table, p)) :
    Kept setup s (.step t out) { table := table, pc := update s.pc t p } := by
  cases addr with
  | zero =>
    cases hmove
    exact ⟨hinv.push hpc, .push hpc fun k m => hplaced.2 k m (Nat.zero_le k)⟩
  | succ =>
    obtain ⟨p', hwalk, heq⟩ := Option.map_eq_some_iff.1 hmove
    cases heq
    obtain ⟨m, hk, ⟨hurl, rfl⟩ | ⟨hurl, rfl⟩⟩ := hinv.walk hwalk
    · exact hinv.along hpc rfl (.inl rfl) Iff.rfl ⟨m, hk, hurl⟩
    · -- the slot passed is of another URL, as are those passed before it
      refine hinv.along hpc rfl (.inl rfl) Iff.rfl ⟨Nat.le_of_succ_le hplaced.1,
        fun j x hle hx => ?_⟩
      rcases eq_or_lt_of_le hle with rfl | hlt
      · cases hk.symm.trans hx
        exact hurl
      · exact hplaced.2 j x hlt hx

/-- Every move of a thread keeps the invariant. -/
theorem Inv.move (hinv : Inv s) (hmove : move setup t out s.table (s.pc t) = some (table, p)) :
    Kept setup s (.step t out) { table := table, pc := update s.pc t p } := by
  have hplaced := hinv.placed t
  have hlock := hinv.lock
  generalize hpc : s.pc t = p₀ at hmove hplaced
  cases p₀ with
  | idle | returned => cases hmove
  | start c =>
    simp only [ModelCatalog.move] at hmove
    split at hmove <;> cases hmove
    · exact hinv.along hpc rfl (.inl rfl) Iff.rfl trivial
    · exact hinv.along hpc rfl (.inl rfl) Iff.rfl (le_of_eq hinv.table.head)
  | walk c addr => exact hinv.move_walk hpc hplaced hmove
  | lockSlots c =>
    simp only [ModelCatalog.move] at hmove
    split at hmove <;> cases hmove
    rename_i hfree
    rw [hfree] at hlock
    exact hinv.aside hpc rfl (.inl rfl) (hlock.acquire trivial) trivial
  | loadHead c =>
    cases hmove
    refine hinv.along hpc rfl (.inl rfl) Iff.rfl ⟨le_of_eq hinv.table.head, fun k m hle hk => ?_⟩
    obtain ⟨hlt, -⟩ := List.getElem?_eq_some_iff.1 hk
    rw [hinv.table.head] at hle
    exact absurd hlt (not_lt.2 hle)
  | walkLocked c addr => exact hinv.move_walkLocked hpc hplaced hmove
  | unlockSlots c k =>
    cases hmove
    obtain ⟨m, hk, hurl⟩ := hplaced
    refine hinv.aside hpc rfl (.inr rfl) (hlock.release ?_ id) ⟨m, hk, hurl, trivial⟩
    rw [hpc]
    trivial
  | slot c k p₁ =>
    obtain ⟨m, hk, hurl, hfits⟩ := hplaced
    simp only [ModelCatalog.move, hk] at hmove
    split at hmove <;> cases hmove
    have hacc := slotStep_access ‹_›
    exact ⟨hinv.access hpc hk hacc, .access hpc hk hurl hfits hacc⟩

end Move

/-- **What a step does.** -/
theorem Inv.step (hinv : Inv s) (h : step setup s a = some s') : Kept setup s a s' := by
  cases a with
  | call t c =>
    simp only [ModelCatalog.step] at h
    have hcall : (s.pc t).slotPc = none → ¬ (s.pc t).InSlots →
        Kept setup s (.call t c) { s with pc := update s.pc t (.start c) } :=
      fun hpc hslots =>
        ⟨hinv.elsewhere hpc (.inl rfl) (hinv.lock.move (iff_of_false id hslots)) trivial,
          .elsewhere hpc (.inl rfl)⟩
    generalize s.pc t = p₀ at h hcall
    cases p₀ with
    | idle | returned =>
      cases h
      exact hcall rfl id
    | _ => cases h
  | step t out =>
    simp only [ModelCatalog.step] at h
    split at h <;> cases h
    exact hinv.move ‹_›

end Step

end Agnosai.ModelCatalog
