import Agnosai.Server.Ssrf.Definitions
import Mathlib.Algebra.Group.Nat.Defs

/-!
# Server — Ssrf — Addresses

What the parsers of `server/ssrf.cyr` take, and what the range checks mean. An IPv6 literal is
eight segments written as groups between colons, or fewer with one `::` for the zeros left out; a
group is up to four hex digits, and the last may be an IPv4 address (`Ipv6Literal`). The checks on
an address are stated as the blocks of addresses they refuse.
-/

namespace Agnosai.Ssrf

open Ipv6State List Option

/-! ### IPv6 literals -/

/-- Groups between colons, and their segments. -/
inductive Groups : Bytes → List Nat → Prop where
  | last {g : Bytes} {segs : List Nat} (hne : g ≠ []) (hcolon : 58 ∉ g)
      (h : readGroup g true = some segs) : Groups g segs
  | cons {g rest : Bytes} {segs segs' : List Nat} (hne : g ≠ []) (hcolon : 58 ∉ g)
      (h : readGroup g false = some segs) (t : Groups rest segs') :
      Groups (g ++ 58 :: rest) (segs ++ segs')

/-- Groups, or nothing. -/
def MaybeGroups (text : Bytes) (segs : List Nat) : Prop := text = [] ∧ segs = [] ∨ Groups text segs

/-- Groups between colons before `::`, and what comes after it. -/
inductive BeforeDouble (back : Bytes) : Bytes → List Nat → Prop where
  | last {g : Bytes} {segs : List Nat} (hne : g ≠ []) (hcolon : 58 ∉ g)
      (h : readGroup g false = some segs) : BeforeDouble back (g ++ 58 :: 58 :: back) segs
  | cons {g rest : Bytes} {segs segs' : List Nat} (hne : g ≠ []) (hcolon : 58 ∉ g)
      (h : readGroup g false = some segs) (t : BeforeDouble back rest segs') :
      BeforeDouble back (g ++ 58 :: rest) (segs ++ segs')

/-- `front`, as many zeros as make eight, and `back`. -/
def zeroFill (front back : List Nat) : List Nat :=
  front ++ replicate (8 - (front.length + back.length)) 0 ++ back

/-- An IPv6 literal and its eight segments. -/
inductive Ipv6Literal : Bytes → List Nat → Prop where
  | full {text : Bytes} {segs : List Nat} (h : Groups text segs) (hlen : segs.length = 8) :
      Ipv6Literal text segs
  | leading {text : Bytes} {segs : List Nat} (h : MaybeGroups text segs) (hlen : segs.length ≤ 7) :
      Ipv6Literal (58 :: 58 :: text) (zeroFill [] segs)
  | inner {text back : Bytes} {front segs : List Nat} (hf : BeforeDouble back text front)
      (hb : MaybeGroups back segs) (hlen : front.length + segs.length ≤ 7) :
      Ipv6Literal text (zeroFill front segs)

variable {segs : List Nat} {st st' : Ipv6State} {text g host back : Bytes} {last : Bool}
  {addr value : Nat}

section Parser

/-- The state after these segments were pushed. -/
def Ipv6State.put (st : Ipv6State) (segs : List Nat) (rest : Bytes) : Ipv6State :=
  if st.seenDouble then { st with tail := st.tail ++ segs, rest }
    else { st with head := st.head ++ segs, rest }

/-- There is room for so many segments more. -/
def Ipv6State.Room (st : Ipv6State) (n : Nat) : Prop :=
  (if st.seenDouble then st.tail.length else st.head.length) + n ≤ 8

theorem Ipv6State.push_eq_some :
    st.push segs = some st' ↔ st.Room segs.length ∧ st' = st.put segs st.rest := by
  unfold push Room put
  cases st.seenDouble <;> simp [eq_comm]

theorem takeWhile_group (after : Bytes) (hcolon : 58 ∉ g) (hafter : ∀ c ∈ after.head?, c = 58) :
    (g ++ after).takeWhile (· ≠ 58) = g ∧ (g ++ after).dropWhile (· ≠ 58) = after := by
  have hg : ∀ c ∈ g, decide (c ≠ 58) = true :=
    fun c hc => decide_eq_true fun heq => hcolon (heq ▸ hc)
  rw [takeWhile_append_of_pos hg, dropWhile_append_of_pos hg]
  obtain _ | ⟨c, after⟩ := after
  · simp
  · simp [hafter c rfl]

theorem Ipv6State.put_rest (rest rest' : Bytes) :
    { st.put segs rest with rest := rest' } = st.put segs rest' := by
  unfold put
  cases st.seenDouble <;> rfl

theorem Ipv6State.room_put {rest : Bytes} {n : Nat} :
    (st.put segs rest).Room n ↔ st.Room (segs.length + n) := by
  unfold put Room
  cases st.seenDouble <;> simp [add_assoc]

theorem Ipv6State.put_put (segs' : List Nat) (rest rest' : Bytes) :
    (st.put segs rest).put segs' rest' = st.put (segs ++ segs') rest' := by
  unfold put
  cases st.seenDouble <;> simp

theorem Ipv6State.Room.mono {m n : Nat} (h : st.Room n) (hle : m ≤ n) : st.Room m :=
  (Nat.add_le_add_left hle _).trans h

theorem bind_push_eq_some : (readGroup g last).bind st.push = some st' ↔
      ∃ segs, readGroup g last = some segs ∧ st.Room segs.length ∧ st' = st.put segs st.rest := by
  simp only [bind_eq_some_iff, push_eq_some]

/-- A round at the last group. -/
theorem ipv6Step_last (hne : st.rest ≠ []) (hcolon : 58 ∉ st.rest)
    (hread : readGroup st.rest true = some segs) (hroom : st.Room segs.length) :
    ipv6Step st = .inl (st.put segs []) := by
  have hpush := bind_push_eq_some.2 ⟨segs, hread, hroom, rfl⟩
  obtain ⟨htake, hdrop⟩ := takeWhile_group [] hcolon (by simp)
  rw [append_nil] at htake hdrop
  unfold ipv6Step
  split
  · exact absurd ‹_› hne
  next heq =>
    exact absurd (heq ▸ mem_cons_self) hcolon
  · simp only [htake, hdrop, isEmpty_nil, hpush, put_rest]

/-- A round at a group with more after it. -/
theorem ipv6Step_more {rest : Bytes} (hne : g ≠ [])
    (hcolon : 58 ∉ g) (hrest : st.rest = g ++ 58 :: rest) (hmore : rest ≠ [])
    (hread : readGroup g false = some segs) (hroom : st.Room segs.length) :
    ipv6Step st = .inl (st.put segs rest) := by
  have hpush := bind_push_eq_some.2 ⟨segs, hread, hroom, rfl⟩
  obtain ⟨htake, hdrop⟩ := takeWhile_group (58 :: rest) hcolon (by simp)
  rw [← hrest] at htake hdrop
  obtain ⟨c, rest, rfl⟩ := exists_cons_of_ne_nil hmore
  unfold ipv6Step
  split
  next heq =>
    rw [hrest] at heq
    exact absurd heq (append_ne_nil_of_left_ne_nil hne _)
  next heq =>
    rw [heq] at htake
    exact absurd (by simpa using htake.symm) hne
  · simp only [htake, hdrop, isEmpty_cons, hpush, put_rest]

/-- What a round that goes on has read. -/
theorem ipv6Step_eq_inl (h : ipv6Step st = .inl st') :
    (∃ rest, st.rest = 58 :: rest ∧ st.seenDouble = false ∧
      st' = { st with seenDouble := true, rest }) ∨
    (∃ segs, st.rest ≠ [] ∧ 58 ∉ st.rest ∧ readGroup st.rest true = some segs ∧
      st' = st.put segs []) ∨
    ∃ g rest segs, st.rest = g ++ 58 :: rest ∧ g ≠ [] ∧ 58 ∉ g ∧ rest ≠ [] ∧
      readGroup g false = some segs ∧ st' = st.put segs rest := by
  unfold ipv6Step at h
  split at h
  · cases h
  next rest hrest =>
    split at h
    · cases h
    next hseen =>
      cases h
      exact .inl ⟨rest, hrest, by simpa using hseen, rfl⟩
  next hne hfirst =>
    have hsplit : st.rest.takeWhile (· ≠ 58) ++ st.rest.dropWhile (· ≠ 58) = st.rest :=
      takeWhile_append_dropWhile
    have hcolon : 58 ∉ st.rest.takeWhile (· ≠ 58) := fun hmem => by
      simpa using mem_takeWhile_imp hmem
    simp only at h
    split at h
    · cases h
    next hpush =>
      obtain ⟨segs, hread, -, rfl⟩ := bind_push_eq_some.1 hpush
      split at h
      next hafter =>
        cases h
        rw [hafter, append_nil] at hsplit
        rw [hsplit] at hcolon hread
        rw [hafter] at hread
        exact .inr (.inl ⟨segs, hne, hcolon, hread, put_rest _ _⟩)
      · cases h
      next c rest hmore hafter =>
        cases h
        obtain rfl : c = 58 := by
          have hhead := head?_dropWhile_not (fun c : UInt8 => c ≠ 58) st.rest
          rw [hafter] at hhead
          simpa using hhead
        rw [hafter] at hsplit hread
        refine .inr (.inr ⟨_, rest, segs, hsplit.symm, fun hnil => ?_, hcolon, hmore, hread,
          put_rest _ _⟩)
        rw [hnil, nil_append] at hsplit
        exact hfirst rest hsplit.symm

theorem ipv6Step_eq_inr {r : Ipv6State} (h : ipv6Step st = .inr (some r)) :
    st.rest = [] ∧ r = st := by
  unfold ipv6Step at h
  split at h
  next hrest =>
    cases h
    exact ⟨hrest, rfl⟩
  · split at h <;> cases h
  · simp only at h
    split at h
    · cases h
    · split at h <;> cases h

theorem ipv6Loop_nil (h : st.rest = []) : ipv6Loop.run st = some st := by
  refine ipv6Loop.run_of_inr ?_
  show ipv6Step st = _
  unfold ipv6Step
  split
  · rfl
  next heq =>
    rw [h] at heq
    cases heq
  · exact absurd h ‹_›

/-! ### Every literal is taken -/

theorem Groups.ne_nil (h : Groups text segs) : text ≠ [] := by
  cases h with
  | last hne => exact hne
  | cons hne => exact append_ne_nil_of_left_ne_nil hne _

theorem BeforeDouble.ne_nil (h : BeforeDouble back text segs) : text ≠ [] := by
  cases h with
  | last hne | cons hne => exact append_ne_nil_of_left_ne_nil hne _

theorem Ipv6State.put_rest_eq (rest : Bytes) : (st.put segs rest).rest = rest := by
  unfold put
  cases st.seenDouble <;> rfl

theorem Ipv6State.put_seenDouble (rest : Bytes) :
    (st.put segs rest).seenDouble = st.seenDouble := by
  unfold put
  split <;> rfl

/-- The loop reads groups to the end. -/
theorem Groups.run (h : Groups text segs) (hrest : st.rest = text) (hroom : st.Room segs.length) :
    ipv6Loop.run st = some (st.put segs []) := by
  induction h generalizing st with
  | last hne hcolon hread =>
    subst hrest
    rw [ipv6Loop.run_of_inl (ipv6Step_last hne hcolon hread hroom)]
    exact ipv6Loop_nil (put_rest_eq _)
  | cons hne hcolon hread ht ih =>
    rw [length_append] at hroom
    rw [ipv6Loop.run_of_inl (ipv6Step_more hne hcolon hrest ht.ne_nil hread
        (hroom.mono (Nat.le_add_right _ _))),
      ih (put_rest_eq _) (room_put.2 hroom), put_put]

theorem Ipv6State.put_nil (h : st.rest = []) : st.put [] [] = st := by
  obtain ⟨rest, head, tail, seen⟩ := st
  cases h
  cases seen <;> simp [put]

theorem MaybeGroups.run (h : MaybeGroups text segs)
    (hrest : st.rest = text) (hroom : st.Room segs.length) :
    ipv6Loop.run st = some (st.put segs []) := by
  obtain ⟨rfl, rfl⟩ | hgroups := h
  · rw [ipv6Loop_nil hrest, put_nil hrest]
  · exact hgroups.run hrest hroom

/-- The loop reads up to the double colon. -/
theorem BeforeDouble.run (h : BeforeDouble back text segs)
    (hrest : st.rest = text) (hseen : st.seenDouble = false)
    (hroom : st.Room segs.length) :
    ipv6Loop.run st = ipv6Loop.run { st.put segs back with seenDouble := true } := by
  induction h generalizing st with
  | @last g segs hne hcolon hread =>
    rw [ipv6Loop.run_of_inl (ipv6Step_more hne hcolon hrest (cons_ne_nil _ _) hread hroom)]
    refine ipv6Loop.run_of_inl ?_
    show ipv6Step (st.put segs (58 :: back)) = _
    rw [← put_rest (58 :: back) back]
    unfold ipv6Step
    rw [put_rest_eq]
    simp [put_seenDouble, hseen]
  | cons hne hcolon hread ht ih =>
    rw [length_append] at hroom
    rw [ipv6Loop.run_of_inl (ipv6Step_more hne hcolon hrest ht.ne_nil hread
        (hroom.mono (Nat.le_add_right _ _))),
      ih (put_rest_eq _) ((put_seenDouble _).trans hseen) (room_put.2 hroom), put_put]

/-! ### Nothing else is taken -/

/-- What the loop has read when it ends: groups alone, or groups, a double colon and groups. -/
theorem literal_of_run {r : Ipv6State} (h : ipv6Loop.run st = some r) :
    (∃ segs, MaybeGroups st.rest segs ∧ r = st.put segs []) ∨
    st.seenDouble = false ∧ ∃ front back segs,
      (st.rest = 58 :: back ∧ front = [] ∨ BeforeDouble back st.rest front) ∧
      MaybeGroups back segs ∧ r = { st.put front back with seenDouble := true }.put segs [] := by
  induction hlen : st.rest.length using Nat.strongRecOn generalizing st with
  | ind len ih =>
    cases hstep : ipv6Step st with
    | inr =>
      rw [ipv6Loop.run_of_inr hstep] at h
      subst h
      obtain ⟨hrest, rfl⟩ := ipv6Step_eq_inr hstep
      exact .inl ⟨[], .inl ⟨hrest, rfl⟩, (put_nil hrest).symm⟩
    | inl =>
      rw [ipv6Loop.run_of_inl hstep] at h
      have hread := ih _ (hlen ▸ ipv6Step_rest hstep) h rfl
      obtain ⟨rest, hrest, hseen, rfl⟩ | ⟨segs, hne, hcolon, hlast, rfl⟩ |
        ⟨g, rest, segs, hrest, hne, hcolon, hmore, hgroup, rfl⟩ := ipv6Step_eq_inl hstep
      · -- there is no second double colon
        obtain ⟨segs, hgroups, rfl⟩ := hread.resolve_right fun hagain => nomatch hagain.1
        refine .inr ⟨hseen, [], rest, segs, .inl ⟨hrest, rfl⟩, hgroups, ?_⟩
        simp [put, hseen]
      · rw [ipv6Loop_nil (put_rest_eq _)] at h
        cases h
        exact .inl ⟨segs, .inr (.last hne hcolon hlast), rfl⟩
      · rw [put_rest_eq, put_seenDouble] at hread
        obtain ⟨segs', hgroups, rfl⟩ | ⟨hseen, front, back, segs', hfront, hgroups, rfl⟩ := hread
        · have hrest' := hgroups.resolve_left fun hnil => hmore hnil.1
          exact .inl ⟨segs ++ segs', .inr (hrest ▸ .cons hne hcolon hgroup hrest'), put_put _ _ _⟩
        · refine .inr ⟨hseen, segs ++ front, back, segs', .inr ?_, hgroups, by rw [put_put]⟩
          obtain ⟨rfl, rfl⟩ | hbefore := hfront
          · rw [hrest, append_nil]
            exact .last hne hcolon hgroup
          · exact hrest ▸ .cons hne hcolon hgroup hbefore

theorem parseIpv6_double (rest : Bytes) :
    parseIpv6 (58 :: 58 :: rest) =
      (ipv6Loop.run { rest, seenDouble := true }).bind segments := by
  simp [parseIpv6]

/-- A host that begins with a group. -/
theorem parseIpv6_group (hlen : 2 ≤ host.length) (hfirst : host.head? ≠ some 58) :
    parseIpv6 host = (ipv6Loop.run { rest := host }).bind segments := by
  unfold parseIpv6
  split
  · simp at hlen
  · simp at hlen
  · exact absurd rfl hfirst
  · rfl

theorem head?_group (hne : g ≠ []) (hcolon : 58 ∉ g) (rest : Bytes) :
    (g ++ rest).head? ≠ some 58 := by
  obtain ⟨c, g, rfl⟩ := exists_cons_of_ne_nil hne
  intro h
  cases h
  exact hcolon mem_cons_self

/-- A group is two segments of an IPv4 address, or one of up to four digits. -/
theorem readGroup_cases (h : readGroup g last = some segs) :
    (∃ v4, segs = [v4 >>> 16 &&& 65535, v4 &&& 65535]) ∨
      ∃ seg, readHex g = some seg ∧ g.length ≤ 4 ∧ segs = [seg] := by
  unfold readGroup at h
  split at h
  · rw [ite_none_right_eq_some, map_eq_some_iff] at h
    obtain ⟨-, v4, -, rfl⟩ := h
    exact .inl ⟨v4, rfl⟩
  · rw [ite_none_left_eq_some, map_eq_some_iff] at h
    obtain ⟨hlen, seg, hread, rfl⟩ := h
    exact .inr ⟨seg, hread, not_lt.1 hlen, rfl⟩

theorem readGroup_length (h : readGroup g last = some segs) : segs.length ≤ 2 := by
  obtain ⟨v4, rfl⟩ | ⟨seg, -, -, rfl⟩ := readGroup_cases h <;> simp

/-- Eight segments take more than one byte. -/
theorem Groups.two_le (h : Groups text segs) (hlen : segs.length = 8) : 2 ≤ text.length := by
  cases h with
  | @last g segs hne _ hread =>
    have := readGroup_length hread
    omega
  | cons hne =>
    have := length_pos_of_ne_nil hne
    rw [length_append, length_cons]
    omega

theorem Groups.head? (h : Groups text segs) : text.head? ≠ some 58 := by
  cases h with
  | last hne hcolon =>
    have := head?_group hne hcolon []
    rwa [append_nil] at this
  | cons hne hcolon => exact head?_group hne hcolon _

theorem BeforeDouble.shape (h : BeforeDouble back text segs) :
    2 ≤ text.length ∧ text.head? ≠ some 58 := by
  cases h with
  | last hne hcolon | cons hne hcolon =>
    have := length_pos_of_ne_nil hne
    refine ⟨?_, head?_group hne hcolon _⟩
    rw [length_append, length_cons]
    omega

theorem segments_double (hseen : st.seenDouble = true) : st.segments = some segs ↔
      st.head.length + st.tail.length ≤ 7 ∧ segs = zeroFill st.head st.tail := by
  rw [segments, if_pos hseen, ite_none_left_eq_some, not_lt, some.injEq, eq_comm, zeroFill]

theorem segments_single (hseen : st.seenDouble = false) :
    st.segments = some segs ↔ segs.length = 8 ∧ segs = st.head := by
  rw [segments, if_neg (by simp [hseen]), ite_none_right_eq_some, some.injEq]
  exact ⟨fun h => ⟨h.2 ▸ h.1, h.2.symm⟩, fun h => ⟨h.2 ▸ h.1, h.2.symm⟩⟩

/-- **The parser takes the IPv6 literals, and no other text.** -/
theorem parseIpv6_iff : parseIpv6 host = some segs ↔ Ipv6Literal host segs := by
  constructor
  · intro h
    have hbind : ∀ {st : Ipv6State}, (ipv6Loop.run st).bind segments = some segs →
        ∃ r, ipv6Loop.run st = some r ∧ r.segments = some segs := fun h => bind_eq_some_iff.1 h
    unfold parseIpv6 at h
    split at h
    · cases h
    · cases h
    · split at h
      next hc =>
        subst hc
        obtain ⟨r, hrun, hsegs⟩ := hbind h
        obtain ⟨segs', hgroups, rfl⟩ := (literal_of_run hrun).resolve_right fun hagain =>
            nomatch hagain.1
        obtain ⟨hlen, rfl⟩ := (segments_double rfl).1 hsegs
        exact .leading hgroups (by simpa [put] using hlen)
      · cases h
    next hnil hone hfirst =>
      obtain ⟨r, hrun, hsegs⟩ := hbind h
      obtain ⟨segs', hgroups, rfl⟩ | ⟨-, front, back, segs', hfront, hgroups, rfl⟩ :=
        literal_of_run hrun
      · obtain ⟨hlen, rfl⟩ := (segments_single rfl).1 hsegs
        exact .full (hgroups.resolve_left fun h => hnil h.1) hlen
      · obtain ⟨hlen, rfl⟩ := (segments_double rfl).1 hsegs
        obtain ⟨hcolon, -⟩ | hbefore := hfront
        · obtain _ | ⟨c, back⟩ := back
          · exact absurd hcolon (hone 58)
          · exact absurd hcolon (hfirst c back)
        · exact .inner hbefore hgroups hlen
  · intro h
    cases h with
    | full hgroups hlen =>
      rw [parseIpv6_group (hgroups.two_le hlen) hgroups.head?,
        hgroups.run rfl (by rw [hlen]; exact le_rfl)]
      exact (segments_single rfl).2 ⟨hlen, rfl⟩
    | @leading text segs hgroups hlen =>
      have hroom : Ipv6State.Room { rest := text, seenDouble := true } segs.length :=
        (zero_add _).trans_le (hlen.trans (Nat.le_succ 7))
      rw [parseIpv6_double, hgroups.run rfl hroom]
      exact (segments_double rfl).2 ⟨by simpa [put] using hlen, rfl⟩
    | inner hbefore hgroups hlen =>
      obtain ⟨htwo, hfirst⟩ := hbefore.shape
      rw [parseIpv6_group htwo hfirst, hbefore.run rfl rfl, hgroups.run rfl]
      · exact (segments_double rfl).2 ⟨hlen, rfl⟩
      · simp only [Ipv6State.Room, put, Bool.false_eq_true, if_true, if_false, length_nil]
        omega
      · simp only [Ipv6State.Room, Bool.false_eq_true, if_false, length_nil]
        omega

end Parser

/-! ### Segments -/

theorem hexVal_lt {c : UInt8} {d : Nat} (h : hexVal c = some d) : d < 16 := by
  unfold hexVal at h
  split at h
  next hc =>
    cases h
    have : c.toNat ≤ 57 := hc.2
    omega
  · split at h
    next hc =>
      cases h
      have : c.toNat ≤ 102 := hc.2
      omega
    · split at h
      next hc =>
        cases h
        have : c.toNat ≤ 70 := hc.2
        omega
      · cases h

/-- A group is bounded by its digits. -/
theorem readHex_lt {seg : Nat} (h : readHex g = some seg) : seg < 16 ^ g.length := by
  suffices hfold : ∀ (g : Bytes) (v k : Nat), v < 16 ^ k →
      g.foldlM (fun seg c => (hexVal c).map fun hv => seg * 16 + hv) v = some seg →
        seg < 16 ^ (k + g.length) by
    simpa using hfold g 0 0 (by decide) h
  intro g
  induction g with
  | nil =>
    intro v k hv h
    cases h
    exact hv
  | cons c g ih =>
    intro v k hv h
    obtain ⟨v', hv', hrest⟩ := bind_eq_some_iff.1 h
    obtain ⟨d, hd, rfl⟩ := map_eq_some_iff.1 hv'
    have hlt := hexVal_lt hd
    have hstep : v * 16 + d < 16 ^ (k + 1) := by
      omega
    rw [length_cons, ← Nat.add_assoc, Nat.add_right_comm]
    exact ih _ (k + 1) hstep hrest

theorem readGroup_lt (h : readGroup g last = some segs) : ∀ seg ∈ segs, seg < 65536 := by
  obtain ⟨v4, rfl⟩ | ⟨seg, hread, hlen, rfl⟩ := readGroup_cases h
  · have hand : ∀ n : Nat, n &&& 65535 < 65536 := fun n => Nat.lt_succ_of_le Nat.and_le_right
    simp [hand]
  · have hlt := readHex_lt hread
    have hpow : 16 ^ g.length ≤ 16 ^ 4 := Nat.pow_le_pow_right (by decide) hlen
    simp only [mem_singleton, forall_eq]
    omega

theorem Groups.segs_lt (h : Groups text segs) : ∀ seg ∈ segs, seg < 65536 := by
  induction h with
  | last _ _ hread => exact readGroup_lt hread
  | cons _ _ hread _ ih =>
    exact fun seg hseg => (mem_append.1 hseg).elim (readGroup_lt hread seg) (ih seg)

theorem MaybeGroups.segs_lt (h : MaybeGroups text segs) : ∀ seg ∈ segs, seg < 65536 := by
  obtain ⟨-, rfl⟩ | hgroups := h
  · exact nofun
  · exact hgroups.segs_lt

theorem BeforeDouble.segs_lt (h : BeforeDouble back text segs) : ∀ seg ∈ segs, seg < 65536 := by
  induction h with
  | last _ _ hread => exact readGroup_lt hread
  | cons _ _ hread _ ih =>
    exact fun seg hseg => (mem_append.1 hseg).elim (readGroup_lt hread seg) (ih seg)

theorem zeroFill_lt {front back : List Nat} (hf : ∀ seg ∈ front, seg < 65536)
    (hb : ∀ seg ∈ back, seg < 65536) : ∀ seg ∈ zeroFill front back, seg < 65536 := by
  intro seg hseg
  simp only [zeroFill, mem_append, mem_replicate] at hseg
  obtain (hseg | ⟨-, rfl⟩) | hseg := hseg
  · exact hf seg hseg
  · decide
  · exact hb seg hseg

theorem zeroFill_length {front back : List Nat} (h : front.length + back.length ≤ 7) :
    (zeroFill front back).length = 8 := by
  simp only [zeroFill, length_append, length_replicate]
  omega

/-- A literal has eight segments of 16 bits. -/
theorem Ipv6Literal.segs_spec (h : Ipv6Literal host segs) :
    segs.length = 8 ∧ ∀ seg ∈ segs, seg < 65536 := by
  cases h with
  | full hgroups hlen => exact ⟨hlen, hgroups.segs_lt⟩
  | leading hgroups hlen =>
    exact ⟨zeroFill_length (by simpa using hlen), zeroFill_lt (nofun) hgroups.segs_lt⟩
  | inner hbefore hgroups hlen =>
    exact ⟨zeroFill_length hlen, zeroFill_lt hbefore.segs_lt hgroups.segs_lt⟩

/-- A literal has a colon. -/
theorem Ipv6Literal.colon (h : Ipv6Literal host segs) : 58 ∈ host := by
  cases h with
  | full hgroups =>
    cases hgroups with
    | last _ _ hread =>
      have := readGroup_length hread
      omega
    | cons => simp
  | leading => simp
  | inner hbefore => cases hbefore <;> simp

/-! ### Blocks of addresses -/

/-- The addresses that share their first `bits` bits with `base`. -/
structure Block where
  base : Nat
  bits : Nat

def Block.Contains (b : Block) (addr : Nat) : Prop :=
  addr / 2 ^ (32 - b.bits) = b.base / 2 ^ (32 - b.bits)

instance (b : Block) (addr : Nat) : Decidable (b.Contains addr) :=
  inferInstanceAs (Decidable (_ = _))

/-- The address `a.b.c.d`. -/
def quad (a b c d : Nat) : Nat := ((a * 256 + b) * 256 + c) * 256 + d

/-- The private networks, loopback, link-local with the metadata endpoint, and this network. -/
def privateBlocks : List Block :=
  [⟨quad 10 0 0 0, 8⟩, ⟨quad 172 16 0 0, 12⟩, ⟨quad 192 168 0 0, 16⟩, ⟨quad 127 0 0 0, 8⟩,
    ⟨quad 169 254 0 0, 16⟩, ⟨quad 0 0 0 0, 8⟩]

def PrivateV4 (addr : Nat) : Prop := ∃ b ∈ privateBlocks, b.Contains addr

instance (addr : Nat) : Decidable (PrivateV4 addr) := inferInstanceAs (Decidable (∃ _ ∈ _, _))

theorem isPrivateIpv4_iff (h : addr < 2 ^ 32) : isPrivateIpv4 addr = true ↔ PrivateV4 addr := by
  have hand : ∀ n : Nat, n &&& 255 = n % 256 := fun n => Nat.and_two_pow_sub_one_eq_mod n 8
  simp only [isPrivateIpv4, PrivateV4, privateBlocks, Block.Contains, quad, hand,
    Nat.shiftRight_eq_div_pow, mem_cons, not_mem_nil, or_false, exists_eq_or_imp,
    exists_eq_left, Bool.or_eq_true, Bool.and_eq_true, decide_eq_true_eq]
  omega

/-- An IPv6 address that no request may go to. -/
inductive PrivateV6 : List Nat → Prop where
  | unspecified : PrivateV6 [0, 0, 0, 0, 0, 0, 0, 0]
  | loopback : PrivateV6 [0, 0, 0, 0, 0, 0, 0, 1]
  /-- fc00::/7 -/
  | uniqueLocal {first : Nat} {segs : List Nat} (h : 0xfc00 ≤ first ∧ first < 0xfe00) :
      PrivateV6 (first :: segs)
  /-- fe80::/10 -/
  | linkLocal {first : Nat} {segs : List Nat} (h : 0xfe80 ≤ first ∧ first < 0xfec0) :
      PrivateV6 (first :: segs)
  /-- ::ffff:a.b.c.d -/
  | mapped {hi lo : Nat} (h : PrivateV4 (hi * 65536 + lo)) :
      PrivateV6 [0, 0, 0, 0, 0, 0xffff, hi, lo]

/-- A mask over the high bits of a segment. -/
theorem and_shiftLeft_mask (n k w : Nat) :
    n &&& (2 ^ w - 1) <<< k = n / 2 ^ k % 2 ^ w * 2 ^ k := by
  rw [← Nat.and_two_pow_sub_one_eq_mod, ← Nat.shiftRight_eq_div_pow, ← Nat.shiftLeft_eq]
  refine Nat.eq_of_testBit_eq fun i => ?_
  simp only [Nat.testBit_and, Nat.testBit_shiftLeft, Nat.testBit_shiftRight]
  by_cases hi : k ≤ i
  · simp [hi, Nat.add_sub_cancel' hi]
  · simp [hi]

/-- fc00::/7, by its mask. -/
theorem uniqueLocal_mask {a : Nat} (h : a < 65536) :
    a &&& 65024 = 64512 ↔ 0xfc00 ≤ a ∧ a < 0xfe00 := by
  have hmask : a &&& 65024 = a / 2 ^ 9 % 2 ^ 7 * 2 ^ 9 := and_shiftLeft_mask a 9 7
  omega

/-- fe80::/10, by its mask. -/
theorem linkLocal_mask {a : Nat} (h : a < 65536) :
    a &&& 65472 = 65152 ↔ 0xfe80 ≤ a ∧ a < 0xfec0 := by
  have hmask : a &&& 65472 = a / 2 ^ 6 % 2 ^ 10 * 2 ^ 6 := and_shiftLeft_mask a 6 10
  omega

/-- The check refuses just the private ranges. -/
theorem isPrivateIpv6_iff (hlen : segs.length = 8) (hlt : ∀ seg ∈ segs, seg < 65536) :
    isPrivateIpv6 segs = true ↔ PrivateV6 segs := by
  obtain ⟨a, b, c, d, e, f, g, h, rfl⟩ : ∃ a b c d e f g h, segs = [a, b, c, d, e, f, g, h] := by
    match segs, hlen with
    | [a, b, c, d, e, f, g, h], _ => exact ⟨a, b, c, d, e, f, g, h, rfl⟩
  have ha : a < 65536 := hlt a (by simp)
  have hg : g < 65536 := hlt g (by simp)
  have hh : h < 65536 := hlt h (by simp)
  have haddr : g <<< 16 ||| h = g * 65536 + h := by
    rw [← Nat.shiftLeft_add_eq_or_of_lt hh, Nat.shiftLeft_eq]
  have hmapped : isPrivateIpv4 (g <<< 16 ||| h) = true ↔ PrivateV4 (g * 65536 + h) := by
    rw [haddr]
    exact isPrivateIpv4_iff (by omega)
  simp only [isPrivateIpv6, take_succ_cons, take_zero, all_cons, all_nil,
    getD_cons_succ, getD_cons_zero, Bool.and_true, Bool.and_eq_true, decide_eq_true_eq]
  constructor
  · intro hprivate
    split at hprivate
    next hzero =>
      obtain ⟨⟨rfl, rfl, rfl, rfl, rfl, rfl, rfl⟩, rfl | rfl⟩ := hzero
      · exact .loopback
      · exact .unspecified
    · split at hprivate
      next hzero =>
        obtain ⟨⟨rfl, rfl, rfl, rfl, rfl⟩, rfl⟩ := hzero
        exact .mapped (hmapped.1 hprivate)
      · rw [Bool.or_eq_true, decide_eq_true_eq, decide_eq_true_eq, uniqueLocal_mask ha,
          linkLocal_mask ha] at hprivate
        obtain hula | hlocal := hprivate
        · exact .uniqueLocal hula
        · exact .linkLocal hlocal
  · intro hprivate
    cases hprivate with
    | unspecified => rfl
    | loopback => rfl
    | mapped hv4 => simpa using hmapped.2 hv4
    | uniqueLocal hula =>
      have hne : a ≠ 0 := by omega
      simp [hne, uniqueLocal_mask ha, hula]
    | linkLocal hlocal =>
      have hne : a ≠ 0 := by omega
      simp [hne, linkLocal_mask ha, hlocal]

/-! ### Addresses of 32 bits -/

theorem readDigits_lt {base v : Nat} {digits : Bytes} (hv : v < 2 ^ 32)
    (h : readDigits base v digits = some value) : value < 2 ^ 32 := by
  induction digits generalizing v with
  | nil =>
    cases h
    exact hv
  | cons c rest ih =>
    unfold readDigits at h
    split at h
    · cases h
    · rw [ite_none_left_eq_some, ite_none_left_eq_some] at h
      exact ih (by omega) h.2.2

theorem parseIpv4Part_lt {part : Bytes} (h : parseIpv4Part part = some value) : value < 2 ^ 32 := by
  unfold parseIpv4Part at h
  split at h
  · cases h
  · split at h
    · rw [ite_none_left_eq_some] at h
      exact readDigits_lt (by decide) h.2
    · exact readDigits_lt (by decide) h
  · exact readDigits_lt (by decide) h

/-- An octet in its place. -/
theorem octet_lt {n k : Nat} (hn : n < 2 ^ 8) (hk : k ≤ 24) : n <<< k < 2 ^ 32 := by
  rw [Nat.shiftLeft_eq]
  calc n * 2 ^ k < 2 ^ 8 * 2 ^ k := Nat.mul_lt_mul_of_pos_right hn (Nat.two_pow_pos k)
    _ = 2 ^ (k + 8) := by rw [pow_add, mul_comm]
    _ ≤ 2 ^ 32 := Nat.pow_le_pow_right (by decide) (by omega)

theorem packParts_lt {j : Nat} {parts : List Nat} (hparts : ∀ p ∈ parts, p < 2 ^ 32)
    (haddr : addr < 2 ^ 32) (h : packParts j addr parts = some value) : value < 2 ^ 32 := by
  induction parts generalizing j addr with
  | nil => cases h
  | cons p rest ih =>
    obtain _ | ⟨q, rest⟩ := rest
    · rw [packParts, ite_none_right_eq_some] at h
      cases h.2
      exact Nat.or_lt_two_pow haddr (hparts p mem_cons_self)
    · unfold packParts at h
      rw [ite_none_left_eq_some] at h
      refine ih (fun p' hp' => hparts p' (mem_cons_of_mem p hp')) (Nat.or_lt_two_pow haddr ?_) h.2
      exact octet_lt (by omega) (by omega)

theorem mapM_parseIpv4Part_lt {parts : List Bytes} {values : List Nat}
    (h : parts.mapM parseIpv4Part = some values) : ∀ v ∈ values, v < 2 ^ 32 := by
  induction parts generalizing values with
  | nil =>
    cases h
    exact nofun
  | cons part parts ih =>
    rw [mapM_cons] at h
    obtain ⟨value, hvalue, hrest⟩ := bind_eq_some_iff.1 h
    obtain ⟨values', hvalues, heq⟩ := bind_eq_some_iff.1 hrest
    cases heq
    intro v hv
    obtain rfl | hv := mem_cons.1 hv
    · exact parseIpv4Part_lt hvalue
    · exact ih hvalues v hv

theorem parseIpv4Whatwg_lt (h : parseIpv4Whatwg host = some addr) : addr < 2 ^ 32 := by
  unfold parseIpv4Whatwg at h
  split at h
  · cases h
  · simp only at h
    split at h
    · cases h
    · obtain ⟨values, hvalues, hpack⟩ := bind_eq_some_iff.1 h
      exact packParts_lt (mapM_parseIpv4Part_lt hvalues) (by decide) hpack

theorem dialedIpv4_lt {client : Client}
    (h : dialedIpv4 client host = some addr) : addr < 2 ^ 32 := by
  obtain ⟨net, -, rfl⟩ := map_eq_some_iff.1 h
  have hoctet : ∀ n k, k ≤ 24 → (n &&& 255) <<< k < 2 ^ 32 := fun n k =>
    octet_lt (Nat.lt_succ_of_le Nat.and_le_right)
  have hlast := hoctet (net >>> 24) 0 (Nat.zero_le _)
  exact Nat.or_lt_two_pow (Nat.or_lt_two_pow (Nat.or_lt_two_pow (hoctet net 24 le_rfl)
    (hoctet _ 16 (by decide))) (hoctet _ 8 (by decide))) hlast

/-! ### What a group says -/

/-- The hex digits, each in the place that is its value. -/
def hexDigits : Bytes := ascii "0123456789abcdef"

/-- A group of one to four hex digits, in whatever case, and the number they write. -/
def HexGroup (g : Bytes) (seg : Nat) : Prop :=
  g ≠ [] ∧ g.length ≤ 4 ∧ ∃ digits : List Nat,
    digits.map (hexDigits[·]?) = (toAsciiLower g).map some ∧
      digits.foldl (fun n d => n * 16 + d) 0 = seg

/-- The value of a hex digit is its place. -/
theorem hexVal_eq_some {c : UInt8} {d : Nat} :
    hexVal c = some d ↔ (toAsciiLower [c]).map some = [hexDigits[d]?] := by
  have htable : ∀ n < 256, ∀ d < 16, hexVal (UInt8.ofNat n) = some d ↔
      (toAsciiLower [UInt8.ofNat n]).map some = [hexDigits[d]?] := by
    decide +kernel
  by_cases hd : d < 16
  · have hc := htable c.toNat c.toNat_lt d hd
    rwa [UInt8.ofNat_toNat] at hc
  · have hpast : hexDigits[d]? = none := getElem?_eq_none (Nat.not_lt.1 hd)
    refine iff_of_false (fun h => hd (hexVal_lt h)) ?_
    simp [hpast, toAsciiLower]

/-- A group reads as the number it spells. -/
theorem readHex_eq_some {seg : Nat} : readHex g = some seg ↔
    ∃ digits : List Nat, digits.map (hexDigits[·]?) = (toAsciiLower g).map some ∧
      digits.foldl (fun n d => n * 16 + d) 0 = seg := by
  rw [readHex]
  generalize 0 = v
  induction g generalizing v with
  | nil => simp [toAsciiLower]
  | cons c g ih =>
    rw [foldlM_cons, show toAsciiLower (c :: g) = toAsciiLower [c] ++ toAsciiLower g from rfl,
      map_append]
    refine bind_eq_some_iff.trans ⟨?_, ?_⟩
    · rintro ⟨v', hv', hrest⟩
      obtain ⟨d, hd, rfl⟩ := map_eq_some_iff.1 hv'
      obtain ⟨digits, hdigits, hseg⟩ := (ih _).1 hrest
      exact ⟨d :: digits, by rw [map_cons, hdigits, hexVal_eq_some.1 hd]; rfl, hseg⟩
    · rintro ⟨digits, hdigits, hseg⟩
      obtain ⟨d, digits, rfl, hd, hrest⟩ := map_eq_cons_iff.1 hdigits
      have hc : hexVal c = some d := hexVal_eq_some.2 (by rw [hd]; rfl)
      exact ⟨v * 16 + d, by rw [hc]; rfl, (ih _).2 ⟨digits, hrest, hseg⟩⟩

/-- An address of 32 bits as two segments. -/
theorem halves_eq (h : addr < 2 ^ 32) :
    [addr >>> 16 &&& 65535, addr &&& 65535] = [addr / 65536, addr % 65536] := by
  have hmod : ∀ n : Nat, n &&& 65535 = n % 65536 := fun n => Nat.and_two_pow_sub_one_eq_mod n 16
  rw [hmod, hmod, Nat.shiftRight_eq_div_pow, Nat.mod_eq_of_lt (by omega)]

/-- **The parser takes the textual forms of an address, and answers with the address.** They are
eight segments in groups between colons, or fewer around one `::`; and a group is one to four hex
digits, or, at the end and with a dot in it, an IPv4 address in the place of two segments. -/
theorem parseIpv6_textual :
    (∀ host segs, parseIpv6 host = some segs ↔ Ipv6Literal host segs) ∧
      (∀ host segs, Ipv6Literal host segs → segs.length = 8 ∧ ∀ seg ∈ segs, seg < 65536) ∧
      ∀ g last segs, g ≠ [] → (readGroup g last = some segs ↔
        (46 ∉ g ∧ ∃ seg, HexGroup g seg ∧ segs = [seg]) ∨ 46 ∈ g ∧ last = true ∧
          ∃ addr, parseIpv4Whatwg g = some addr ∧ segs = [addr / 65536, addr % 65536]) := by
  refine ⟨fun _ _ => parseIpv6_iff, fun _ _ h => h.segs_spec, fun g last segs hne => ?_⟩
  unfold readGroup
  split
  next hdot =>
    simp only [ite_none_right_eq_some, map_eq_some_iff, hdot, not_true_eq_false,
      false_and, false_or, true_and]
    refine and_congr_right fun _ => exists_congr fun addr => and_congr_right fun haddr => ?_
    rw [halves_eq (parseIpv4Whatwg_lt haddr), eq_comm]
  next hdot =>
    simp only [ite_none_left_eq_some, map_eq_some_iff, not_lt, readHex_eq_some, HexGroup, hne, hdot,
      ne_eq, not_false_eq_true, true_and, false_and, or_false, and_assoc, exists_and_left,
        @eq_comm _ segs]

end Agnosai.Ssrf
