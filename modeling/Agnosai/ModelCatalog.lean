import Agnosai.Core.Bytes
import Agnosai.Core.JsonLib
import Agnosai.Llm.Hoosh
import Agnosai.Support.Insertion
import Mathlib.Data.List.Induction

/-!
# Model catalog

What a gateway serves and which model a tier means, after `model_catalog.cyr`: a list of models is
read into entries, and each of the three tiers picks one. The JSON library is a parameter. A
price is 64-bit, with `-1` for one that is not known, and a sum that does not fit is no price.

A tier picks among the models eligible for it (`Eligible`): it names one of their distinct prices,
and the first listed at that price is the pick (`FirstAt`).
-/

namespace Agnosai.ModelCatalog

open List Option

/-- `AgnosaiModelReasoning`. -/
inductive Reasoning where
  | undeclared
  | thinking
  | effort
  deriving Repr, DecidableEq

/-- The discriminant, which is what is compared. -/
def Reasoning.level : Reasoning → Nat
  | .undeclared => 0
  | .thinking => 1
  | .effort => 2

/-- `AGNOSAI_TIER_*`. -/
inductive Tier where
  | fast
  | capable
  | premium
  deriving Repr, DecidableEq

/-- `AgnosaiModelEntryOff`. -/
structure Entry where
  id : String
  ownedBy : Option String
  input : Int64
  output : Int64
  rate : Int64
  reasoning : Reasoning
  chat : Bool
  deriving Repr, DecidableEq

/-! ### Reading an entry -/

/-- `_agnosai_model_id_ok`. A character that is not ASCII is bytes above 126. -/
def idOk (id : String) : Bool :=
  0 < id.utf8ByteSize && id.utf8ByteSize ≤ 255 &&
    id.toList.all fun c => 32 < c.toNat && c.toNat < 127 && c.toNat ≠ 34 && c.toNat ≠ 92

/-- `_agnosai_model_is_chat`. -/
def isChat (id : String) : Bool :=
  !(["embed", "whisper", "tts", "transcribe", "dall-e", "image", "moderation", "realtime",
    "audio", "davinci", "babbage", "sora"].any (Llm.containsCi id))

section Read

variable (lib : JsonLib Bytes)

/-- Whether a capability is listed, with something under it. -/
def lists (fields : List (String × Json)) (key : String) : Bool :=
  match lib.objGet fields key with
  | some (.arr elems) => !elems.isEmpty
  | _ => false

/-- `_agnosai_model_reasoning_of`. -/
def reasoningOf : Option Json → Reasoning
  | some (.obj caps) =>
    if lists lib caps "effort" then .effort else if lists lib caps "thinking" then .thinking
      else .undeclared
  | _ => .undeclared

/-- `_agnosai_int_field`. -/
def intField (fields : List (String × Json)) (key : String) (fallback : Int64) : Int64 :=
  match lib.objGet fields key with
  | some (.int n) => n
  | _ => fallback

/-- `_agnosai_model_read_pricing`: both prices, if both are known and their sum fits. -/
def readPricing : Option Json → Option (Int64 × Int64)
  | some (.obj pricing) =>
    let input := intField lib pricing "input_micro_usd_per_1k" (-1)
    let output := intField lib pricing "output_micro_usd_per_1k" (-1)
    if input < 0 ∨ output < 0 then none
    else if input + output < 0 then none
    else some (input, output)
  | _ => none

/-- The owner of a model, if it is one worth keeping. -/
def ownerOf : Option Json → Option String
  | some (.str owner) => if idOk owner then some owner else none
  | _ => none

/-- `_agnosai_model_entry_of`. -/
def entryOf : Json → Option Entry
  | .obj fields =>
    match lib.objGet fields "id" with
    | some (.str id) =>
      if idOk id then
        let prices := readPricing lib (lib.objGet fields "pricing")
        some {
          id
          ownedBy := ownerOf (lib.objGet fields "owned_by")
          input := prices.elim (-1) Prod.fst
          output := prices.elim (-1) Prod.snd
          rate := prices.elim (-1) fun p => p.1 + p.2
          reasoning := reasoningOf lib (lib.objGet fields "capabilities")
          chat := isChat id }
      else none
    | _ => none
  | _ => none

/-- `agnosai_hoosh_extract_models_a`. -/
def extractModels (body : Bytes) : Option (List Json) :=
  match lib.parseBuf body with
  | .ok (.obj fields) =>
    match lib.objGet fields "data" with
    | some (.arr data) => some data
    | _ => none
  | _ => none

end Read

/-! ### Picking -/

/-- `_agnosai_model_rate_of`: free and unpriced tie. -/
def rateOf (e : Entry) : Int64 := if e.rate < 0 then 0 else e.rate

/-- `_agnosai_model_on_ladder`. -/
def onLadder (paid : Bool) (floor : Nat) (cap : Int64) (e : Entry) : Bool :=
  if e.chat = false then false
  else if paid = true ∧ e.rate ≤ 0 then false
  else if e.reasoning.level < floor then false
  else if 0 ≤ cap ∧ cap < rateOf e then false
  else true

variable (entries : List Entry)

/-- Whether a chat model is paid. -/
def anyPaid : Bool := entries.any fun e => e.chat && 0 < e.rate

/-- The most reasoning declared on the ladder. -/
def top : Nat :=
  entries.foldl (fun top e =>
    if onLadder (anyPaid entries) 0 (-1) e && top < e.reasoning.level then
      e.reasoning.level else top) 0

/-- What a tier asks of the reasoning. -/
def floor : Tier → Nat
  | .fast => 0
  | .capable => if 0 < top entries then Reasoning.thinking.level else 0
  | .premium => top entries

/-- Which of the distinct prices, from the lowest, a tier names. -/
def place (n : Nat) : Tier → Nat
  | .fast => 0
  | .capable => (n - 1) / 2
  | .premium => n - 1

/-- The price a tier names among those of the entries on its ladder. -/
def namedRate (tier : Tier) (rates : List Int64) : Option Int64 :=
  let distinct := changes (sortVec (· ≤ ·) rates)
  distinct[place distinct.length tier]?

/-- `_agnosai_model_pick_a`, once the cap is known. -/
def pickCapped (tier : Tier) (cap : Int64) : Option Entry :=
  let ladder := onLadder (anyPaid entries) (floor entries tier) cap
  match namedRate tier ((entries.filter ladder).map rateOf) with
  | none => none
  | some rate => entries.find? fun e => ladder e && rateOf e = rate

/-- What a tier may cost at most: capable no more than the pick of premium. -/
def capOf : Tier → Int64
  | .capable => (pickCapped entries .premium (-1)).elim (-1) rateOf
  | _ => -1

/-- `_agnosai_model_pick_a`. -/
def pick (tier : Tier) : Option Entry := pickCapped entries tier (capOf entries tier)

/-- `AgnosaiModelCatalogOff`. -/
structure Catalog where
  entries : List Entry
  picks : Tier → Option Entry

/-- `agnosai_model_catalog_parse_a`. -/
def catalogParse (lib : JsonLib Bytes) (body : Bytes) : Option Catalog :=
  match extractModels lib body with
  | none => none
  | some data =>
    some { entries := data.filterMap (entryOf lib), picks := pick (data.filterMap (entryOf lib)) }

/-! ### Who is eligible -/

variable {entries entries' : List Entry} {e e' : Entry} {tier : Tier} {cap : Int64}

variable (entries)

/-- A listed chat model, and a paid one if any is. -/
def OnLadder (e : Entry) : Prop :=
  e ∈ entries ∧ e.chat = true ∧ ((∃ e' ∈ entries, e'.chat = true ∧ 0 < e'.rate) → 0 < e.rate)

/-- What a tier asks of the models on the ladder: fast nothing; premium the most reasoning declared
on it; capable some reasoning, if any is declared, and a price no higher than that of the premium
pick. -/
def Eligible (e : Entry) : Tier → Prop
  | .fast => OnLadder entries e
  | .capable => OnLadder entries e ∧
      ((∃ e', OnLadder entries e' ∧ e'.reasoning ≠ .undeclared) → e.reasoning ≠ .undeclared) ∧
      ∀ p, pick entries .premium = some p → rateOf e ≤ rateOf p
  | .premium =>
    OnLadder entries e ∧ ∀ e', OnLadder entries e' → e'.reasoning.level ≤ e.reasoning.level

/-- The first listed at its rate among those eligible. -/
def FirstAt (tier : Tier) (e : Entry) : Prop :=
  Eligible entries e tier ∧ ∃ pre post, entries = pre ++ e :: post ∧
    ∀ e' ∈ pre, Eligible entries e' tier → rateOf e' ≠ rateOf e

variable {entries}

theorem rateOf_nonneg : 0 ≤ rateOf e := by
  unfold rateOf
  split
  · exact Int64.le_refl 0
  next h =>
    exact Int64.not_lt.1 h

/-- What a rung asks of an entry. -/
theorem onLadder_iff {paid : Bool} {least : Nat} : onLadder paid least cap e = true ↔
    e.chat = true ∧ (paid = true → 0 < e.rate) ∧ least ≤ e.reasoning.level ∧
      (0 ≤ cap → rateOf e ≤ cap) := by
  unfold onLadder
  split
  next hchat =>
    simp [hchat]
  rename_i hchat
  split
  next hfree =>
    simp [hfree.1, Int64.not_lt.2 hfree.2]
  rename_i hpaid
  split
  next hlow =>
    simp [not_le.2 hlow]
  rename_i hhigh
  split
  next hover =>
    simp [hover.1, Int64.not_le.2 hover.2]
  rename_i hunder
  refine iff_of_true rfl ⟨Bool.eq_true_of_not_eq_false hchat, fun hp => ?_, Nat.le_of_not_lt hhigh,
    fun hcap => ?_⟩
  · exact Int64.not_le.1 fun hrate => hpaid ⟨hp, hrate⟩
  · exact Int64.not_lt.1 fun hrate => hunder ⟨hcap, hrate⟩

theorem anyPaid_iff : anyPaid entries = true ↔ ∃ e ∈ entries, e.chat = true ∧ 0 < e.rate := by
  simp [anyPaid]

/-- On the ladder, whatever is asked of the reasoning and the price. -/
theorem mem_ladder {least : Nat} :
    e ∈ entries ∧ onLadder (anyPaid entries) least cap e = true ↔
      OnLadder entries e ∧ least ≤ e.reasoning.level ∧ (0 ≤ cap → rateOf e ≤ cap) := by
  rw [onLadder_iff, anyPaid_iff, OnLadder]
  grind

/-- The loop that looks for the highest level of those that meet `p`. -/
theorem foldl_level (p : Entry → Bool) (l : List Entry) :
    (∀ e ∈ l, p e = true → e.reasoning.level ≤
      l.foldl (fun top e => if p e && top < e.reasoning.level then e.reasoning.level else top) 0) ∧
    (l.foldl (fun top e => if p e && top < e.reasoning.level then e.reasoning.level else top) 0 =
      0 ∨
      ∃ e ∈ l, p e = true ∧ e.reasoning.level =
        l.foldl (fun top e => if p e && top < e.reasoning.level then e.reasoning.level
          else top) 0) := by
  induction l using reverseRecOn with
  | nil => simp
  | append_singleton l e ih =>
    obtain ⟨hle, hmax⟩ := ih
    simp only [foldl_append, foldl_cons, foldl_nil, forall_mem_append, forall_mem_singleton]
    split
    next hnew =>
      obtain ⟨hp, hlt⟩ := Bool.and_eq_true_iff.1 hnew
      refine ⟨⟨fun e' he' hp' => ?_, fun _ => le_rfl⟩, .inr ⟨e, by simp, hp, rfl⟩⟩
      exact le_trans (hle e' he' hp') (le_of_lt (of_decide_eq_true hlt))
    next hold =>
      refine ⟨⟨hle, fun hp => ?_⟩, hmax.imp_right ?_⟩
      · simpa [hp] using hold
      · rintro ⟨e', he', hp', hlevel⟩
        exact ⟨e', mem_append_left _ he', hp', hlevel⟩

/-- The top is the highest level of the ladder, or zero. -/
theorem top_spec (entries : List Entry) :
    (∀ e, OnLadder entries e → e.reasoning.level ≤ top entries) ∧
      (top entries = 0 ∨ ∃ e, OnLadder entries e ∧ e.reasoning.level = top entries) := by
  obtain ⟨hle, hmax⟩ := foldl_level (onLadder (anyPaid entries) 0 (-1)) entries
  have hladder : ∀ e, OnLadder entries e ↔ e ∈ entries ∧
      onLadder (anyPaid entries) 0 (-1) e = true := by
    intro e
    rw [mem_ladder]
    simp
  constructor
  · intro e he
    obtain ⟨hin, hon⟩ := (hladder e).1 he
    exact hle e hin hon
  · refine hmax.imp_right ?_
    rintro ⟨e, hin, hon, hlevel⟩
    exact ⟨e, (hladder e).2 ⟨hin, hon⟩, hlevel⟩

theorem level_pos : 1 ≤ e.reasoning.level ↔ e.reasoning ≠ .undeclared := by
  cases e.reasoning <;> decide

/-- Reasoning is declared on the ladder exactly when the top is above zero. -/
theorem top_pos : 0 < top entries ↔ ∃ e, OnLadder entries e ∧ e.reasoning ≠ .undeclared := by
  obtain ⟨hle, hmax⟩ := top_spec entries
  constructor
  · intro hpos
    obtain ⟨e, he, hlevel⟩ := hmax.resolve_left (ne_of_gt hpos)
    exact ⟨e, he, level_pos.1 (hlevel ▸ hpos)⟩
  · rintro ⟨e, he, hdeclared⟩
    exact lt_of_lt_of_le (level_pos.2 hdeclared) (hle e he)

/-- The ladder of a tier is those eligible for it. -/
theorem eligible_iff :
    e ∈ entries ∧ onLadder (anyPaid entries) (floor entries tier) (capOf entries tier) e = true ↔
      Eligible entries e tier := by
  have hcap : ¬ (0 : Int64) ≤ -1 := by decide
  rw [mem_ladder]
  obtain ⟨hle, hmax⟩ := top_spec entries
  cases tier with
  | fast => simp [floor, capOf, hcap, Eligible]
  | premium =>
    simp only [floor, capOf, hcap, false_implies, and_true, Eligible]
    refine and_congr_right fun _ => ⟨fun htop e' he' => (hle e' he').trans htop, fun hall => ?_⟩
    rcases hmax with hzero | ⟨e', he', hlevel⟩
    · omega
    · exact hlevel ▸ hall e' he'
  | capable =>
    simp only [floor, Eligible, ← top_pos]
    refine and_congr_right fun _ => and_congr ?_ ?_
    · split
      next hpos =>
        exact level_pos.trans ⟨fun h _ => h, fun h => h hpos⟩
      next hpos =>
        exact iff_of_true (Nat.zero_le _) fun h => absurd h hpos
    · -- the cap is the rate of the premium pick, if there is one
      change (0 ≤ (pick entries .premium).elim (-1) rateOf →
        rateOf e ≤ (pick entries .premium).elim (-1) rateOf) ↔ _
      cases pick entries .premium with
      | none => exact iff_of_true (fun h => absurd h hcap) nofun
      | some => simp [rateOf_nonneg]

/-! ### The rate a tier names -/

variable {rates rates' : List Int64}

theorem namedRate_congr (h : ∀ r, r ∈ rates ↔ r ∈ rates') :
    namedRate tier rates = namedRate tier rates' := by
  rw [namedRate, namedRate, changes_sortVec_congr h]

theorem namedRate_nil : namedRate tier [] = none := rfl

/-- A tier names a rate that is there: fast the lowest, premium the highest. -/
theorem namedRate_spec (hne : rates ≠ []) : ∃ rate ∈ rates, namedRate tier rates = some rate ∧
    (tier = .fast → ∀ r ∈ rates, rate ≤ r) ∧ (tier = .premium → ∀ r ∈ rates, r ≤ rate) := by
  have hmem : ∀ r, r ∈ changes (sortVec (· ≤ ·) rates) ↔ r ∈ rates := fun r => by
    rw [mem_changes, (perm_sortVec _).mem_iff]
  have hsorted :=
    (pairwise_changes (pairwise_sortVec (fun a b : Int64 => a ≤ b) rates)).imp And.left
  simp only [namedRate]
  generalize changes (sortVec (· ≤ ·) rates) = distinct at hmem hsorted
  have hpos : 0 < distinct.length := by
    obtain ⟨r, hr⟩ := exists_mem_of_ne_nil rates hne
    exact length_pos_of_mem ((hmem r).2 hr)
  have hplace : place distinct.length tier < distinct.length := by
    cases tier <;> simp only [place] <;> omega
  -- the distinct rates go up with their position
  have hle : ∀ i j (hi : i < distinct.length) (hj : j < distinct.length), i ≤ j →
      distinct[i] ≤ distinct[j] := by
    intro i j hi hj hij
    rcases lt_or_eq_of_le hij with hlt | rfl
    · exact pairwise_iff_getElem.1 hsorted i j hi hj hlt
    · exact Int64.le_refl _
  refine ⟨distinct[place distinct.length tier], (hmem _).1 (getElem_mem hplace),
    getElem?_eq_getElem hplace, ?_, ?_⟩
  · rintro rfl r hr
    obtain ⟨j, hj, rfl⟩ := mem_iff_getElem.1 ((hmem r).2 hr)
    exact hle _ _ hplace hj (Nat.zero_le j)
  · rintro rfl r hr
    obtain ⟨j, hj, rfl⟩ := mem_iff_getElem.1 ((hmem r).2 hr)
    exact hle _ _ hj hplace (Nat.le_sub_one_of_lt hj)

/-! ### The picks -/

/-- The rates of the entries on the ladder of a tier. -/
def ladderRates (entries : List Entry) (tier : Tier) : List Int64 :=
  (entries.filter (onLadder (anyPaid entries) (floor entries tier) (capOf entries tier))).map rateOf

theorem mem_ladderRates {r : Int64} :
    r ∈ ladderRates entries tier ↔ ∃ e, Eligible entries e tier ∧ rateOf e = r := by
  simp [ladderRates, eligible_iff]

variable (entries)

/-- The search for the rate that the tier names. -/
theorem pick_eq_bind (tier : Tier) : pick entries tier =
    (namedRate tier (ladderRates entries tier)).bind fun rate => entries.find? fun e =>
      onLadder (anyPaid entries) (floor entries tier) (capOf entries tier) e && rateOf e =
        rate := by
  rw [pick, pickCapped, ladderRates]
  cases namedRate tier _ <;> rfl

/-- **One pick**: none when nobody is eligible, and otherwise the first at the rate the tier
names. -/
theorem pick_cases (tier : Tier) :
    (pick entries tier = none ∧ ladderRates entries tier = []) ∨
      ∃ e, pick entries tier = some e ∧ FirstAt entries tier e ∧
        namedRate tier (ladderRates entries tier) = some (rateOf e) ∧
        (tier = .fast → ∀ e', Eligible entries e' tier → rateOf e ≤ rateOf e') ∧
        (tier = .premium → ∀ e', Eligible entries e' tier → rateOf e' ≤ rateOf e) := by
  have hpick := pick_eq_bind entries tier
  by_cases hempty : ladderRates entries tier = []
  · refine .inl ⟨?_, hempty⟩
    rw [hpick, hempty, namedRate_nil, bind_none]
  · obtain ⟨rate, hrate, hnamed, hlow, hhigh⟩ := namedRate_spec hempty
    rw [hnamed, bind_some] at hpick
    obtain ⟨e₀, he₀, heq₀⟩ := mem_ladderRates.1 hrate
    obtain ⟨hin₀, hladder₀⟩ := eligible_iff.2 he₀
    -- somebody is at that rate, so the search finds one
    have hfound : (entries.find? fun e =>
        onLadder (anyPaid entries) (floor entries tier) (capOf entries tier) e && rateOf e =
          rate).isSome :=
      find?_isSome.2 ⟨e₀, hin₀, Bool.and_eq_true_iff.2 ⟨hladder₀, decide_eq_true heq₀⟩⟩
    obtain ⟨e, he⟩ := isSome_iff_exists.1 hfound
    rw [he] at hpick
    obtain ⟨hsat, pre, post, happ, hbefore⟩ := find?_eq_some_iff_append.1 he
    obtain ⟨hladder, hsame⟩ := Bool.and_eq_true_iff.1 hsat
    obtain rfl := of_decide_eq_true hsame
    have hin : e ∈ entries := happ ▸ mem_append_right pre mem_cons_self
    refine .inr ⟨e, hpick,
      ⟨eligible_iff.1 ⟨hin, hladder⟩, pre, post, happ, fun e' he' helig heq => ?_⟩, hnamed,
      fun hfast e' he' => hlow hfast _ (mem_ladderRates.2 ⟨e', he', rfl⟩),
      fun hpremium e' he' => hhigh hpremium _ (mem_ladderRates.2 ⟨e', he', rfl⟩)⟩
    have hnot := hbefore e' he'
    rw [(eligible_iff.2 helig).2, heq] at hnot
    simp at hnot

theorem pick_rate : (pick entries tier).map rateOf = namedRate tier (ladderRates entries tier) := by
  obtain ⟨hnone, hempty⟩ | ⟨e, hsome, -, hnamed, -⟩ := pick_cases entries tier
  · rw [hnone, hempty, namedRate_nil]
    rfl
  · rw [hsome, hnamed]
    rfl

variable {entries}

theorem pick_isSome_iff : (pick entries tier).isSome ↔ ∃ e, Eligible entries e tier := by
  obtain ⟨hnone, hempty⟩ | ⟨e, hsome, hfirst, -⟩ := pick_cases entries tier
  · rw [hnone]
    refine iff_of_false nofun ?_
    rintro ⟨e, he⟩
    exact not_mem_nil (hempty ▸ mem_ladderRates.2 ⟨e, he, rfl⟩)
  · rw [hsome]
    exact iff_of_true rfl ⟨e, hfirst.1⟩

/-- Whatever a tier asks, it asks it of a model on the ladder. -/
theorem Eligible.onLadder (h : Eligible entries e tier) : OnLadder entries e := by
  cases tier with
  | fast => exact h
  | capable => exact h.1
  | premium => exact h.1

/-- If a chat model is listed, one is on the ladder. -/
theorem exists_onLadder (h : ∃ e ∈ entries, e.chat = true) : ∃ e, OnLadder entries e := by
  obtain ⟨e, he, hchat⟩ := h
  by_cases hpaid : ∃ e ∈ entries, e.chat = true ∧ 0 < e.rate
  · obtain ⟨e', he', hchat', hrate'⟩ := hpaid
    exact ⟨e', he', hchat', fun _ => hrate'⟩
  · exact ⟨e, he, hchat, fun hany => absurd hany hpaid⟩

/-- Each tier has somebody eligible, once the ladder is not empty. -/
theorem exists_eligible (h : ∃ e, OnLadder entries e) : ∃ e, Eligible entries e tier := by
  -- premium: the top is reached
  have hpremium : ∃ e, Eligible entries e .premium := by
    obtain ⟨hle, hmax⟩ := top_spec entries
    rcases hmax with hzero | ⟨e, he, hlevel⟩
    · obtain ⟨e, he⟩ := h
      refine ⟨e, he, fun e' he' => ?_⟩
      have hlow := hle e' he'
      omega
    · exact ⟨e, he, fun e' he' => hlevel ▸ hle e' he'⟩
  cases tier with
  | fast => exact h
  | premium => exact hpremium
  | capable =>
    -- the pick of premium is eligible
    obtain ⟨p, hp⟩ := isSome_iff_exists.1 (pick_isSome_iff.2 hpremium)
    obtain ⟨hnone, -⟩ | ⟨e, hsome, hfirst, -⟩ := pick_cases entries .premium
    · rw [hnone] at hp
      cases hp
    · obtain ⟨hladder, hmost⟩ := hfirst.1
      refine ⟨e, hladder, ?_, fun p' hp' => ?_⟩
      · rintro ⟨e', he', hdeclared⟩
        exact level_pos.1 ((level_pos.2 hdeclared).trans (hmost e' he'))
      · rw [hsome] at hp'
        exact some.inj hp' ▸ Int64.le_refl _

/-- Who is on the ladder depends on which entries are listed. -/
theorem onLadder_congr (h : ∀ e, e ∈ entries' ↔ e ∈ entries) :
    OnLadder entries' e ↔ OnLadder entries e := by
  simp only [OnLadder, h]

/-- **The rates picked depend on which entries are listed**, and not on their order or number. -/
theorem pick_rate_congr (h : ∀ e, e ∈ entries' ↔ e ∈ entries) :
    (pick entries' tier).map rateOf = (pick entries tier).map rateOf := by
  have hrates : ∀ tier, (∀ e, Eligible entries' e tier ↔ Eligible entries e tier) →
      (pick entries' tier).map rateOf = (pick entries tier).map rateOf := by
    intro tier helig
    rw [pick_rate, pick_rate]
    exact namedRate_congr fun r => by simp only [mem_ladderRates, helig]
  have hpremium := hrates .premium fun e => by simp only [Eligible, onLadder_congr h]
  cases tier with
  | fast => exact hrates .fast fun e => by simp only [Eligible, onLadder_congr h]
  | premium => exact hpremium
  | capable =>
    refine hrates .capable fun e => ?_
    simp only [Eligible, onLadder_congr h]
    refine and_congr_right fun _ => and_congr_right fun _ => ?_
    -- the cap is a rate picked
    cases hp : pick entries .premium with
    | none =>
      rw [hp, map_none, map_eq_none_iff] at hpremium
      simp [hpremium]
    | some =>
      rw [hp, map_some] at hpremium
      obtain ⟨p', hp', hrate⟩ := map_eq_some_iff.1 hpremium
      simp [hp', hrate]

theorem pick_fast_le (h : pick entries .fast = some e) (h' : pick entries tier = some e') :
    rateOf e ≤ rateOf e' := by
  obtain ⟨hnone, -⟩ | ⟨f, hsome, -, -, hlow, -⟩ := pick_cases entries .fast
  · rw [hnone] at h
    cases h
  · obtain ⟨hnone, -⟩ | ⟨f', hsome', hfirst', -⟩ := pick_cases entries tier
    · rw [hnone] at h'
      cases h'
    · rw [hsome] at h
      rw [hsome'] at h'
      cases h
      cases h'
      exact hlow rfl _ hfirst'.1.onLadder

theorem pick_firstAt (h : pick entries tier = some e) : FirstAt entries tier e := by
  obtain ⟨hnone, -⟩ | ⟨e', hsome, hfirst, -⟩ := pick_cases entries tier
  · rw [hnone] at h
    cases h
  · rw [hsome] at h
    cases h
    exact hfirst

/-- **The picks of a catalog.** For every list that a gateway returns: the three tiers pick a model,
or no chat model is listed and none does; the rates go up from fast through capable to premium; the
rates picked are the same for any list with the same entries, in whatever order and however often;
and each pick is the first listed at its rate among those eligible for its tier. -/
theorem catalogParse_picks (lib : JsonLib Bytes) (body : Bytes) (c : Catalog)
    (h : catalogParse lib body = some c) :
    ((∀ tier, (c.picks tier).isSome) ∨ (∀ e ∈ c.entries, e.chat = false) ∧
      ∀ tier, c.picks tier = none) ∧
      (∀ f k p, c.picks .fast = some f → c.picks .capable = some k → c.picks .premium = some p →
        rateOf f ≤ rateOf k ∧ rateOf k ≤ rateOf p) ∧
      (∀ body' c', catalogParse lib body' = some c' → (∀ e, e ∈ c'.entries ↔ e ∈ c.entries) →
        ∀ tier, (c'.picks tier).map rateOf = (c.picks tier).map rateOf) ∧
      ∀ tier e, c.picks tier = some e → FirstAt c.entries tier e := by
  have hparse : ∀ {body c}, catalogParse lib body = some c → c.picks = pick c.entries := by
    intro body c h
    unfold catalogParse at h
    split at h
    · cases h
    · cases h
      rfl
  have hpicks := hparse h
  refine ⟨?_, fun f k p hf hk hp => ?_, fun body' c' h' hsame tier => ?_, fun tier e he => ?_⟩
  · by_cases hchat : ∃ e ∈ c.entries, e.chat = true
    · refine .inl fun tier => ?_
      rw [hpicks, pick_isSome_iff]
      exact exists_eligible (exists_onLadder hchat)
    · refine .inr ⟨fun e he => Bool.eq_false_iff.2 fun hyes => hchat ⟨e, he, hyes⟩, fun tier => ?_⟩
      rw [hpicks, ← not_isSome_iff_eq_none, pick_isSome_iff]
      rintro ⟨e, he⟩
      obtain ⟨hin, hyes, -⟩ := he.onLadder
      exact hchat ⟨e, hin, hyes⟩
  · rw [hpicks] at hf hk hp
    exact ⟨pick_fast_le hf hk, (pick_firstAt hk).1.2.2 p hp⟩
  · rw [hpicks, hparse h']
    exact pick_rate_congr hsame
  · rw [hpicks] at he
    exact pick_firstAt he

/-- A model as a gateway lists it. -/
def listing (id : String) (input output : Int64) (capability : String) : Json :=
  .obj [("id", .str id), ("pricing", .obj [("input_micro_usd_per_1k", .int input),
    ("output_micro_usd_per_1k", .int output)]),
      ("capabilities", .obj [(capability, .arr [.bool true])])]

/-- An embedder, two models that think and cost more, and one that takes `effort`. -/
def models : List Json :=
  [listing "text-embed" 1 1 "vision", listing "thinker" 3000 15000 "thinking",
    listing "worker" 2000 10000 "effort", listing "elder" 15000 75000 "thinking"]

/-- What a gateway answers that has these. -/
def listed : Json := .obj [("data", .arr models)]

def gateway : JsonLib Bytes := .reading ascii [listed]

theorem catalogParse_picks_gateway : ∃ c k, catalogParse gateway (ascii listed.text) = some c ∧
    c.picks .capable = some k ∧ k.id = "worker" ∧ FirstAt c.entries .capable k := by
  have hparse : gateway.parseBuf (ascii listed.text) = .ok listed := by
    rw [gateway, JsonLib.parseBuf_reading_cons]
  generalize ascii listed.text = body at hparse ⊢
  have hc : catalogParse gateway body =
      some ⟨models.filterMap (entryOf gateway), pick (models.filterMap (entryOf gateway))⟩ := by
    rw [catalogParse, extractModels, hparse]
    rfl
  have hpick : (pick (models.filterMap (entryOf gateway)) .capable).map Entry.id =
      some "worker" := by
    decide +kernel
  obtain ⟨k, hk, hid⟩ := map_eq_some_iff.1 hpick
  obtain ⟨-, -, -, hfirst⟩ := catalogParse_picks gateway body _ hc
  exact ⟨_, k, hc, hk, hid, hfirst .capable k hk⟩

end Agnosai.ModelCatalog
