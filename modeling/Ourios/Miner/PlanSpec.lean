/-
# What an attach does

Specifications of the plan functions in terms of the line's own tokens. An
attach replaces a leaf's template by `widenTemplate` and its slot types by
`attachSlots`, position by position; the emitted parameters fill the resulting
template with the line's tokens.
-/

import Ourios.Miner.Plan

namespace Ourios.Miner

variable (env : Environment)

/-! ### Parameters -/

variable {byteLimit p : Nat} {α : Type} {tokens : List Text} {template : List OwnedToken}
  {slots : List SlotTypes}

/-- A capped value that is not an overflow marker is the value itself. -/
theorem capParamValue_value {typeTag : ParamType} {value : Text}
    (h : (capParamValue env typeTag value byteLimit).typeTag ≠ .overflow) :
    (capParamValue env typeTag value byteLimit).value = value := by
  unfold capParamValue at h ⊢
  split
  · rfl
  · rename_i hover
    rw [if_neg hover] at h
    exact absurd rfl h

/-- Parameters capped from a list of values are those values unless one of them
overflowed. -/
theorem map_value_capParamValue (typeOf : α → ParamType) (valueOf : α → Text) (byteLimit : Nat)
    (source : List α)
    (h : ∀ p ∈ source.map (fun a => capParamValue env (typeOf a) (valueOf a) byteLimit),
      p.typeTag ≠ .overflow) :
    (source.map fun a => capParamValue env (typeOf a) (valueOf a) byteLimit).map Param.value =
      source.map valueOf := by
  rw [List.map_map]
  refine List.map_congr_left fun a ha => ?_
  exact capParamValue_value env (h _ (List.mem_map.mpr ⟨a, ha, rfl⟩))

/-! ### Fresh leaves -/

/-- The slot a token opens in a fresh leaf: a wildcard where the masker masked. -/
def freshSlot (token : Text) : OwnedToken :=
  if (classify token).isSome then .wildcard else .fixed token

theorem head?_wildcardPositions_ne (p : Nat) (tokens : List Text) :
    (maskFrom (p + 1) tokens).wildcardPositions.head? ≠ some p := by
  intro hhead
  have := le_of_mem_wildcardPositions (List.mem_of_mem_head? hhead)
  omega

theorem leafTemplateFrom_eq (p : Nat) (tokens : List Text) :
    leafTemplateFrom p (maskFrom p tokens).tokens (maskFrom p tokens).wildcardPositions =
      tokens.map freshSlot := by
  induction tokens generalizing p with
  | nil => rfl
  | cons token rest ih =>
    cases htag : classify token with
    | none =>
      simp [maskFrom, htag, leafTemplateFrom, head?_wildcardPositions_ne, ih, freshSlot]
    | some tag => simp [maskFrom, htag, leafTemplateFrom, ih, freshSlot]

theorem leafTemplate_mask (tokens : List Text) :
    leafTemplate (mask tokens) = tokens.map freshSlot :=
  leafTemplateFrom_eq 0 tokens

theorem fills_map_freshSlot (p : Nat) (tokens : List Text) :
    Fills (tokens.map freshSlot) ((maskFrom p tokens).typedParams.map TypedParam.value) tokens := by
  induction tokens generalizing p with
  | nil => exact .nil
  | cons token rest ih =>
    cases htag : classify token with
    | none => simpa [maskFrom, htag, freshSlot] using Fills.fixed token (ih (p + 1))
    | some tag => simpa [maskFrom, htag, freshSlot] using Fills.wildcard token (ih (p + 1))

/-- The masked originals fill a fresh leaf's template with the line. -/
theorem fills_leafTemplate (tokens : List Text) :
    Fills (leafTemplate (mask tokens)) ((mask tokens).typedParams.map TypedParam.value) tokens := by
  rw [leafTemplate_mask]
  exact fills_map_freshSlot 0 tokens

/-! ### Widening -/

/-- Whether a slot takes a token as it is. A masked token is only ever taken by a
wildcard. -/
def slotAccepts (token : Text) : OwnedToken → Bool
  | .wildcard => true
  | .fixed text => (classify token).isNone && token == text

/-- The slot after an attach: one that does not accept the token is widened. -/
def widenSlot (token : Text) (slot : OwnedToken) : OwnedToken :=
  if slotAccepts token slot then slot else .wildcard

/-- The template after an attach. -/
def widenTemplate (tokens : List Text) (template : List OwnedToken) : List OwnedToken :=
  List.zipWith widenSlot tokens template

@[simp] theorem widenTemplate_nil : widenTemplate [] [] = [] := rfl

@[simp] theorem widenTemplate_cons (token : Text) (tokens : List Text) (slot : OwnedToken)
    (template : List OwnedToken) :
    widenTemplate (token :: tokens) (slot :: template) =
      widenSlot token slot :: widenTemplate tokens template := rfl

@[simp] theorem widenSlot_wildcard (token : Text) : widenSlot token .wildcard = .wildcard := rfl

theorem positionMatches_mask {token : Text} (h : tokens[p]? = some token) (slot : OwnedToken) :
    positionMatches (mask tokens).wildcardPositions p (maskedText token) slot =
      slotAccepts token slot := by
  cases slot with
  | wildcard => rfl
  | fixed text =>
    have hmem : p ∈ (mask tokens).wildcardPositions ↔ (classify token).isSome := by
      rw [mem_wildcardPositions_mask]
      constructor
      · rintro ⟨other, hother, hsome⟩
        rw [h] at hother
        cases hother
        exact hsome
      · intro hsome
        exact ⟨token, h, hsome⟩
    cases htag : classify token with
    | none =>
      have hnot : p ∉ (mask tokens).wildcardPositions := by simp [hmem, htag]
      simp [positionMatches, slotAccepts, htag, maskedText, hnot]
    | some tag =>
      have hin : p ∈ (mask tokens).wildcardPositions := by simp [hmem, htag]
      simp [positionMatches, slotAccepts, htag, hin]

theorem mem_findWideningPositionsFrom (positions : List Nat) (i p : Nat) (words : List Text)
    (template : List OwnedToken) :
    p ∈ findWideningPositionsFrom positions i words template ↔
      i ≤ p ∧ ∃ token slot, words[p - i]? = some token ∧ template[p - i]? = some slot ∧
        positionMatches positions p token slot = false := by
  induction words generalizing i template with
  | nil => simp [findWideningPositionsFrom]
  | cons token words ih =>
    cases template with
    | nil => simp [findWideningPositionsFrom]
    | cons slot template =>
      have hlater : ∀ {α : Type} (a : α) (rest : List α), i < p →
          (a :: rest)[p - i]? = rest[p - (i + 1)]? := by
        intro α a rest hlt
        rw [show p - i = p - (i + 1) + 1 by omega, List.getElem?_cons_succ]
      rcases Nat.lt_trichotomy p i with hlt | rfl | hgt
      · have hnot : p ∉ findWideningPositionsFrom positions (i + 1) words template := by
          rw [ih]
          omega
        grind [findWideningPositionsFrom]
      · grind [findWideningPositionsFrom]
      · grind [findWideningPositionsFrom]

/-- The widened positions are exactly those whose slot refuses the line's token. -/
theorem mem_findWideningPositions (p : Nat) (tokens : List Text) (template : List OwnedToken) :
    p ∈ findWideningPositions (mask tokens).tokens template (mask tokens).wildcardPositions ↔
      ∃ token slot, tokens[p]? = some token ∧ template[p]? = some slot ∧
        slotAccepts token slot = false := by
  unfold findWideningPositions
  rw [mem_findWideningPositionsFrom, Nat.sub_zero]
  constructor
  · rintro ⟨-, masked, slot, hmasked, hslot, hmatch⟩
    rw [tokens_mask, List.getElem?_map] at hmasked
    obtain ⟨token, htoken, rfl⟩ := Option.map_eq_some_iff.mp hmasked
    rw [positionMatches_mask htoken] at hmatch
    exact ⟨token, slot, htoken, hslot, hmatch⟩
  · rintro ⟨token, slot, htoken, hslot, hmatch⟩
    refine ⟨Nat.zero_le p, maskedText token, slot, ?_, hslot, ?_⟩
    · rw [tokens_mask, List.getElem?_map, htoken]
      rfl
    · rw [positionMatches_mask htoken]
      exact hmatch

theorem length_applyWidening (template : List OwnedToken) (positions : List Nat) :
    (applyWidening template positions).length = template.length := by
  unfold applyWidening
  induction positions generalizing template with
  | nil => rfl
  | cons position positions ih => simp [ih]

theorem getElem?_applyWidening (template : List OwnedToken) (positions : List Nat) (p : Nat) :
    (applyWidening template positions)[p]? =
      if p ∈ positions ∧ p < template.length then some .wildcard else template[p]? := by
  unfold applyWidening
  induction positions generalizing template with
  | nil => simp
  | cons position positions ih =>
    rw [List.foldl_cons, ih, List.length_set, List.getElem?_set]
    by_cases hp : p < template.length
    · by_cases hmem : p ∈ positions
      · simp [hp, hmem]
      · by_cases heq : position = p
        · subst heq
          simp [hp, hmem]
        · simp [hmem, heq, Ne.symm heq]
    · by_cases heq : position = p
      · subst heq
        simp [hp]
      · simp [hp, heq]

section

variable (hlen : template.length = tokens.length)
include hlen

/-- Widening at the positions found is the slot-by-slot widening. -/
theorem applyWidening_findWideningPositions : applyWidening template
        (findWideningPositions (mask tokens).tokens template (mask tokens).wildcardPositions) =
      widenTemplate tokens template := by
  refine List.ext_getElem? fun p => ?_
  have hmem := mem_findWideningPositions p tokens template
  generalize findWideningPositions (mask tokens).tokens template
    (mask tokens).wildcardPositions = widened at hmem ⊢
  rw [getElem?_applyWidening, widenTemplate, List.getElem?_zipWith]
  cases htoken : tokens[p]? with
  | none =>
    have hp : ¬ p < template.length := by
      rw [List.getElem?_eq_none_iff] at htoken
      omega
    simp [hp]
  | some token =>
    have hp : p < tokens.length := (List.getElem?_eq_some_iff.mp htoken).1
    obtain ⟨slot, hslot⟩ : ∃ slot, template[p]? = some slot :=
      ⟨_, List.getElem?_eq_getElem (by omega)⟩
    have hwidened : p ∈ widened ↔ slotAccepts token slot = false := by
      rw [hmem]
      constructor
      · rintro ⟨t, s, ht, hs, hrefuse⟩
        rw [htoken] at ht
        rw [hslot] at hs
        cases ht
        cases hs
        exact hrefuse
      · exact fun hrefuse => ⟨token, slot, htoken, hslot, hrefuse⟩
    rw [hslot]
    by_cases haccept : slotAccepts token slot = true
    · simp [hwidened, widenSlot, haccept]
    · simp [hwidened, widenSlot, haccept, hlen, hp]

/-- No position is widened exactly when the template takes the line as it is. -/
theorem findWideningPositions_eq_nil_iff :
    findWideningPositions (mask tokens).tokens template (mask tokens).wildcardPositions = [] ↔
      widenTemplate tokens template = template := by
  constructor
  · intro hnil
    rw [← applyWidening_findWideningPositions hlen, hnil]
    rfl
  · intro hsame
    refine List.eq_nil_iff_forall_not_mem.mpr fun p hp => ?_
    obtain ⟨token, slot, htoken, hslot, hrefuse⟩ := (mem_findWideningPositions p _ _).mp hp
    have hp' : (widenTemplate tokens template)[p]? = some (widenSlot token slot) := by
      simp [widenTemplate, List.getElem?_zipWith, htoken, hslot]
    rw [hsame, hslot] at hp'
    cases slot with
    | wildcard => simp [slotAccepts] at hrefuse
    | fixed text => simp [widenSlot, hrefuse] at hp'

theorem length_widenTemplate : (widenTemplate tokens template).length = template.length := by
  simp [widenTemplate, hlen]

/-- A widened template takes every token of the line. -/
theorem accepts_widenTemplate :
    List.Forall₂ (fun token slot => slotAccepts token slot = true) tokens
      (widenTemplate tokens template) := by
  induction template generalizing tokens with
  | nil =>
    obtain rfl := List.eq_nil_of_length_eq_zero hlen.symm
    exact .nil
  | cons slot template ih =>
    obtain ⟨token, tokens, rfl⟩ := List.exists_cons_of_length_eq_add_one hlen.symm
    refine .cons ?_ (ih (by simpa using hlen))
    by_cases haccept : slotAccepts token slot = true
    · rw [widenSlot, if_pos haccept]
      exact haccept
    · rw [widenSlot, if_neg haccept]
      rfl

end

/-! ### Parameters of an attached row -/

/-- The parameters of the part of a line from a position on. -/
abbrev lineParamsFrom (byteLimit p : Nat) (template : List OwnedToken) (tokens : List Text) :
    List Param :=
  buildRecordParamsFrom env byteLimit p template (maskFrom p tokens).tokens
    (maskFrom p tokens).wildcardPositions (maskFrom p tokens).typedParams

theorem fills_buildRecordParamsFrom
    (haccept : List.Forall₂ (fun token slot => slotAccepts token slot = true) tokens template)
    (hvalue : ∀ param ∈ lineParamsFrom env byteLimit p template tokens,
      param.typeTag ≠ .overflow) :
    Fills template ((lineParamsFrom env byteLimit p template tokens).map Param.value) tokens := by
  induction haccept generalizing p with
  | nil => exact .nil
  | @cons token slot tokens template hslot _ ih =>
    cases slot with
    | fixed text =>
      simp only [slotAccepts, Bool.and_eq_true, Option.isNone_iff_eq_none, beq_iff_eq] at hslot
      obtain ⟨htag, rfl⟩ := hslot
      simp only [lineParamsFrom, maskFrom, htag, buildRecordParamsFrom] at hvalue ⊢
      exact .fixed token (ih hvalue)
    | wildcard =>
      cases htag : classify token with
      | none =>
        -- The masker kept the token, so no unused mask entry sits at `p`.
        have hhead := head?_wildcardPositions_ne p tokens
        have hstep : lineParamsFrom env byteLimit p (.wildcard :: template) (token :: tokens) =
            capParamValue env .str token byteLimit ::
              lineParamsFrom env byteLimit (p + 1) template tokens := by
          simp only [lineParamsFrom, maskFrom, htag, buildRecordParamsFrom]
          cases (maskFrom (p + 1) tokens).typedParams <;> simp [hhead]
        rw [hstep] at hvalue ⊢
        rw [List.map_cons, capParamValue_value env (hvalue _ List.mem_cons_self)]
        exact .wildcard token (ih fun param hmem => hvalue param (List.mem_cons_of_mem _ hmem))
      | some tag =>
        simp only [lineParamsFrom, maskFrom, htag, buildRecordParamsFrom, List.head?_cons,
          if_true, List.tail_cons] at hvalue ⊢
        rw [List.map_cons, capParamValue_value env (hvalue _ List.mem_cons_self)]
        exact .wildcard token (ih fun param hmem => hvalue param (List.mem_cons_of_mem _ hmem))

/-- The parameters of an attached row fill the leaf's template with the line. -/
theorem fills_buildRecordParams
    (haccept : List.Forall₂ (fun token slot => slotAccepts token slot = true) tokens template)
    (hvalue : ∀ param ∈ buildRecordParams env template (mask tokens) byteLimit,
      param.typeTag ≠ .overflow) :
    Fills template ((buildRecordParams env template (mask tokens) byteLimit).map Param.value)
      tokens :=
  fills_buildRecordParamsFrom env haccept hvalue

/-! ### Slot types -/

/-- The slots after a widening: a refused token opens a slot that has seen a
literal and the token's own type. -/
def widenSlots : List Text → List OwnedToken → List SlotTypes → List SlotTypes
  | _ :: tokens, .wildcard :: template, slot :: slots => slot :: widenSlots tokens template slots
  | token :: tokens, .fixed text :: template, slots =>
    if slotAccepts token (.fixed text) then widenSlots tokens template slots
    else (SlotTypes.singleton .str).insert (maskedType token) :: widenSlots tokens template slots
  | _, _, _ => []

/-- The slots after type expansion: every slot that was a wildcard before the
attach has seen the token's type. -/
def expandSlots : List Text → List OwnedToken → List SlotTypes → List SlotTypes
  | token :: tokens, .wildcard :: template, slot :: slots =>
    slot.insert (maskedType token) :: expandSlots tokens template slots
  | token :: tokens, .fixed text :: template, slots =>
    if slotAccepts token (.fixed text) then expandSlots tokens template slots
    else
      match slots with
      | slot :: slots => slot :: expandSlots tokens template slots
      | [] => []
  | _, _, _ => []

def attachSlots (tokens : List Text) (template : List OwnedToken) (slots : List SlotTypes) :
    List SlotTypes :=
  expandSlots tokens template (widenSlots tokens template slots)

/-- A line, a template and its slots read side by side: one slot for each wildcard, and a
fixed token that takes the line's token or refuses it. -/
inductive Aligned : List Text → List OwnedToken → List SlotTypes → Prop
  | nil : Aligned [] [] []
  | wildcard {line shape held} (token : Text) (set : SlotTypes)
      (later : Aligned line shape held) :
      Aligned (token :: line) (.wildcard :: shape) (set :: held)
  | kept {line shape held} {token text : Text}
      (haccept : slotAccepts token (.fixed text) = true) (later : Aligned line shape held) :
      Aligned (token :: line) (.fixed text :: shape) held
  | refused {line shape held} {token text : Text}
      (haccept : slotAccepts token (.fixed text) = false) (later : Aligned line shape held) :
      Aligned (token :: line) (.fixed text :: shape) held

theorem aligned_of_length (hlen : template.length = tokens.length)
    (hslots : slots.length = wildcardCount template) : Aligned tokens template slots := by
  induction template generalizing tokens slots with
  | nil =>
    obtain rfl := List.eq_nil_of_length_eq_zero hlen.symm
    obtain rfl := List.eq_nil_of_length_eq_zero hslots
    exact .nil
  | cons slot template ih =>
    obtain ⟨token, tokens, rfl⟩ := List.exists_cons_of_length_eq_add_one hlen.symm
    have hlater : template.length = tokens.length := by simpa using hlen
    cases slot with
    | wildcard =>
      rw [wildcardCount_wildcard] at hslots
      obtain ⟨set, slots, rfl⟩ := List.exists_cons_of_length_eq_add_one hslots
      exact .wildcard token set (ih hlater (by simpa using hslots))
    | fixed text =>
      cases haccept : slotAccepts token (.fixed text) with
      | true => exact .kept haccept (ih hlater hslots)
      | false => exact .refused haccept (ih hlater hslots)

theorem Aligned.length_attachSlots (h : Aligned tokens template slots) :
    (attachSlots tokens template slots).length = wildcardCount (widenTemplate tokens template) := by
  unfold attachSlots
  induction h with
  | nil => rfl
  | wildcard token set later ih => simpa [widenSlots, expandSlots] using ih
  | kept haccept later ih | refused haccept later ih =>
    simpa [widenSlots, expandSlots, widenSlot, haccept] using ih

private theorem insertIdx_length_append (before after : List α) (a : α) :
    (before ++ after).insertIdx before.length a = before ++ a :: after := by
  induction before with
  | nil => simp
  | cons b before ih => simp [ih]

private theorem modify_length_append (before after : List α) (a : α) (f : α → α) :
    (before ++ a :: after).modify before.length f = before ++ f a :: after := by
  induction before with
  | nil => simp
  | cons b before ih => simp [ih]

theorem getElem?_of_drop_eq_cons {whole rest : List α} {a : α} (h : whole.drop p = a :: rest) :
    whole[p]? = some a := by
  have := congrArg List.head? h
  simpa [List.head?_drop] using this

theorem drop_succ_of_drop_eq_cons {whole rest : List α} {a : α} (h : whole.drop p = a :: rest) :
    whole.drop (p + 1) = rest := by
  have := congrArg List.tail h
  simpa [List.tail_drop] using this

section Suffix

/-! The plan functions walk a line from some position on. `tokens` is the part of
`line` from position `p`, and slot lists are split at the current ordinal. -/

variable {words tokens : List Text} {p : Nat}

@[simp] private theorem head?_findWideningPositionsFrom (positions : List Nat) (strs : List Text)
    (template : List OwnedToken) :
    ((findWideningPositionsFrom positions (p + 1) strs template).head? = some p) = False := by
  refine eq_false fun hhead => ?_
  have := (mem_findWideningPositionsFrom _ _ _ _ _).mp (List.mem_of_mem_head? hhead)
  omega

private theorem findWideningPositionsFrom_cons {token : Text} (htokens : words[p]? = some token)
    (slot : OwnedToken) (template : List OwnedToken) :
    findWideningPositionsFrom (mask words).wildcardPositions p
        ((token :: tokens).map maskedText) (slot :: template) =
      if slotAccepts token slot then
        findWideningPositionsFrom (mask words).wildcardPositions (p + 1) (tokens.map maskedText)
          template
      else p :: findWideningPositionsFrom (mask words).wildcardPositions (p + 1)
        (tokens.map maskedText) template := by
  simp only [List.map_cons, findWideningPositionsFrom, positionMatches_mask htokens]

variable {template : List OwnedToken} {slots : List SlotTypes}

/-- Inserting the slots of the widened positions is `widenSlots`. -/
theorem Aligned.updateSlotTypesFrom_eq (h : Aligned tokens template slots)
    (htokens : words.drop p = tokens) (before : List SlotTypes) :
    updateSlotTypesFrom (mask words) p before.length (before ++ slots)
        (widenTemplate tokens template)
        (findWideningPositionsFrom (mask words).wildcardPositions p (tokens.map maskedText)
          template) =
      before ++ widenSlots tokens template slots := by
  induction h generalizing p before with
  | nil => simp [updateSlotTypesFrom, widenSlots]
  | wildcard token set later ih =>
    rw [findWideningPositionsFrom_cons (getElem?_of_drop_eq_cons htokens)]
    have := ih (drop_succ_of_drop_eq_cons htokens) (before ++ [set])
    simpa [slotAccepts, updateSlotTypesFrom, widenSlots] using this
  | kept haccept later ih =>
    rw [findWideningPositionsFrom_cons (getElem?_of_drop_eq_cons htokens)]
    have := ih (drop_succ_of_drop_eq_cons htokens) before
    simpa [widenSlot, haccept, updateSlotTypesFrom, widenSlots] using this
  | @refused _ _ _ token _ haccept later ih =>
    have htoken := getElem?_of_drop_eq_cons htokens
    rw [findWideningPositionsFrom_cons htoken]
    have := ih (drop_succ_of_drop_eq_cons htokens)
      (before ++ [(SlotTypes.singleton .str).insert (maskedType token)])
    simpa [widenSlot, haccept, updateSlotTypesFrom, widenSlots,
      paramTypeForLinePosition_mask p htoken, insertIdx_length_append] using this

/-- Adding the collected types is `expandSlots`. `base` is the slot list the
collection read, before any type was added. -/
theorem Aligned.applyTypeExpansions_collect (h : Aligned tokens template slots)
    (htokens : words.drop p = tokens) (before : List SlotTypes) {base : List SlotTypes}
    (hbase : base.drop before.length = widenSlots tokens template slots) :
    applyTypeExpansions (before ++ widenSlots tokens template slots)
        (collectTypeExpansionsFrom (mask words) base p before.length (widenTemplate tokens template)
          (findWideningPositionsFrom (mask words).wildcardPositions p (tokens.map maskedText)
            template)) =
      before ++ attachSlots tokens template slots := by
  unfold attachSlots
  induction h generalizing p before with
  | nil => simp [collectTypeExpansionsFrom, expandSlots, applyTypeExpansions, widenSlots]
  | wildcard token set later ih =>
    have htoken := getElem?_of_drop_eq_cons htokens
    have hlater := drop_succ_of_drop_eq_cons htokens
    have hget : base.getD before.length .new = set := by
      simp [List.getD_eq_getElem?_getD, getElem?_of_drop_eq_cons hbase]
    have hdrop := drop_succ_of_drop_eq_cons hbase
    rw [findWideningPositionsFrom_cons htoken]
    simp only [slotAccepts, if_true, widenTemplate_cons, widenSlot_wildcard,
      collectTypeExpansionsFrom, head?_findWideningPositionsFrom, if_false, hget,
      paramTypeForLinePosition_mask p htoken, widenSlots, expandSlots]
    by_cases hcontains : set.contains (maskedType token) = true
    · have := ih hlater (before ++ [set]) (by simpa using hdrop)
      rw [if_pos hcontains, SlotTypes.insert_of_contains hcontains]
      simpa using this
    · have := ih hlater (before ++ [set.insert (maskedType token)]) (by simpa using hdrop)
      rw [if_neg hcontains, applyTypeExpansions, List.foldl_cons, modify_length_append]
      simpa [applyTypeExpansions] using this
  | kept haccept later ih =>
    simp only [widenSlots, haccept, if_true] at hbase
    rw [findWideningPositionsFrom_cons (getElem?_of_drop_eq_cons htokens)]
    have := ih (drop_succ_of_drop_eq_cons htokens) before hbase
    simpa [widenSlot, haccept, collectTypeExpansionsFrom, widenSlots, expandSlots] using this
  | @refused _ _ _ token _ haccept later ih =>
    simp only [widenSlots, haccept, Bool.false_eq_true, if_false] at hbase
    rw [findWideningPositionsFrom_cons (getElem?_of_drop_eq_cons htokens)]
    have := ih (drop_succ_of_drop_eq_cons htokens)
      (before ++ [(SlotTypes.singleton .str).insert (maskedType token)])
      (by simpa using drop_succ_of_drop_eq_cons hbase)
    simpa [widenSlot, haccept, collectTypeExpansionsFrom, widenSlots, expandSlots] using this

end Suffix

/-- A template that takes the line opens no slot. -/
theorem Aligned.widenSlots_eq (h : Aligned tokens template slots)
    (hsame : widenTemplate tokens template = template) :
    widenSlots tokens template slots = slots := by
  induction h with
  | nil => rfl
  | wildcard token set later ih => simpa [widenSlots] using ih (by simpa using hsame)
  | kept haccept later ih =>
    simpa [widenSlots, haccept] using ih (by simpa [widenSlot, haccept] using hsame)
  | refused haccept later ih => simp [widenSlot, haccept] at hsame

theorem Aligned.updateSlotTypesOnWidening_eq (h : Aligned tokens template slots) :
    updateSlotTypesOnWidening (mask tokens) slots (widenTemplate tokens template)
        (findWideningPositions (mask tokens).tokens template (mask tokens).wildcardPositions) =
      widenSlots tokens template slots := by
  have := h.updateSlotTypesFrom_eq (List.drop_zero : tokens.drop 0 = tokens) []
  simpa [updateSlotTypesOnWidening, findWideningPositions] using this

theorem Aligned.applyTypeExpansions_eq (h : Aligned tokens template slots) :
    applyTypeExpansions (widenSlots tokens template slots)
        (collectTypeExpansions (mask tokens) (widenTemplate tokens template)
          (widenSlots tokens template slots)
          (findWideningPositions (mask tokens).tokens template (mask tokens).wildcardPositions)) =
      attachSlots tokens template slots := by
  have := h.applyTypeExpansions_collect (List.drop_zero : tokens.drop 0 = tokens) [] List.drop_zero
  simpa [collectTypeExpansions, findWideningPositions] using this

/-! ### The plan as a whole -/

/-- The leaf after an attach that announced `steps` changes. -/
def Leaf.attached (leaf : Leaf) (tokens : List Text) (steps : Nat) : Leaf :=
  { leaf with
    template := widenTemplate tokens leaf.template
    slotTypes := attachSlots tokens leaf.template leaf.slotTypes
    templateVersion := leaf.templateVersion + steps }

/-- A leaf's slots are one per wildcard. -/
def Leaf.SlotsAligned (leaf : Leaf) : Prop := leaf.slotTypes.length = wildcardCount leaf.template

/-- An attach keeps one slot per wildcard. -/
theorem Leaf.SlotsAligned.attached {leaf : Leaf} (h : leaf.SlotsAligned)
    (hlen : leaf.template.length = tokens.length) (steps : Nat) :
    (leaf.attached tokens steps).SlotsAligned :=
  (aligned_of_length hlen h).length_attachSlots

/-- The announced history of one template between two versions: every change
takes the version up by one and starts from the shape the last one left. -/
inductive Evolves : Nat → List OwnedToken → List TemplateChange → Nat → List OwnedToken → Prop
  | refl (version : Nat) (template : List OwnedToken) : Evolves version template [] version template
  | widened {version final : Nat} {template result : List OwnedToken}
      {changes : List TemplateChange} (positions : List Nat)
      (hfixed : ∀ p ∈ positions, ∃ text, template[p]? = some (.fixed text))
      (later : Evolves (version + 1) (applyWidening template positions) changes final result) :
      Evolves version template
        (.widened version (version + 1) (formatTemplate template)
          (formatTemplate (applyWidening template positions)) positions :: changes) final result
  | typeExpanded {version final : Nat} {template result : List OwnedToken}
      {changes : List TemplateChange} (expansions : List SlotExpansion)
      (later : Evolves (version + 1) template changes final result) :
      Evolves version template
        (.typeExpanded version (version + 1) (formatTemplate template) (formatTemplate template)
          expansions :: changes) final result

theorem Evolves.version_eq {version final : Nat} {result : List OwnedToken}
    {changes : List TemplateChange} (h : Evolves version template changes final result) :
    final = version + changes.length := by
  induction h with
  | refl version template => rfl
  | widened positions hfixed later ih | typeExpanded expansions later ih => simp [ih]; omega

/-- What announced nothing changed nothing. -/
theorem Evolves.template_eq_of_nil {version final : Nat} {result : List OwnedToken}
    (h : Evolves version template [] final result) : result = template := by
  cases h
  rfl

/-- What planning an attach can return. -/
inductive Planned (leaf : Leaf) (tokens : List Text) (byteLimit : Nat) :
    AttachPlan → Leaf → Prop
  | reused (hsame : leaf.attached tokens 0 = leaf) :
      Planned leaf tokens byteLimit
        (.cleanReuse leaf.templateId leaf.templateVersion
          (buildRecordParams env leaf.template (mask tokens) byteLimit)) leaf
  | rejected (wouldBeTemplate : Text) (wouldBePositions : List Nat) :
      Planned leaf tokens byteLimit
        (.rejected leaf.templateId leaf.templateVersion (formatTemplate leaf.template)
          wouldBeTemplate wouldBePositions) leaf
  | mutated (changes : List TemplateChange)
      (hevolves : Evolves leaf.templateVersion leaf.template changes
        (leaf.attached tokens changes.length).templateVersion
        (leaf.attached tokens changes.length).template) :
      Planned leaf tokens byteLimit
        (.mutated leaf.templateId changes (leaf.attached tokens changes.length).templateVersion
          (buildRecordParams env (leaf.attached tokens changes.length).template (mask tokens)
            byteLimit))
        (leaf.attached tokens changes.length)

theorem planned_planAttach {leaf : Leaf} (byteLimit : Nat)
    (hlen : leaf.template.length = tokens.length) (hslots : leaf.SlotsAligned) :
    Planned env leaf tokens byteLimit (planAttach env leaf (mask tokens) byteLimit).1
      (planAttach env leaf (mask tokens) byteLimit).2 := by
  have hnil := findWideningPositions_eq_nil_iff hlen
  have hwidened := applyWidening_findWideningPositions hlen
  have hfixed : ∀ p ∈ findWideningPositions (mask tokens).tokens leaf.template
      (mask tokens).wildcardPositions, ∃ text, leaf.template[p]? = some (.fixed text) := by
    intro p hp
    obtain ⟨token, slot, -, hslot, hrefuse⟩ := (mem_findWideningPositions p _ _).mp hp
    cases slot with
    | wildcard => simp [slotAccepts] at hrefuse
    | fixed text => exact ⟨text, hslot⟩
  have haligned := aligned_of_length hlen hslots
  have hupdate := haligned.updateSlotTypesOnWidening_eq
  have hexpand := haligned.applyTypeExpansions_eq
  unfold planAttach
  generalize findWideningPositions (mask tokens).tokens leaf.template
    (mask tokens).wildcardPositions = widened at hnil hwidened hfixed hupdate hexpand ⊢
  simp only [hwidened, hupdate]
  by_cases hempty : widened = []
  · subst hempty
    have hsame := hnil.mp rfl
    rw [hsame, haligned.widenSlots_eq hsame] at hexpand
    have hattached : ∀ steps, leaf.attached tokens steps = { leaf with
        slotTypes := attachSlots tokens leaf.template leaf.slotTypes
        templateVersion := leaf.templateVersion + steps } := by
      intro steps
      simp only [Leaf.attached, hsame]
    simp only [List.isEmpty_nil, if_true]
    by_cases hnone :
        collectTypeExpansions (mask tokens) leaf.template leaf.slotTypes [] = []
    · rw [hnone] at hexpand ⊢
      refine .reused ?_
      rw [hattached, ← hexpand]
      rfl
    · rw [if_neg (by simpa using hnone)]
      have : Planned env leaf tokens byteLimit _ _ := .mutated
        [.typeExpanded leaf.templateVersion (leaf.templateVersion + 1)
          (formatTemplate leaf.template) (formatTemplate leaf.template)
          (collectTypeExpansions (mask tokens) leaf.template leaf.slotTypes [])]
        (by simpa [hattached] using .typeExpanded _ (.refl _ _))
      simpa [hattached, hexpand] using this
  · have hstart : ∀ {changes final result},
        Evolves (leaf.templateVersion + 1) (widenTemplate tokens leaf.template) changes final
          result →
        Evolves leaf.templateVersion leaf.template
          (.widened leaf.templateVersion (leaf.templateVersion + 1) (formatTemplate leaf.template)
            (formatTemplate (widenTemplate tokens leaf.template)) widened :: changes)
          final result := by
      intro changes final result later
      rw [← hwidened] at later ⊢
      exact .widened widened hfixed later
    rw [if_neg (by simpa using hempty)]
    split
    · exact .rejected _ _
    · split
      · rename_i hnone
        have hnone' := List.isEmpty_iff.mp hnone
        rw [hnone'] at hexpand
        have : Planned env leaf tokens byteLimit _ _ := .mutated _ (hstart (.refl _ _))
        simpa [Leaf.attached, ← hexpand, applyTypeExpansions] using this
      · have : Planned env leaf tokens byteLimit _ _ := .mutated _ (hstart (.typeExpanded
          (collectTypeExpansions (mask tokens) (widenTemplate tokens leaf.template)
            (widenSlots tokens leaf.template leaf.slotTypes) widened) (.refl _ _)))
        simpa [Leaf.attached, hexpand] using this

end Ourios.Miner
