/-
# Stored attributes

An attribute column holds the canonical JSON of an attribute list
(`ourios-core::otlp::canonical`). This module has the encoder, the projection of
a promoted column (`promoted.rs`), and the comparison of an attribute by key
(`plan/attr_value.rs`): the key resolves to the first pair it names, or else as a
dotted path, the longest head first, into the maps the heads hold.

The comparison is stated over the decoded list. What it needs of the stored text
is that a key resolving to a value leaves that pair's JSON in the column, which
is what makes the substring prefilter of the query plan admissible.
-/

import Ourios.Foundation.Escaping
import Ourios.Querier.Query

namespace Ourios.Querier

open Ourios.Foundation

/-- The JSON form of a pair, from that of its value. -/
def encodePair (key : Text) : Option Text → Text
  | some value => "\x7b\"key\":".toList ++ jsonQuote key ++ ",\"value\":".toList ++ value ++ ['}']
  | none => "\x7b\"key\":".toList ++ jsonQuote key ++ ['}']

def encodeArray (items : List Text) : Text :=
  '[' :: [','].intercalate items ++ [']']

mutual

/-- The canonical JSON of a value. -/
def encodeAnyValue (engine : Engine) : AnyValue → Text
  | .unset => "\x7b\x7d".toList
  | .string text => "\x7b\"stringValue\":".toList ++ jsonQuote text ++ ['}']
  | .bool value => "\x7b\"boolValue\":".toList ++
    (if value then "true" else "false").toList ++ ['}']
  | .int value => "\x7b\"intValue\":".toList ++ jsonQuote (toString value).toList ++ ['}']
  | .double bits => "\x7b\"doubleValue\":".toList ++ engine.jsonF64 bits ++ ['}']
  | .array values =>
    "\x7b\"arrayValue\":\x7b\"values\":".toList ++ encodeArray (encodeValues engine values) ++
      "\x7d\x7d".toList
  | .kvlist pairs =>
    "\x7b\"kvlistValue\":\x7b\"values\":".toList ++ encodeArray (encodePairs engine pairs) ++
      "\x7d\x7d".toList
  | .bytes bytes => "\x7b\"bytesValue\":".toList ++ jsonQuote (engine.base64 bytes) ++ ['}']

/-- The items of an array value. -/
def encodeValues (engine : Engine) : List AnyValue → List Text
  | [] => []
  | value :: values => encodeAnyValue engine value :: encodeValues engine values

/-- The items of a map value. -/
def encodePairs (engine : Engine) : List (Text × Option AnyValue) → List Text
  | [] => []
  | (key, some value) :: pairs =>
    encodePair key (some (encodeAnyValue engine value)) :: encodePairs engine pairs
  | (key, none) :: pairs => encodePair key none :: encodePairs engine pairs

end

def attributePairs (attributes : List KeyValue) : List (Text × Option AnyValue) :=
  attributes.map fun kv => (kv.key, kv.value)

def encodeAttributes (engine : Engine) (attributes : List KeyValue) : Text :=
  encodeArray (encodePairs engine (attributePairs attributes))

/-! ## Promoted columns -/

def stringValue (kv : KeyValue) : Option Text :=
  match kv.value with
  | some (.string text) => some text
  | _ => none

/-- Project a promoted string key out of an attribute list: the first pair it
names, if that pair holds a string. -/
def projectStringValue (attributes : List KeyValue) (key : Text) : Option Text :=
  (attributes.find? fun kv => kv.key = key).bind stringValue

/-! ## Comparison by key -/

/-- The ways to cut a dotted key into a head and a rest, longest head first. -/
def splits : Text → List (Text × Text)
  | [] => []
  | c :: key =>
    let longer := (splits key).map fun split => (c :: split.1, split.2)
    if c = '.' then longer ++ [([], key)] else longer

def firstPair (pairs : List (Text × Option AnyValue)) (key : Text) :
    Option (Text × Option AnyValue) :=
  pairs.find? fun pair => pair.1 = key

/-- Resolve a key in a list of pairs: the value of the first pair it names, which
may be missing, or else a path. The fuel bounds the dots of the key. -/
def resolve : Nat → List (Text × Option AnyValue) → Text → Option (Option AnyValue)
  | 0, _, _ => none
  | fuel + 1, pairs, key =>
    match firstPair pairs key with
    | some pair => some pair.2
    | none => (splits key).findSome? fun split =>
      match firstPair pairs split.1 with
      | some (_, some (.kvlist inner)) => resolve fuel inner split.2
      | _ => none

/-- The text up to and including the first colon: how every value of a type
starts. -/
def typePrefix (expected : Text) : Text :=
  match expected.span (· ≠ ':') with
  | (before, ':' :: _) => before ++ [':']
  | _ => expected

/-- Whether a key resolves to an expected value, or, for `!=`, to another value of
its type. -/
def attrCmp (engine : Engine) (attributes : List KeyValue) (key expected : Text) (eq : Bool) :
    Bool :=
  match resolve (key.length + 1) (attributePairs attributes) key with
  | some (some value) =>
    let text := encodeAnyValue engine value
    if eq then text == expected
    else (typePrefix expected).isPrefixOf text && text != expected
  | _ => false

/-- The tails of a key after each of its dots, longest first. -/
def dotTails : Text → List Text
  | [] => []
  | c :: key => if c = '.' then key :: dotTails key else dotTails key

/-- The keys a pair a path ends in can carry: the key or one of its tails. -/
def storedKeys (key : Text) : List Text := key :: dotTails key

/-! ## A resolved pair stands in the stored text -/

theorem infix_intercalate {items : List Text} {item : Text} (h : item ∈ items) :
    item <:+: [','].intercalate items := by
  induction items with
  | nil => cases h
  | cons head items ih =>
    cases items with
    | nil =>
      rw [List.mem_singleton] at h
      rw [h]
      simp
    | cons next items =>
      rw [List.intercalate_cons_cons]
      rcases List.mem_cons.mp h with rfl | htail
      · exact ⟨[], [','] ++ [','].intercalate (next :: items), by simp⟩
      · obtain ⟨before, after, heq⟩ := ih htail
        exact ⟨head ++ [','] ++ before, after, by rw [← heq]; simp⟩

theorem infix_encodeArray {items : List Text} {item : Text} (h : item ∈ items) :
    item <:+: encodeArray items := by
  obtain ⟨before, after, heq⟩ := infix_intercalate h
  exact ⟨'[' :: before, after ++ [']'], by rw [encodeArray, ← heq]; simp⟩

section Resolution

variable (engine : Engine)

variable {key : Text}

theorem mem_encodePairs {pairs : List (Text × Option AnyValue)} {value : AnyValue}
    (h : (key, some value) ∈ pairs) :
    encodePair key (some (encodeAnyValue engine value)) ∈ encodePairs engine pairs := by
  induction pairs with
  | nil => cases h
  | cons pair pairs ih =>
    rcases pair with ⟨key', _ | value'⟩
    · rcases List.mem_cons.mp h with heq | htail
      · cases heq
      · exact List.mem_cons_of_mem _ (ih htail)
    · rcases List.mem_cons.mp h with heq | htail
      · cases heq
        exact List.mem_cons_self
      · exact List.mem_cons_of_mem _ (ih htail)

theorem firstPair_mem {pairs : List (Text × Option AnyValue)} {pair : Text × Option AnyValue}
    (h : firstPair pairs key = some pair) :
    pair ∈ pairs ∧ pair.1 = key :=
  ⟨List.mem_of_find?_eq_some h, by simpa using List.find?_some h⟩

theorem infix_encodePair (key value : Text) : value <:+: encodePair key (some value) :=
  List.infix_append _ _ _

theorem infix_kvlist (pairs : List (Text × Option AnyValue)) :
    encodeArray (encodePairs engine pairs) <:+: encodeAnyValue engine (.kvlist pairs) :=
  List.infix_append _ _ _

theorem splits_snd_mem {split : Text × Text} (h : split ∈ splits key) :
    split.2 ∈ dotTails key := by
  induction key generalizing split with
  | nil => cases h
  | cons c key ih =>
    rw [splits] at h
    rw [dotTails]
    by_cases hdot : c = '.'
    · simp only [hdot, if_true, List.mem_append, List.mem_map, List.mem_singleton] at h ⊢
      rcases h with ⟨inner, hinner, rfl⟩ | rfl
      · have htail : inner.2 ∈ dotTails key := ih hinner
        exact List.mem_cons_of_mem _ htail
      · exact List.mem_cons_self
    · simp only [hdot, if_false, List.mem_map] at h ⊢
      obtain ⟨inner, hinner, rfl⟩ := h
      have htail : inner.2 ∈ dotTails key := ih hinner
      exact htail

/-- A tail of a tail is a tail. -/
theorem dotTails_subset {tail : Text} (h : tail ∈ dotTails key) :
    ∀ {inner : Text}, inner ∈ dotTails tail → inner ∈ dotTails key := by
  intro inner hinner
  induction key with
  | nil => cases h
  | cons c key ih =>
    rw [dotTails] at h ⊢
    by_cases hdot : c = '.'
    · rw [if_pos hdot] at h ⊢
      rcases List.mem_cons.mp h with rfl | htail
      · exact List.mem_cons_of_mem _ hinner
      · exact List.mem_cons_of_mem _ (ih htail)
    · rw [if_neg hdot] at h ⊢
      exact ih h

theorem storedKeys_subset {tail stored : Text} (htail : tail ∈ dotTails key)
    (h : stored ∈ storedKeys tail) : stored ∈ storedKeys key := by
  rcases List.mem_cons.mp h with rfl | hinner
  · exact List.mem_cons_of_mem _ htail
  · exact List.mem_cons_of_mem _ (dotTails_subset htail hinner)

/-- A key that resolves to a value leaves that value's pair in the stored text,
under the key or one of its tails. -/
theorem resolve_infix : ∀ {fuel : Nat} {pairs : List (Text × Option AnyValue)} {key : Text}
    {value : AnyValue}, resolve fuel pairs key = some (some value) →
      ∃ stored ∈ storedKeys key, encodePair stored (some (encodeAnyValue engine value)) <:+:
        encodeArray (encodePairs engine pairs) := by
  intro fuel
  induction fuel with
  | zero =>
    intro pairs key value h
    cases h
  | succ fuel ih =>
    intro pairs key value h
    rw [resolve] at h
    split at h
    · rename_i pair hpair
      obtain ⟨hmem, rfl⟩ := firstPair_mem hpair
      have hvalue : pair.2 = some value := Option.some.inj h
      have hpairEq : pair = (pair.1, some value) := by rw [← hvalue]
      rw [hpairEq] at hmem
      exact ⟨pair.1, List.mem_cons_self, infix_encodeArray (mem_encodePairs engine hmem)⟩
    · obtain ⟨split, hsplit, hinner⟩ := List.exists_of_findSome?_eq_some h
      split at hinner
      · rename_i head inner hhead
        obtain ⟨hmem, -⟩ := firstPair_mem hhead
        obtain ⟨stored, hstored, hinfix⟩ := ih hinner
        refine ⟨stored, storedKeys_subset (splits_snd_mem hsplit) hstored, ?_⟩
        calc encodePair stored (some (encodeAnyValue engine value))
            <:+: encodeArray (encodePairs engine inner) := hinfix
          _ <:+: encodeAnyValue engine (.kvlist inner) := infix_kvlist engine inner
          _ <:+: encodePair head (some (encodeAnyValue engine (.kvlist inner))) :=
              infix_encodePair _ _
          _ <:+: encodeArray (encodePairs engine pairs) :=
              infix_encodeArray (mem_encodePairs engine hmem)
      · cases hinner

end Resolution

end Ourios.Querier
