/-
# The order of the registry fold

The fold consumes the audit stream in scan order and keeps one text per key. Taking a
later event on `≥` makes that text the one a stable sort by timestamp puts last, so the
finished registry is what sorting the stream and inserting every binding gives. A key is
in conflict when two of its texts differ in tokens: while it is not, every text seen so
far has the tokens of the one that is held, and comparing with that one is enough.
-/

import Ourios.Foundation.Sorting
import Ourios.Querier.Registry

namespace Ourios.Querier

open Ourios.Foundation Ourios.Miner

/-- An event of the audit stream. Of a payload that is not a template's the fold reads
nothing. -/
inductive StreamEvent
  | template (event : AuditEvent)
  | other (timestamp : Int)

namespace StreamEvent

def timestamp : StreamEvent → Int
  | template event => event.timestamp
  | other timestamp => timestamp

/-- The key an event binds, with its text. -/
def binding : StreamEvent → Option ((Nat × Nat) × Text)
  | template event => Querier.binding event
  | other _ => none

/-- The text an event binds a key to. -/
def textFor (key : Nat × Nat) : StreamEvent → Option Text
  | template event => Querier.textFor key event
  | other _ => none

theorem textFor_eq (key : Nat × Nat) (event : StreamEvent) :
    event.textFor key =
      event.binding.bind fun bound => if bound.1 = key then some bound.2 else none := by
  cases event <;> rfl

theorem textFor_eq_some {key : Nat × Nat} {event : StreamEvent} {text : Text} :
    event.textFor key = some text ↔ event.binding = some (key, text) := by
  cases event with
  | template event => exact Querier.textFor_eq_some
  | other timestamp => simp [textFor, binding]

end StreamEvent

def RegistryFold.pushAny (fold : RegistryFold) : StreamEvent → RegistryFold
  | .template event => fold.push event
  | .other _ => fold

variable (events : List StreamEvent)

def RegistryFold.ofStream : RegistryFold :=
  events.foldl RegistryFold.pushAny .empty

/-- Sort the stream by timestamp, then insert every binding, the last insert winning. -/
def sortThenInsert : AList fun _ : Nat × Nat => List OwnedToken :=
  (sortByKey StreamEvent.timestamp events).foldl
    (fun registry event => match event.binding with
      | none => registry
      | some (key, text) => registry.insert key (parseTemplate text)) ∅

/-! ## The winner of a key -/

theorem lookup_pushAny (fold : RegistryFold) (event : StreamEvent) (key : Nat × Nat) :
    (fold.pushAny event).latest.lookup key = later (fold.latest.lookup key)
      (reading StreamEvent.timestamp (StreamEvent.textFor key) event) := by
  cases event with
  | template event => exact fold.lookup_push event key
  | other timestamp => exact (later_none _).symm

theorem lookup_ofStream (key : Nat × Nat) : (RegistryFold.ofStream events).latest.lookup key =
      latestReading StreamEvent.timestamp (StreamEvent.textFor key) events := by
  unfold RegistryFold.ofStream latestReading
  generalize hstart : RegistryFold.empty = fold
  have hlookup : fold.latest.lookup key = none := by
    rw [← hstart]
    rfl
  rw [← hlookup]
  clear hstart hlookup
  induction events generalizing fold with
  | nil => rfl
  | cons event events ih => rw [List.foldl_cons, List.foldl_cons, ih, lookup_pushAny]

/-- Inserting in order leaves each key with its last text. -/
theorem lookup_sortThenInsert (key : Nat × Nat) : (sortThenInsert events).lookup key =
      (lastReading StreamEvent.timestamp (StreamEvent.textFor key)
        (sortByKey StreamEvent.timestamp events)).map fun held => parseTemplate held.2 := by
  unfold sortThenInsert lastReading
  induction sortByKey StreamEvent.timestamp events using List.reverseRecOn with
  | nil => rfl
  | append_singleton events event ih =>
    rw [List.foldl_append, List.filterMap_append, List.foldl_cons, List.foldl_nil]
    cases hbinding : event.binding with
    | none => simpa [reading, StreamEvent.textFor_eq, hbinding] using ih
    | some bound =>
      obtain ⟨bound, text⟩ := bound
      by_cases hkey : bound = key
      · subst hkey
        simp [reading, StreamEvent.textFor_eq, hbinding]
      · rw [AList.lookup_insert_ne (Ne.symm hkey), ih]
        simp [reading, StreamEvent.textFor_eq, hbinding, hkey]

/-! ## Conflicts -/

/-- Some event of the stream binds a key to a text. -/
def BoundTo (key : Nat × Nat) (text : Text) : Prop :=
  ∃ event ∈ events, event.textFor key = some text

theorem sameTokens_iff {held incoming : Text} :
    sameTokens held incoming = true ↔ parseTemplate held = parseTemplate incoming := by
  simp only [sameTokens, Bool.or_eq_true, beq_iff_eq, or_iff_right_iff_imp]
  rintro rfl
  rfl

/-- What an event adds to the conflicts. -/
theorem mem_conflicts_pushAny {fold : RegistryFold} {event : StreamEvent} {key : Nat × Nat} :
    key ∈ (fold.pushAny event).conflicts ↔ key ∈ fold.conflicts ∨
      ∃ held text, fold.latest.lookup key = some held ∧ event.textFor key = some text ∧
        parseTemplate held.2 ≠ parseTemplate text := by
  cases event with
  | other timestamp => simp [RegistryFold.pushAny, StreamEvent.textFor]
  | template event =>
    simp only [← sameTokens_iff, Bool.not_eq_true, ne_eq]
    exact RegistryFold.mem_conflicts_push

theorem boundTo_append {events : List StreamEvent} {event : StreamEvent} {key : Nat × Nat}
    {text : Text} : BoundTo (events ++ [event]) key text ↔
      BoundTo events key text ∨ event.textFor key = some text := by
  simp [BoundTo, or_and_right, exists_or]

/-- The conflicts of a stream are the keys it binds to texts of different tokens. -/
theorem mem_conflicts_ofStream :
    (∀ key ∉ (RegistryFold.ofStream events).conflicts, ∀ first second, BoundTo events key first →
      BoundTo events key second → parseTemplate first = parseTemplate second) ∧
    ∀ key ∈ (RegistryFold.ofStream events).conflicts, ∃ first second, BoundTo events key first ∧
      BoundTo events key second ∧ parseTemplate first ≠ parseTemplate second := by
  induction events using List.reverseRecOn with
  | nil => simp [RegistryFold.ofStream, RegistryFold.empty, BoundTo]
  | append_singleton events event ih =>
    obtain ⟨hagreed, hdisputed⟩ := ih
    have hheld : ∀ key held, (RegistryFold.ofStream events).latest.lookup key = some held →
        BoundTo events key held.2 := by
      intro key held hlookup
      rw [lookup_ofStream] at hlookup
      exact exists_of_latestReading hlookup
    have hpush : RegistryFold.ofStream (events ++ [event]) =
        (RegistryFold.ofStream events).pushAny event := by
      rw [RegistryFold.ofStream, List.foldl_append]
      rfl
    rw [hpush]
    refine ⟨?_, ?_⟩
    · intro key hkey first second hfirst hsecond
      rw [mem_conflicts_pushAny] at hkey
      push Not at hkey
      -- a new text has the tokens of the one held, which stands for the others
      have hnew : ∀ text other, event.textFor key = some text → BoundTo events key other →
          parseTemplate other = parseTemplate text := by
        intro text other htext ⟨bound, hbound, hother⟩
        obtain ⟨held, hlookup⟩ := exists_latestReading StreamEvent.timestamp hbound hother
        rw [← lookup_ofStream] at hlookup
        rw [← hkey.2 held text hlookup htext]
        exact hagreed key hkey.1 _ _ ⟨bound, hbound, hother⟩ (hheld key held hlookup)
      rcases boundTo_append.mp hfirst with hfirst | hfirst <;>
        rcases boundTo_append.mp hsecond with hsecond | hsecond
      · exact hagreed key hkey.1 _ _ hfirst hsecond
      · exact hnew _ _ hsecond hfirst
      · exact (hnew _ _ hfirst hsecond).symm
      · rw [hfirst] at hsecond
        cases hsecond
        rfl
    · intro key hkey
      rcases mem_conflicts_pushAny.mp hkey with hold | ⟨held, text, hlookup, htext, hne⟩
      · obtain ⟨first, second, hfirst, hsecond, hne⟩ := hdisputed key hold
        exact ⟨first, second, boundTo_append.mpr (.inl hfirst), boundTo_append.mpr (.inl hsecond),
          hne⟩
      · exact ⟨held.2, text, boundTo_append.mpr (.inl (hheld key held hlookup)),
          boundTo_append.mpr (.inr htext), hne⟩

/-- For every audit stream, whatever the order of its timestamps: the streaming fold
finishes with what sorting the stream stably and inserting every binding gives, and its
conflicts are the keys bound to two texts of different tokens. -/
theorem RegistryFold.ofStream_eq_sortThenInsert (events : List StreamEvent) :
    (∀ key, (ofStream events).finish key = (sortThenInsert events).lookup key) ∧
      ∀ key, key ∈ (ofStream events).conflicts ↔
        ∃ first ∈ events, ∃ second ∈ events, ∃ text other,
          first.binding = some (key, text) ∧ second.binding = some (key, other) ∧
            parseTemplate text ≠ parseTemplate other := by
  refine ⟨?_, ?_⟩
  · intro key
    rw [lookup_sortThenInsert, lastReading_sortByKey, ← lookup_ofStream]
    rfl
  · intro key
    obtain ⟨hagreed, hdisputed⟩ := mem_conflicts_ofStream events
    constructor
    · intro hkey
      obtain ⟨text, other, ⟨first, hfirst, htext⟩, ⟨second, hsecond, hother⟩, hne⟩ :=
        hdisputed key hkey
      exact ⟨first, hfirst, second, hsecond, text, other, StreamEvent.textFor_eq_some.mp htext,
        StreamEvent.textFor_eq_some.mp hother, hne⟩
    · rintro ⟨first, hfirst, second, hsecond, text, other, htext, hother, hne⟩
      by_contra hkey
      exact hne (hagreed key hkey text other ⟨first, hfirst, StreamEvent.textFor_eq_some.mpr htext⟩
        ⟨second, hsecond, StreamEvent.textFor_eq_some.mpr hother⟩)

end Ourios.Querier
