/-
# The template registry of the reader

The querier folds a tenant's audit events into a map from `(template_id,
version)` to tokens (`template_registry.rs`). The winner of a key is the event
with the greatest timestamp, later events winning ties; a key that was bound to
two different token sequences is also recorded as a conflict. As long as every
event of a key binds the same text, the order does not matter.
-/

import Ourios.Foundation.AssocMap
import Ourios.Foundation.Sorting
import Ourios.Miner.Template

namespace Ourios.Querier

open Ourios.Foundation Ourios.Miner

/-- The version and the text a change binds; a rejection binds nothing. -/
def keyedTemplate : TemplateChange → Option (Nat × Text)
  | .created newTemplate => some (templateInitialVersion, newTemplate)
  | .widened _ newVersion _ newTemplate _ => some (newVersion, newTemplate)
  | .typeExpanded _ newVersion _ newTemplate _ => some (newVersion, newTemplate)
  | .adopted templateVersion newTemplate => some (templateVersion, newTemplate)
  | .rejectedDegenerate .. => none

/-- Whether two stored templates bind the same token sequence. -/
def sameTokens (held incoming : Text) : Bool :=
  held == incoming || parseTemplate held == parseTemplate incoming

/-- The fold over the audit events of one tenant. -/
structure RegistryFold where
  latest : AList fun _ : Nat × Nat => Int × Text
  conflicts : Finset (Nat × Nat)

namespace RegistryFold

def empty : RegistryFold := ⟨∅, ∅⟩

def push (fold : RegistryFold) (event : AuditEvent) : RegistryFold :=
  match keyedTemplate event.change with
  | none => fold
  | some (version, template) =>
    let key := (event.templateId, version)
    match fold.latest.lookup key with
    | some (timestamp, held) =>
      { latest :=
          if timestamp ≤ event.timestamp then fold.latest.insert key (event.timestamp, template)
          else fold.latest
        conflicts :=
          if sameTokens held template then fold.conflicts else insert key fold.conflicts }
    | none => { fold with latest := fold.latest.insert key (event.timestamp, template) }

/-- The finished registry, as the tokens of each key. -/
def finish (fold : RegistryFold) (key : Nat × Nat) : Option (List OwnedToken) :=
  (fold.latest.lookup key).map fun held => parseTemplate held.2

end RegistryFold

def deriveTemplateRegistry (events : List AuditEvent) : Nat × Nat → Option (List OwnedToken) :=
  (events.foldl RegistryFold.push .empty).finish

/-- The key an event binds, with its text. -/
def binding (event : AuditEvent) : Option ((Nat × Nat) × Text) :=
  (keyedTemplate event.change).map fun bound => ((event.templateId, bound.1), bound.2)

/-- Some event of a sequence binds a key to a text. -/
def Binds (events : List AuditEvent) (key : Nat × Nat) (text : Text) : Prop :=
  ∃ event ∈ events, binding event = some (key, text)

variable {events : List AuditEvent} {key : Nat × Nat} {text : Text}

theorem Binds.append_left (h : Binds events key text) (later : List AuditEvent) :
    Binds (events ++ later) key text := by
  obtain ⟨event, hmem, hbinding⟩ := h
  exact ⟨event, List.mem_append_left _ hmem, hbinding⟩

theorem binds_append_iff {later : List AuditEvent} :
    Binds (events ++ later) key text ↔ Binds events key text ∨ Binds later key text := by
  simp only [Binds, List.mem_append, or_and_right, exists_or]

/-- The text an event binds a key to. -/
def textFor (key : Nat × Nat) (event : AuditEvent) : Option Text :=
  (binding event).bind fun bound => if bound.1 = key then some bound.2 else none

theorem textFor_eq_some {event : AuditEvent} :
    textFor key event = some text ↔ binding event = some (key, text) := by
  simp only [textFor, Option.bind_eq_some_iff, Option.ite_none_right_eq_some, Option.some.injEq]
  constructor
  · rintro ⟨⟨_, _⟩, hbinding, rfl, rfl⟩
    exact hbinding
  · intro hbinding
    exact ⟨_, hbinding, rfl, rfl⟩

namespace RegistryFold

/-- An event leaves a key with the later of its text and the one that is held. -/
theorem lookup_push (fold : RegistryFold) (event : AuditEvent) (key : Nat × Nat) :
    (fold.push event).latest.lookup key =
      later (fold.latest.lookup key) (reading AuditEvent.timestamp (textFor key) event) := by
  unfold push reading textFor binding
  cases keyedTemplate event.change with
  | none => exact (later_none _).symm
  | some bound =>
    obtain ⟨version, template⟩ := bound
    simp only [Option.map_some, Option.bind_some]
    rcases eq_or_ne (event.templateId, version) key with rfl | hkey
    · split
      · rename_i timestamp held hheld
        split <;> simp_all [later]
      · rename_i hheld
        simp [hheld, later]
    · split
      · split <;> simp [AList.lookup_insert_ne hkey.symm]
      · simp [hkey, AList.lookup_insert_ne hkey.symm]

theorem lookup_foldl (events : List AuditEvent) (fold : RegistryFold) (key : Nat × Nat) :
    (events.foldl push fold).latest.lookup key =
      later (fold.latest.lookup key) (latestReading AuditEvent.timestamp (textFor key) events) := by
  rw [← foldl_later]
  induction events generalizing fold with
  | nil => rfl
  | cons event events ih => rw [List.foldl_cons, List.foldl_cons, ih, lookup_push]

theorem mem_conflicts_push {fold : RegistryFold} {event : AuditEvent} {key : Nat × Nat} :
    key ∈ (fold.push event).conflicts ↔ key ∈ fold.conflicts ∨
      ∃ held text, fold.latest.lookup key = some held ∧ textFor key event = some text ∧
        sameTokens held.2 text = false := by
  unfold push textFor binding
  cases keyedTemplate event.change with
  | none => simp
  | some bound =>
    obtain ⟨version, template⟩ := bound
    simp only [Option.map_some, Option.bind_some]
    rcases eq_or_ne (event.templateId, version) key with rfl | hkey
    · split
      · rename_i timestamp held hheld
        cases hsame : sameTokens held template <;> simp [hheld, hsame]
      · rename_i hheld
        simp [hheld]
    · split
      · rename_i timestamp held hheld
        cases sameTokens held template <;> simp [hkey, hkey.symm]
      · simp [hkey]

end RegistryFold

/-- Where every event of a key binds the same text, the registry holds that text's
tokens, whatever the timestamps. -/
theorem deriveTemplateRegistry_eq (hbinds : Binds events key text)
    (hunique : ∀ other, Binds events key other → other = text) :
    deriveTemplateRegistry events key = some (parseTemplate text) := by
  obtain ⟨event, hevent, hbinding⟩ := hbinds
  obtain ⟨held, hheld⟩ := exists_latestReading AuditEvent.timestamp hevent
    (textFor_eq_some.mpr hbinding)
  obtain ⟨winner, hwinner, hread⟩ := exists_of_latestReading hheld
  have hlookup := RegistryFold.lookup_foldl events .empty key
  rw [hheld] at hlookup
  unfold deriveTemplateRegistry RegistryFold.finish
  rw [hlookup, ← hunique held.2 ⟨winner, hwinner, textFor_eq_some.mp hread⟩]
  rfl

end Ourios.Querier
