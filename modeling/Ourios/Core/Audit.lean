/-
# Audit vocabulary of the miner

The types `ourios-core::audit` shares between the miner, which emits template
changes, and the querier, which folds them back into templates. Only the
template payload is modelled: the miner emits no other, and the registry fold
skips every other one.
-/

import Ourios.Core.Text

namespace Ourios

/-- The inferred type of one parameter value. -/
inductive ParamType
  | ip | uuid | num | hex | ts | path | str | overflow
  | unknown (ordinal : Int)
  deriving DecidableEq, Repr

/-- The set of types one wildcard slot has seen, as the `u8` bit set of the
source. `unknown` has no bit. -/
structure SlotTypes where
  bits : BitVec 8
  deriving DecidableEq, Repr

namespace SlotTypes

variable (set : SlotTypes)

def bit : ParamType → BitVec 8
  | .ip => 1
  | .uuid => 2
  | .num => 4
  | .hex => 8
  | .ts => 16
  | .path => 32
  | .str => 64
  | .overflow => 128
  | .unknown _ => 0

def new : SlotTypes := ⟨0⟩

def insert (t : ParamType) : SlotTypes := ⟨set.bits ||| bit t⟩

def singleton (t : ParamType) : SlotTypes := ⟨bit t⟩

def contains (t : ParamType) : Bool := (set.bits &&& bit t) != 0

def isEmpty : Bool := set.bits == 0

/-- Every type with a bit, in declaration order. -/
def all : List ParamType := [.ip, .uuid, .num, .hex, .ts, .path, .str, .overflow]

/-- The members in declaration order. -/
def iter : List ParamType := all.filter set.contains

def ofList (types : List ParamType) : SlotTypes := types.foldl insert new

/-- The members determine the set. -/
@[simp]
theorem ofList_iter : ofList set.iter = set := by
  have key : ∀ bits : BitVec 8, ofList (iter ⟨bits⟩) = ⟨bits⟩ := by decide +kernel
  exact key set.bits

variable {set : SlotTypes}

/-- A set with a member is not empty. -/
theorem iter_ne_nil (h : set.isEmpty = false) : set.iter ≠ [] := by
  have key : ∀ bits : BitVec 8, isEmpty ⟨bits⟩ = false → iter ⟨bits⟩ ≠ [] := by decide +kernel
  exact key set.bits h

/-- Inserting a type keeps a set nonempty. -/
theorem isEmpty_insert {t : ParamType} (h : set.isEmpty = false) :
    (set.insert t).isEmpty = false := by
  simp only [isEmpty, insert, beq_eq_false_iff_ne, ne_eq] at h ⊢
  intro hzero
  exact h (BitVec.or_eq_zero_iff.mp hzero).1

theorem insert_new (t : ParamType) : new.insert t = singleton t := by
  simp [insert, singleton, new]

theorem insert_singleton_self (t : ParamType) : (singleton t).insert t = singleton t := by
  simp [insert, singleton]

/-- Inserting a member changes nothing. -/
theorem insert_of_contains {t : ParamType} (h : set.contains t = true) :
    set.insert t = set := by
  have key : ∀ t ∈ all, ∀ bits : BitVec 8, contains ⟨bits⟩ t = true → insert ⟨bits⟩ t = ⟨bits⟩ := by
    decide +kernel
  cases t with
  | unknown ordinal => simp [contains, bit] at h
  | ip | uuid | num | hex | ts | path | str | overflow =>
    exact key _ (by decide) set.bits h

end SlotTypes

/-- Who vouched for a template. -/
inductive Provenance
  | mined | upstreamDerived | producerDeclared
  deriving DecidableEq, Repr

/-- The set of parties that vouched for a template. The source keeps it as a bit
set whose only assigned bits are the three variants. -/
abbrev ProvenanceSet := Finset Provenance

/-- One slot that saw new types. -/
structure SlotExpansion where
  slotIndex : Nat
  addedTypes : List ParamType
  deriving DecidableEq, Repr

/-- What happened to a template. Templates travel as their canonical text. -/
inductive TemplateChange
  | created (newTemplate : Text)
  | widened (oldVersion newVersion : Nat) (oldTemplate newTemplate : Text)
      (positionsWidened : List Nat)
  | typeExpanded (oldVersion newVersion : Nat) (oldTemplate newTemplate : Text)
      (slotsExpanded : List SlotExpansion)
  | rejectedDegenerate (version : Nat) (currentTemplate wouldBeTemplate : Text)
      (wouldBePositions : List Nat)
  | adopted (templateVersion : Nat) (newTemplate : Text)
  deriving DecidableEq, Repr

/-- The two structural changes that count as a merge. -/
def TemplateChange.countsAsMerge : TemplateChange → Bool
  | .widened .. => true
  | .typeExpanded .. => true
  | _ => false

def templateInitialVersion : Nat := 1

abbrev TenantId := Text

structure AuditEvent where
  tenantId : TenantId
  timestamp : Int
  templateId : Nat
  triggeringLineHash : List Nat
  triggeringLineSample : Option Text
  change : TemplateChange
  deriving DecidableEq, Repr

end Ourios
