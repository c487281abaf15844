/-!
# Tables

A table numbers its entries in the order they were added.  Entries can be
overwritten but not removed, so a number stays valid.

Numbers that come from outside are 32 bit words (`Index`).  Two numbers that
are equal modulo 2^32 are the same index.
-/

namespace Shading

/-- Number of an entry, as a word of 32 bits. -/
structure Index where
  word : UInt32
deriving DecidableEq

namespace Index

/-- Drops the bits above the word, so that counting on past the last index starts again at zero. -/
def ofNat (n : Nat) : Index := ⟨UInt32.ofNat n⟩

def toNat (index : Index) : Nat := index.word.toNat

/-- The index `amount` entries further on. -/
def plus (index : Index) (amount : Nat) : Index := ofNat (index.toNat + amount)

end Index

structure Table (α : Type) where
  entries : Array α

namespace Table

variable {α : Type}

def empty : Table α := ⟨#[]⟩

def size (table : Table α) : Nat := table.entries.size

def isEmpty (table : Table α) : Bool := table.size = 0

def get? (table : Table α) (index : Nat) : Option α := table.entries[index]?

/-- Adds an entry, whose number is the size before. -/
def push (table : Table α) (entry : α) : Table α := ⟨table.entries.push entry⟩

/-- Overwrites an entry that exists. -/
def set (table : Table α) (index : Nat) (entry : α) : Table α := ⟨table.entries.setIfInBounds index entry⟩

def modify (table : Table α) (index : Nat) (f : α → α) : Table α := ⟨table.entries.modify index f⟩

def toList (table : Table α) : List α := table.entries.toList

/-- Index of the next entry to be added. -/
def nextIndex (table : Table α) : Index := .ofNat table.size

/-- Entries with their indices. -/
def enumerate (table : Table α) : List (Index × α) :=
  table.toList.zipIdx.map fun (entry, number) => (.ofNat number, entry)

def indices (table : Table α) : List Index := table.enumerate.map (·.1)

@[simp] theorem size_push (table : Table α) (entry : α) : (table.push entry).size = table.size + 1 := by
  simp [push, size]

@[simp] theorem size_modify (table : Table α) (index : Nat) (f : α → α) :
    (table.modify index f).size = table.size := by
  simp [modify, size]

theorem get?_push_same (table : Table α) (entry : α) :
    (table.push entry).get? table.size = some entry := by
  simp [push, get?, size]

theorem get?_push_other (table : Table α) (entry : α) (index : Nat) (h : index ≠ table.size) :
    (table.push entry).get? index = table.get? index := by
  simp [push, get?, size, Array.getElem?_push] at h ⊢
  intro heq
  exact absurd heq h

end Table

/-! ## Names -/

/-- Distinct names, numbered in the order they were first seen. -/
structure NamePool where
  names : Table String

namespace NamePool

def empty : NamePool := ⟨.empty⟩

def indexOf? (pool : NamePool) (name : String) : Option Index :=
  (pool.names.toList.idxOf? name).map .ofNat

def get? (pool : NamePool) (index : Index) : Option String := pool.names.get? index.toNat

/-- The index of a name, which is added if it is new. -/
def insert (pool : NamePool) (name : String) : Index × NamePool :=
  match pool.indexOf? name with
  | some index => (index, pool)
  | none => (pool.names.nextIndex, ⟨pool.names.push name⟩)

end NamePool

end Shading
