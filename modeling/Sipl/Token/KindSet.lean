import Sipl.Token.Kind

namespace Sipl

/-! A set is a bit mask indexed by kind numbers, so two sets with the same members are equal. -/

structure KindSet where
  bits : Nat
  deriving DecidableEq, Inhabited

namespace KindSet

def empty : KindSet := ⟨0⟩

def insert (set : KindSet) (kind : Kind) : KindSet := ⟨set.bits ||| 1 <<< kind.index⟩

def contains (set : KindSet) (kind : Kind) : Bool := set.bits.testBit kind.index

def ofList (kinds : List Kind) : KindSet := kinds.foldl insert empty

/-- The members, in the order of their numbers. -/
def toList (set : KindSet) : List Kind := Kind.all.filter set.contains

@[simp] theorem contains_empty (kind : Kind) : empty.contains kind = false := by
  simp [contains, empty]

theorem contains_insert (set : KindSet) (added kind : Kind) :
    (set.insert added).contains kind = (decide (added = kind) || set.contains kind) := by
  have indices : added.index = kind.index ↔ added = kind :=
    ⟨Kind.index_injective, congrArg Kind.index⟩
  simp [contains, insert, Nat.testBit_or, Nat.one_shiftLeft, Nat.testBit_two_pow, indices,
    Bool.or_comm]

/-- Where a failed function declaration ends: the next declaration or the main block. -/
def declarationBoundary : KindSet := ofList [.semicolon, .funcWord, .beginWord]

/-- Where a failed block or statement ends: a statement boundary. -/
def statementBoundary : KindSet := ofList [.endWord, .semicolon, .funcWord, .ifWord, .whileWord]

end KindSet

end Sipl
