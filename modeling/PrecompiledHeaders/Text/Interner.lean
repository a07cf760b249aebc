/-!
# Interners

An interner holds texts and numbers them, so that texts can be told apart by their numbers. What
its stores are made of is left open: an interner is given by what can be done with a store
(`Interner`) and by what a store says of the texts in it (`Interner.IsDense`). Numbers are given out
without gaps, in the order in which texts are first seen, for as many texts as there is room for.
-/

namespace PrecompiledHeaders

/-- A way to number texts, with stores of some kind. -/
structure Interner (Store : Type) where
  /-- The store that holds no text. -/
  empty : Store
  /-- How many texts a store holds. -/
  size : Store → Nat
  /-- The number of a text that a store holds. -/
  get? : Store → List Char → Option Nat
  /-- The number of a text, and the store that holds it from now on. -/
  intern : Store → List Char → Nat × Store
  /-- The text with a number. -/
  text? : Store → Nat → Option (List Char)

/-- Whether an interner numbers texts in the order in which it first sees them, with room for
    `capacity` texts. The function `texts` tells which texts a store holds, in that order. -/
structure Interner.IsDense {Store : Type} (interner : Interner Store) (capacity : Nat)
    (texts : Store → List (List Char)) : Prop where
  empty : texts interner.empty = []
  size store : interner.size store = (texts store).length
  get? store text : interner.get? store text = (texts store).idxOf? text
  text? store number : interner.text? store number = (texts store)[number]?
  /-- A text that is held keeps its number. -/
  seen store text : text ∈ texts store →
    (interner.intern store text).1 = (texts store).idxOf text ∧
      texts (interner.intern store text).2 = texts store
  /-- A text that is new gets the next number. -/
  new store text : text ∉ texts store → (texts store).length < capacity →
    (interner.intern store text).1 = (texts store).length ∧
      texts (interner.intern store text).2 = texts store ++ [text]

end PrecompiledHeaders
