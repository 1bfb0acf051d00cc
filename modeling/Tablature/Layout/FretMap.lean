import Tablature.Text
import Tablature.Number.Numeral

/-!
# Fret signs

Some tablatures write a number with a sign of their own, such as ten with a cross.
A `FretMap` says which signs those are.

- `lookup_put`: what is found in a list of entries after one has been put in.
- `FretMap.lookup_insert`: an entry is found under its own sign and no other.
-/

namespace Tablature

/-- Which text is printed for which sign. No sign has two entries. -/
structure FretMap where
  entries : List (String × String)
  deriving DecidableEq, Repr

/-- In a list of entries from which those of a key are taken out, and a new one for it is put in
front, the new one is found under its key and the others as before. -/
theorem lookup_put {κ β : Type} [BEq κ] [LawfulBEq κ] [DecidableEq κ] (entries : List (κ × β))
    (key other : κ) (value : β) :
    ((key, value) :: entries.filter fun e => e.1 != key).lookup other =
      if other = key then some value else entries.lookup other := by
  by_cases h : other = key
  · rw [if_pos h, h, List.lookup_cons_self]
  have hrest : (entries.filter fun e => e.1 != key).lookup other = entries.lookup other := by
    induction entries with
    | nil => rfl
    | cons e entries ih =>
      rw [List.filter_cons]
      by_cases he : e.1 = key
      · have hne : (other == e.1) = false := by simpa [he] using h
        rw [if_neg (by simp [he]), ih, List.lookup_cons, hne]
      · rw [if_pos (by simpa using he), List.lookup_cons, List.lookup_cons, ih]
  have hne : (other == key) = false := by simpa using h
  rw [if_neg h, List.lookup_cons, hne]
  exact hrest

namespace FretMap

def empty : FretMap := ⟨[]⟩

/-- Prints `target` for `sign`, whatever was printed for it before. -/
def insert (m : FretMap) (sign target : String) : FretMap :=
  ⟨(sign, target) :: m.entries.filter fun e => e.1 != sign⟩

/-- How many signs have an entry. -/
def size (m : FretMap) : Nat := m.entries.length

def isEmpty (m : FretMap) : Bool := m.entries.isEmpty

/-- The text for a sign: its entry, or the sign itself. -/
def lookup (m : FretMap) (sign : String) : String := (m.entries.lookup sign).getD sign

/-- A map with the given entries, a later one in place of an earlier one. -/
def ofList (pairs : List (String × String)) : FretMap :=
  pairs.foldl (fun m p => m.insert p.1 p.2) empty

/-- An entry is found under its own sign and no other. -/
theorem lookup_insert (m : FretMap) (sign target other : String) :
    (m.insert sign target).lookup other = if other = sign then target else m.lookup other := by
  unfold insert lookup
  rw [lookup_put]
  by_cases h : other = sign
  · rw [if_pos h, if_pos h, Option.getD_some]
  · rw [if_neg h, if_neg h]

/-- The printed form of a fret. Its leading digits are looked up and what follows them
stays; a fret that starts with no digit is looked up whole. -/
def remap (m : FretMap) (fret : String) : String :=
  let cs := fret.toList
  match cs.takeWhile Numeral.isDigit with
  | [] => m.lookup fret
  | ds => m.lookup (String.ofList ds) ++ String.ofList (cs.dropWhile Numeral.isDigit)

end FretMap

end Tablature
