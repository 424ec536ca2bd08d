import Mathlib.Data.List.Basic
import Mathlib.Logic.Function.Basic

/-!
# Free lists threaded through a store

The cells of a store that are not in use hold the name of the next one. A fixed cell heads the
list, and a distinguished value ends it.
-/

namespace FreeList

set_option autoImplicit false

universe u
variable {K : Type u} {last : K} {link link' : K → K} {head r : K} {free : List K}

/-- From `head` the links lead through the cells of the list and then to `last`. -/
def Threads (last : K) (link : K → K) : K → List K → Prop
  | head, [] => link head = last
  | head, r :: rest => link head = r ∧ r ≠ last ∧ Threads last link r rest

theorem Threads.congr (h : Threads last link head free)
    (heq : ∀ k ∈ head :: free, link' k = link k) : Threads last link' head free := by
  induction free generalizing head with
  | nil => exact (heq head List.mem_cons_self).trans h
  | cons r rest ih =>
    refine ⟨(heq head List.mem_cons_self).trans h.1, h.2.1, ih h.2.2 fun k hk => ?_⟩
    exact heq k (List.mem_cons_of_mem head hk)

theorem Threads.moveHead (h : Threads last link r free) (heq : link' head = link r)
    (hrest : ∀ k ∈ free, link' k = link k) : Threads last link' head free := by
  cases free with
  | nil => exact heq.trans h
  | cons s rest => exact ⟨heq.trans h.1, h.2.1, h.2.2.congr hrest⟩

variable [DecidableEq K]

/-- Taking the first cell off the list: the head takes over its link, and the cell is used. -/
theorem Threads.pop {used : K} (h : Threads last link head (r :: free)) (hhead : head ≠ r)
    (hr : r ∉ free) (hfree : head ∉ free) :
    Threads last (Function.update (Function.update link head (link r)) r used) head free := by
  refine h.2.2.moveHead ?_ fun k hk => ?_
  · rw [Function.update_of_ne hhead, Function.update_self]
  · rw [Function.update_of_ne (ne_of_mem_of_not_mem hk hr),
      Function.update_of_ne (ne_of_mem_of_not_mem hk hfree)]

/-- Putting a cell on the list: it takes over the link of the head, which names it from now on. -/
theorem Threads.push (h : Threads last link head free) (hlast : r ≠ last) (hhead : head ≠ r)
    (hr : r ∉ free) (hfree : head ∉ free) :
    Threads last (Function.update (Function.update link r (link head)) head r) head
      (r :: free) := by
  refine ⟨Function.update_self .., hlast, h.moveHead ?_ fun k hk => ?_⟩
  · rw [Function.update_of_ne hhead.symm, Function.update_self]
  · rw [Function.update_of_ne (ne_of_mem_of_not_mem hk hfree),
      Function.update_of_ne (ne_of_mem_of_not_mem hk hr)]

end FreeList
