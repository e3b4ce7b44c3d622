import Mathlib.Data.List.Basic

/-! Sums over a pool of threads, one of which takes a step or ends. -/

set_option autoImplicit false

namespace OpenEmarsys.Interleaving

variable {α β : Type} {f : α → Int} {pool : List α} {i : Nat} {thread : α}

def tally (f : α → Int) : List α → Int
  | [] => 0
  | thread :: rest => f thread + tally f rest

@[simp] theorem tally_nil : tally f [] = 0 := rfl

@[simp] theorem tally_cons (rest : List α) : tally f (thread :: rest) = f thread + tally f rest := rfl

@[simp] theorem tally_append (first second : List α) :
    tally f (first ++ second) = tally f first + tally f second := by
  induction first with
  | nil => simp
  | cons head rest ih => simp [ih, Int.add_assoc]

theorem tally_flatMap (actions : β → List α) (list : List β) :
    tally f (list.flatMap actions) = tally (fun item => tally f (actions item)) list := by
  induction list with
  | nil => rfl
  | cons item rest ih => simp [ih]

theorem tally_set (at_ : pool[i]? = some thread) (after : α) :
    tally f (pool.set i after) + f thread = tally f pool + f after := by
  induction pool generalizing i with
  | nil => simp at at_
  | cons head rest ih =>
    cases i with
    | zero =>
      cases at_
      simp only [List.set_cons_zero, tally_cons]
      omega
    | succ i =>
      have later := ih (by simpa using at_)
      simp only [List.set_cons_succ, tally_cons]
      omega

theorem tally_eraseIdx (at_ : pool[i]? = some thread) :
    tally f (pool.eraseIdx i) + f thread = tally f pool := by
  induction pool generalizing i with
  | nil => simp at at_
  | cons head rest ih =>
    cases i with
    | zero =>
      cases at_
      simp only [List.eraseIdx_cons_zero, tally_cons]
      omega
    | succ i =>
      have later := ih (by simpa using at_)
      simp only [List.eraseIdx_cons_succ, tally_cons]
      omega

def many [DecidableEq α] (thing : α) (list : List α) : Int := list.count thing

section Many
variable [DecidableEq α]

@[simp] theorem many_nil (thing : α) : many thing [] = 0 := rfl

@[simp] theorem many_append (thing : α) (first second : List α) :
    many thing (first ++ second) = many thing first + many thing second := by
  simp [many]

theorem many_cons (thing head : α) (rest : List α) :
    many thing (head :: rest) = many thing [head] + many thing rest := by
  rw [← many_append, List.singleton_append]

theorem perm_of_many {first second : List α} (same : ∀ thing, many thing first = many thing second) :
    first.Perm second := by
  apply List.perm_iff_count.2
  intro thing
  exact Int.ofNat_inj.1 (same thing)

end Many

end OpenEmarsys.Interleaving
